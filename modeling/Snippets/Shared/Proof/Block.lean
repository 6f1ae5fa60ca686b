import Snippets.Shared.Block

/-!
# The control block protocol

`Inv`: the use count is the number of shared handles; the weak count is the number of weak handles
plus one for the whole group of shared handles (`group`), which lives until the last release has
done its `dec_weak_count`; the calls of `dispose ()` and `destroy ()`, made and pending, add up to
one with what they wait for. `Step.inv` keeps it, so in every reachable state (`system_inv`):

* `use_zero_stays`: a use count of 0 is final, no lock succeeds from then on;
* `protocol`: the whole of the protocol.
-/

namespace ControlBlock

open Lts Threads

variable {ι : Type*} [Fintype ι]

/-! ## Counts -/

/-- The shared handles of all threads. -/
def State.shared (s : State ι) : Nat := total Thread.shared s.threads

/-- The weak handles of all threads. -/
def State.weak (s : State ι) : Nat := total Thread.weak s.threads

/-- The frames `f` on the stacks of all threads. -/
def State.frames (s : State ι) (f : Frame) : Nat := total (fun th => th.stack.count f) s.threads

theorem handles_eq (s : State ι) : s.handles = s.shared + s.weak := Finset.sum_add_distrib

/-- What holds of the counters, the handles and the calls of the control block's functions: `S`, `W`
shared and weak handles, and `r`, `d`, `k`, `e` frames `release`, `disposing`, `decWeak`, `destroy`.
`min 1 S + r + d + k` is the weak reference of the group of shared handles: it is 1 until the last
release drops it. -/
structure Counts (use weak S W r d k e disposals disposed destroys : Nat) : Prop where
  use : use = S
  weak : weak = W + (min 1 S + r + d + k)
  group : min 1 S + r + d + k ≤ 1
  dispose : min 1 S + r + disposals = 1
  disposed : min 1 S + r + d + disposed = 1
  destroy : min 1 (W + (min 1 S + r + d + k)) + e + destroys = 1

/-- A thread's stack: only `dispose ()` is ever interrupted, and a lock needs a weak handle. -/
structure Thread.Ok (th : Thread) : Prop where
  tail : ∀ f ∈ th.stack.tail, f = .disposing
  lock : ∀ n, th.stack.head? = some (.lock n) → 0 < th.weak

/-- The counters are what the handles and the calls add up to, and the stacks are as the functions
leave them. -/
structure Inv (s : State ι) : Prop where
  counts : Counts s.useCount.toNat s.weakCount.toNat s.shared s.weak (s.frames .release)
    (s.frames .disposing) (s.frames .decWeak) (s.frames .destroy) s.disposals s.disposed s.destroys
  threads : ∀ t, (s.threads t).Ok

/-! ## The counters -/

section
variable {x : BitVec 64}

theorem toNat_add_one (h : x.toNat + 1 < 2 ^ 64) : (x + 1).toNat = x.toNat + 1 := by
  rw [BitVec.toNat_add]
  exact Nat.mod_eq_of_lt h

theorem toNat_sub_one (h : 0 < x.toNat) : (x - 1).toNat = x.toNat - 1 := by
  have hx := x.isLt
  rw [BitVec.toNat_sub, show (1 : BitVec 64).toNat = 1 from rfl]
  omega

theorem eq_one_iff : x = 1 ↔ x.toNat = 1 := by
  rw [← BitVec.toNat_inj]; rfl

theorem eq_zero_iff : x = 0 ↔ x.toNat = 0 := by
  rw [← BitVec.toNat_inj]; rfl

end

/-! ## Steps of the counts -/

section
variable {use weak S W r d k e a b c : Nat}

theorem Counts.weak_le (h : Counts use weak S W r d k e a b c) : weak ≤ W + 1 := by
  rw [h.weak]
  exact Nat.add_le_add_left h.group W

theorem Counts.addShared (h : Counts use weak S W r d k e a b c) (hS : 0 < S) :
    Counts (use + 1) weak (S + 1) W r d k e a b c := by
  have hmin : min 1 S = min 1 (S + 1) := by omega
  exact ⟨by rw [h.use], hmin ▸ h.weak, hmin ▸ h.group, hmin ▸ h.dispose, hmin ▸ h.disposed,
    hmin ▸ h.destroy⟩

theorem Counts.dropShared (h : Counts use weak (S + 1) W r d k e a b c) (hS : 0 < S) :
    Counts (use - 1) weak S W r d k e a b c := by
  have hmin : min 1 (S + 1) = min 1 S := by omega
  exact ⟨by rw [h.use, Nat.add_sub_cancel], hmin ▸ h.weak, hmin ▸ h.group, hmin ▸ h.dispose,
    hmin ▸ h.disposed, hmin ▸ h.destroy⟩

theorem Counts.dropLastShared (h : Counts use weak 1 W r d k e a b c) :
    Counts (use - 1) weak 0 W (r + 1) d k e a b c := by
  have hmin : min 1 1 + r = min 1 0 + (r + 1) := by omega
  exact ⟨by rw [h.use], hmin ▸ h.weak, hmin ▸ h.group, hmin ▸ h.dispose,
    by have := h.disposed; omega, hmin ▸ h.destroy⟩

theorem Counts.addWeak (h : Counts use weak S W r d k e a b c) (hw : 0 < weak) :
    Counts use (weak + 1) S (W + 1) r d k e a b c := by
  obtain ⟨hu, hweak, hg, ha, hb, hc⟩ := h
  refine ⟨hu, by omega, hg, ha, hb, ?_⟩
  generalize min 1 S + r + d + k = g at hweak hc ⊢
  omega

theorem Counts.dropWeak (h : Counts use weak S W r d k e a b c) (W' k' : Nat)
    (hdrop : W' + k' + 1 = W + k) (hle : k' ≤ k) :
    Counts use (weak - 1) S W' r d k' (if weak = 1 then e + 1 else e) a b c := by
  obtain ⟨hu, hweak, hg, ha, hb, hc⟩ := h
  refine ⟨hu, by omega, by omega, ha, by omega, ?_⟩
  split <;> omega

theorem Counts.callDispose (h : Counts use weak S W (r + 1) d k e a b c) :
    Counts use weak S W r (d + 1) k e (a + 1) b c := by
  obtain ⟨hu, hweak, hg, ha, hb, hc⟩ := h
  constructor <;> omega

theorem Counts.returnDispose (h : Counts use weak S W r (d + 1) k e a b c) :
    Counts use weak S W r d (k + 1) e a (b + 1) c := by
  obtain ⟨hu, hweak, hg, ha, hb, hc⟩ := h
  constructor <;> omega

theorem Counts.callDestroy (h : Counts use weak S W r d k (e + 1) a b c) :
    Counts use weak S W r d k e a b (c + 1) := by
  obtain ⟨hu, hweak, hg, ha, hb, hc⟩ := h
  exact ⟨hu, hweak, hg, ha, hb, by omega⟩

end

/-! ## One thread moves -/

theorem shared_le (s : State ι) (t : ι) : (s.threads t).shared ≤ s.shared :=
  le_total Thread.shared s.threads t

theorem weak_le (s : State ι) (t : ι) : (s.threads t).weak ≤ s.weak :=
  le_total Thread.weak s.threads t

theorem frame_le (s : State ι) {t : ι} {f : Frame} {rest : List Frame}
    (h : (s.threads t).stack = f :: rest) : 1 ≤ s.frames f := by
  have hle := le_total (fun th : Thread => th.stack.count f) s.threads t
  rw [h, List.count_cons_self] at hle
  unfold State.frames
  omega

variable [DecidableEq ι]

/-- Thread `t` becomes `th` and the counters change: the invariant follows from what the move does
to the counts. -/
theorem Inv.set {s : State ι} (hi : Inv s) {t : ι} {th : Thread} {u w : BitVec 64} {a b c : Nat}
    (hok : th.Ok)
    (h : ∀ S W r d k e : Nat, S + (s.threads t).shared = s.shared + th.shared →
      W + (s.threads t).weak = s.weak + th.weak →
      r + (s.threads t).stack.count .release = s.frames .release + th.stack.count .release →
      d + (s.threads t).stack.count .disposing = s.frames .disposing + th.stack.count .disposing →
      k + (s.threads t).stack.count .decWeak = s.frames .decWeak + th.stack.count .decWeak →
      e + (s.threads t).stack.count .destroy = s.frames .destroy + th.stack.count .destroy →
      Counts u.toNat w.toNat S W r d k e a b c) :
    Inv ((⟨u, w, s.threads, a, b, c⟩ : State ι).set t th) := by
  refine ⟨h _ _ _ _ _ _ (total_update _ _ _ _) (total_update _ _ _ _) (total_update _ _ _ _)
    (total_update _ _ _ _) (total_update _ _ _ _) (total_update _ _ _ _), fun v => ?_⟩
  show (Function.update s.threads t th v).Ok
  by_cases hv : v = t
  · subst hv; rwa [Function.update_self]
  · rw [Function.update_of_ne hv]; exact hi.threads v

theorem Inv.setHandles {s : State ι} (hi : Inv s) {t : ι} {th : Thread} {u w : BitVec 64}
    {a b c : Nat} (hok : th.Ok)
    (hframes : ∀ f, (∀ n, f ≠ .lock n) → th.stack.count f = (s.threads t).stack.count f)
    (h : ∀ S W : Nat, S + (s.threads t).shared = s.shared + th.shared →
      W + (s.threads t).weak = s.weak + th.weak →
      Counts u.toNat w.toNat S W (s.frames .release) (s.frames .disposing) (s.frames .decWeak)
        (s.frames .destroy) a b c) :
    Inv ((⟨u, w, s.threads, a, b, c⟩ : State ι).set t th) := by
  refine hi.set hok fun S W r d k e hS hW hr hd hk he => ?_
  rw [hframes .release nofun] at hr
  rw [hframes .disposing nofun] at hd
  rw [hframes .decWeak nofun] at hk
  rw [hframes .destroy nofun] at he
  obtain rfl := Nat.add_right_cancel hr
  obtain rfl := Nat.add_right_cancel hd
  obtain rfl := Nat.add_right_cancel hk
  obtain rfl := Nat.add_right_cancel he
  exact h S W hS hW

/-! ## Stacks -/

theorem Thread.Ok.push {th : Thread} (h : th.Ok) (hf : th.Free) {f : Frame}
    (hl : ∀ n, f = .lock n → 0 < th.weak) : (th.push f).Ok := by
  refine ⟨fun g hg => ?_, fun n hn => hl n (Option.some.inj hn)⟩
  rcases hf with he | he
  · rw [Thread.push, List.tail_cons, he] at hg; cases hg
  · obtain ⟨rest, hst⟩ : ∃ rest, th.stack = .disposing :: rest := List.head?_eq_some_iff.1 he
    rw [Thread.push, List.tail_cons, hst] at hg
    rcases List.mem_cons.1 hg with rfl | hg
    · rfl
    · exact h.tail g (by rwa [hst])

theorem Thread.Ok.pop {th : Thread} (h : th.Ok) {f : Frame} {rest : List Frame}
    (hst : th.stack = f :: rest) {a b : Nat} : (⟨a, b, rest⟩ : Thread).Ok ∧
      (⟨a, b, rest⟩ : Thread).Free := by
  have htail : ∀ g ∈ rest, g = .disposing := fun g hg => h.tail g (by rwa [hst])
  cases rest with
  | nil => exact ⟨⟨nofun, nofun⟩, .inl rfl⟩
  | cons g rest =>
    obtain rfl := htail g (List.mem_cons_self)
    exact ⟨⟨fun f hf => htail f (List.mem_cons_of_mem _ hf), nofun⟩, .inr rfl⟩

theorem Thread.Ok.next {th : Thread} (h : th.Ok) {f g : Frame} {rest : List Frame}
    (hst : th.stack = f :: rest) (hl : ∀ n, g = .lock n → 0 < th.weak) :
    ({ th with stack := g :: rest } : Thread).Ok :=
  ⟨fun f' hf => h.tail f' (by rwa [hst]), fun n hn => hl n (Option.some.inj hn)⟩

/-! ## One step -/

theorem Thread.Free.lock_ne {th : Thread} (h : th.Free) (n : BitVec 64) :
    th.stack.head? ≠ some (.lock n) := by
  rcases h with h | h <;> rw [h] <;> simp

section
variable {s : State ι} (hi : Inv s) {t : ι} {n : Nat}
include hi

/-- Dropping a shared handle: the last one makes `dispose ()` pending. -/
theorem Inv.decUse (hf : (s.threads t).Free) (hn : (s.threads t).shared = n + 1) :
    Inv ({ s with useCount := s.useCount - 1 }.set t
      ({ s.threads t with shared := n }.afterDecUse s.useCount)) := by
  have hle := shared_le s t
  have hok : ({ s.threads t with shared := n } : Thread).Ok :=
    ⟨(hi.threads t).tail, (hi.threads t).lock⟩
  have hc := hi.counts
  have huse := hc.use
  have hu := toNat_sub_one (x := s.useCount) (by omega)
  unfold Thread.afterDecUse
  by_cases hlast : s.useCount = 1
  · rw [if_pos hlast]
    rw [eq_one_iff] at hlast
    refine hi.set (hok.push hf nofun) fun S W r d k e hS hW hr hd hk he => ?_
    simp [Thread.push] at hS hW hr hd hk he
    obtain rfl : S = 0 := by omega
    obtain rfl : r = s.frames .release + 1 := by omega
    rw [show s.shared = 1 by omega, ← hW, ← hd, ← hk, ← he] at hc
    exact hu ▸ hc.dropLastShared
  · rw [if_neg hlast]
    rw [eq_one_iff] at hlast
    refine hi.setHandles hok (fun _ _ => rfl) fun S W hS hW => ?_
    obtain rfl := Nat.add_right_cancel hW
    change S + _ = _ + n at hS
    rw [show s.shared = S + 1 by omega] at hc
    exact hu ▸ hc.dropShared (by omega)

/-- Dropping a weak handle, or the weak reference of the shared ones: the last one makes
`destroy ()` pending. `th` is the thread without what it drops. -/
theorem Inv.decWeak {th : Thread} (hok : th.Ok) (hf : th.Free)
    (hshared : th.shared = (s.threads t).shared)
    (hframes : ∀ f, f ≠ .decWeak → th.stack.count f = (s.threads t).stack.count f)
    (hdrop : th.weak + th.stack.count .decWeak + 1 =
      (s.threads t).weak + (s.threads t).stack.count .decWeak)
    (hle : th.stack.count .decWeak ≤ (s.threads t).stack.count .decWeak) :
    Inv ({ s with weakCount := s.weakCount - 1 }.set t (th.afterDecWeak s.weakCount)) := by
  have hweak := weak_le s t
  have hframe := le_total (fun th : Thread => th.stack.count .decWeak) s.threads t
  change _ ≤ s.frames .decWeak at hframe
  have hc := hi.counts
  have hpos : 0 < s.weakCount.toNat := by
    have hwc := hc.weak
    omega
  have hw := toNat_sub_one hpos
  have hrelease := hframes .release nofun
  have hdisposing := hframes .disposing nofun
  have hdestroy := hframes .destroy nofun
  unfold Thread.afterDecWeak
  by_cases hlast : s.weakCount = 1
  · rw [if_pos hlast]
    rw [eq_one_iff] at hlast
    refine hi.set (hok.push hf nofun) fun S W r d k e hS hW hr hd hk he => ?_
    simp [Thread.push] at hS hW hr hd hk he
    obtain rfl : e = s.frames .destroy + 1 := by omega
    rw [show s.shared = S by omega, show s.frames .release = r by omega,
      show s.frames .disposing = d by omega] at hc
    have hc := hc.dropWeak W k (by omega) (by omega)
    rw [if_pos hlast] at hc
    exact hw ▸ hc
  · rw [if_neg hlast]
    rw [eq_one_iff] at hlast
    apply hi.set hok
    intro S W r d k e hS hW hr hd hk he
    rw [show s.shared = S by omega, show s.frames .release = r by omega,
      show s.frames .disposing = d by omega, show s.frames .destroy = e by omega] at hc
    have hc := hc.dropWeak W k (by omega) (by omega)
    rw [if_neg hlast] at hc
    exact hw ▸ hc

end

theorem Inv.give {s : State ι} (hi : Inv s) {t u : ι} {a b c d : Nat} (htu : t ≠ u)
    (hf : (s.threads t).Free) (hs : (s.threads t).shared = a + c)
    (hw : (s.threads t).weak = b + d) :
    Inv ((s.set t { s.threads t with shared := a, weak := b }).set u
      { s.threads u with shared := (s.threads u).shared + c, weak := (s.threads u).weak + d }) := by
  generalize hs' : State.set _ u _ = s'
  have htotal : ∀ w : Thread → Nat, total w s'.threads + w (s.threads t) + w (s.threads u) =
      total w s.threads + w { s.threads t with shared := a, weak := b } +
        w { s.threads u with
          shared := (s.threads u).shared + c, weak := (s.threads u).weak + d } := by
    intro w
    subst hs'
    exact total_update_two w s.threads htu _ _
  have hS : s'.shared = s.shared := by
    have := htotal Thread.shared
    simp only at this
    unfold State.shared
    omega
  have hW : s'.weak = s.weak := by
    have := htotal Thread.weak
    simp only at this
    unfold State.weak
    omega
  have hF : ∀ f, s'.frames f = s.frames f := by
    intro f
    have := htotal fun th => th.stack.count f
    simp only at this
    unfold State.frames
    omega
  have hc : s'.useCount = s.useCount ∧ s'.weakCount = s.weakCount ∧ s'.disposals = s.disposals ∧
      s'.disposed = s.disposed ∧ s'.destroys = s.destroys := by
    subst hs'; exact ⟨rfl, rfl, rfl, rfl, rfl⟩
  refine ⟨?_, ?_⟩
  · rw [hS, hW, hF, hF, hF, hF, hc.1, hc.2.1, hc.2.2.1, hc.2.2.2.1, hc.2.2.2.2]
    exact hi.counts
  · intro v
    subst hs'
    show (Function.update (Function.update s.threads t _) u _ v).Ok
    by_cases hv : v = u
    · subst hv
      rw [Function.update_self]
      exact ⟨(hi.threads v).tail, fun n hl =>
        Nat.lt_of_lt_of_le ((hi.threads v).lock n hl) (Nat.le_add_right _ _)⟩
    · rw [Function.update_of_ne hv]
      by_cases hvt : v = t
      · subst hvt
        rw [Function.update_self]
        exact ⟨(hi.threads v).tail, fun n hl => absurd hl (hf.lock_ne n)⟩
      · rw [Function.update_of_ne hvt]
        exact hi.threads v

theorem Inv.incWeak {s : State ι} (hi : Inv s) (hb : s.handles < 2 ^ 63) {t : ι}
    (hf : (s.threads t).Free) (hpos : 0 < (s.threads t).shared + (s.threads t).weak) :
    Inv ({ s with weakCount := s.weakCount + 1 }.set t
      { s.threads t with weak := (s.threads t).weak + 1 }) := by
  have hshared := shared_le s t
  have hweak := weak_le s t
  have hc := hi.counts
  have hwc := hc.weak
  have hle := hc.weak_le
  rw [handles_eq] at hb
  have hw := toNat_add_one (x := s.weakCount) (by omega)
  refine hi.setHandles ⟨(hi.threads t).tail, fun _ hl => absurd hl (hf.lock_ne _)⟩
    (fun _ _ => rfl) fun S W hS hW => ?_
  obtain rfl := Nat.add_right_cancel hS
  change W + _ = _ + (_ + 1) at hW
  obtain rfl : W = s.weak + 1 := by omega
  refine hw ▸ hc.addWeak ?_
  omega

theorem Inv.addShared {s : State ι} (hi : Inv s) (hb : s.handles < 2 ^ 63) {t : ι} {th : Thread}
    (hok : th.Ok) (hpos : 0 < s.shared) (hshared : th.shared = (s.threads t).shared + 1)
    (hweak : th.weak = (s.threads t).weak)
    (hframes : ∀ f, (∀ n, f ≠ .lock n) → th.stack.count f = (s.threads t).stack.count f) :
    Inv ({ s with useCount := s.useCount + 1 }.set t th) := by
  have hc := hi.counts
  have huse := hc.use
  rw [handles_eq] at hb
  have hu := toNat_add_one (x := s.useCount) (by omega)
  refine hi.setHandles hok hframes fun S W hS hW => ?_
  obtain rfl : S = s.shared + 1 := by omega
  obtain rfl : W = s.weak := by omega
  exact hu ▸ hc.addShared hpos

theorem Inv.lock {s : State ι} (hi : Inv s) {t : ι} {th : Thread} (hok : th.Ok)
    (hshared : th.shared = (s.threads t).shared) (hweak : th.weak = (s.threads t).weak)
    (hframes : ∀ f, (∀ n, f ≠ .lock n) → th.stack.count f = (s.threads t).stack.count f) :
    Inv (s.set t th) := by
  refine hi.setHandles hok hframes fun S W hS hW => ?_
  obtain rfl : S = s.shared := by omega
  obtain rfl : W = s.weak := by omega
  exact hi.counts

theorem Step.inv {s s' : State ι} {l : Label ι} (hi : Inv s) (hb : s.handles < 2 ^ 63)
    (hs : Step s l s') : Inv s' := by
  have hc := hi.counts
  have hth := hi.threads
  cases hs with
  | @incUse t n hf hn =>
    have hle := shared_le s t
    exact hi.addShared hb ⟨(hth t).tail, (hth t).lock⟩ (by omega) (by simp [hn]) rfl fun _ _ => rfl
  | decUse hf hn => exact hi.decUse hf hn
  | @incWeakShared t hf hpos => exact hi.incWeak hb hf (Nat.add_pos_left hpos _)
  | @incWeak t hf hpos => exact hi.incWeak hb hf (Nat.add_pos_right _ hpos)
  | @decWeak t n hf hn =>
    refine hi.decWeak ⟨(hth t).tail, fun _ hl => absurd hl (hf.lock_ne _)⟩ hf rfl (fun _ _ => rfl)
      ?_ (Nat.le_refl _)
    simp only [hn]
    omega
  | @lockLoad t hf hpos =>
    apply hi.lock ((hth t).push hf fun _ _ => hpos) rfl rfl
    intro f hf
    exact List.count_cons_of_ne (hf _).symm
  | @lockFail t rest hst =>
    apply hi.lock ((hth t).pop hst).1 rfl rfl
    intro f hf
    rw [hst, List.count_cons_of_ne (hf _).symm]
  | @lockSucceed t n rest hst hn he =>
    subst he
    have hpos : 0 < s.shared := by
      rw [← hc.use, Nat.pos_iff_ne_zero]
      exact fun h0 => hn (eq_zero_iff.2 h0)
    apply hi.addShared hb ((hth t).pop hst).1 hpos rfl rfl
    intro f hf
    rw [hst, List.count_cons_of_ne (hf _).symm]
  | @lockRetry t n rest hst hn =>
    refine hi.lock ((hth t).next hst fun _ _ => (hth t).lock n (by rw [hst]; rfl)) rfl rfl
      fun f hf => ?_
    rw [hst, List.count_cons_of_ne (hf _).symm, List.count_cons_of_ne (hf _).symm]
  | @dispose t rest hst =>
    refine hi.set ((hth t).next hst nofun) fun S W r d k e hS hW hr hd hk he => ?_
    simp [hst] at hS hW hr hd hk he
    obtain rfl : d = s.frames .disposing + 1 := by omega
    rw [← hS, ← hW, show s.frames .release = r + 1 by omega, ← hk, ← he] at hc
    exact hc.callDispose
  | @disposed t rest hst =>
    refine hi.set ((hth t).next hst nofun) fun S W r d k e hS hW hr hd hk he => ?_
    simp [hst] at hS hW hr hd hk he
    obtain rfl : k = s.frames .decWeak + 1 := by omega
    rw [← hS, ← hW, ← hr, show s.frames .disposing = d + 1 by omega, ← he] at hc
    exact hc.returnDispose
  | @decWeakLast t rest hst =>
    obtain ⟨hok, hfree⟩ := (hth t).pop hst (a := (s.threads t).shared) (b := (s.threads t).weak)
    refine hi.decWeak hok hfree rfl (fun f hf => ?_) ?_ ?_
    · rw [hst, List.count_cons_of_ne hf.symm]
    · simp only [hst, List.count_cons_self]
      omega
    · simp only [hst, List.count_cons_self]
      omega
  | @destroy t rest hst =>
    apply hi.set ((hth t).pop hst).1
    intro S W r d k e hS hW hr hd hk he
    simp [hst] at hS hW hr hd hk he
    rw [← hS, ← hW, ← hr, ← hd, ← hk, show s.frames .destroy = e + 1 by omega] at hc
    exact hc.callDestroy
  | give htu hf hs hw => exact hi.give htu hf hs hw

/-! ## What the invariant says of a step -/

/-- A use count of 0 stays, and no lock succeeds. -/
theorem Step.use_zero {s s' : State ι} {l : Label ι} (hi : Inv s) (hs : Step s l s')
    (h0 : s.useCount = 0) : s'.useCount = 0 ∧ ∀ t, l ≠ .lockSucceed t := by
  have hS : s.shared = 0 := by rw [← hi.counts.use, h0]; rfl
  have hnone : ∀ t, (s.threads t).shared = 0 := fun t =>
    Nat.eq_zero_of_le_zero (hS ▸ shared_le s t)
  cases hs with
  | incUse _ hn => rw [hnone] at hn; cases hn
  | decUse _ hn => rw [hnone] at hn; cases hn
  | lockSucceed _ hne he => exact absurd (he.symm.trans h0) hne
  | _ => exact ⟨h0, nofun⟩

omit [DecidableEq ι] in
/-- Once `destroy ()` has been called there is no handle and no call of the block's functions. -/
theorem Inv.destroyed {s : State ι} (hi : Inv s) (h : 0 < s.destroys) (t : ι) :
    (s.threads t).shared = 0 ∧ (s.threads t).weak = 0 ∧ (s.threads t).stack = [] := by
  have ⟨h1, h2, h3, h4, h5, h6⟩ := hi.counts
  have hs := shared_le s t
  have hw := weak_le s t
  refine ⟨by omega, by omega, ?_⟩
  cases hst : (s.threads t).stack with
  | nil => rfl
  | cons f rest =>
    have hf := frame_le s hst
    cases f with
    | release | disposing | decWeak | destroy => omega
    | lock n =>
      have := (hi.threads t).lock n (by rw [hst]; rfl)
      omega

theorem Step.destroyed {s s' : State ι} {l : Label ι} (hi : Inv s) (hs : Step s l s')
    (h : 0 < s.destroys) : l.touches = false := by
  have hgone := hi.destroyed h
  cases hs with
  | give | lockFail => rfl
  | incUse _ hn | decUse _ hn => rw [(hgone _).1] at hn; cases hn
  | incWeakShared _ hp => rw [(hgone _).1] at hp; cases hp
  | incWeak _ hp | lockLoad _ hp => rw [(hgone _).2.1] at hp; cases hp
  | decWeak _ hn => rw [(hgone _).2.1] at hn; cases hn
  | lockSucceed hst _ _ | lockRetry hst _ => rw [(hgone _).2.2] at hst; cases hst
  | dispose hst | disposed hst | decWeakLast hst | destroy hst =>
    rw [(hgone _).2.2] at hst; cases hst

/-! ## Runs -/

theorem Inv.init {s : State ι} (h : (system ι).init s) : Inv s ∧ s.handles < 2 ^ 63 := by
  obtain ⟨t, rfl⟩ := h
  have hzero : ∀ w : Thread → Nat, w ⟨0, 0, []⟩ = 0 → total w
      (Function.update (fun _ : ι => (⟨0, 0, []⟩ : Thread)) t ⟨1, 0, []⟩) = w ⟨1, 0, []⟩ := by
    intro w hw
    have h0 : total w (fun _ : ι => (⟨0, 0, []⟩ : Thread)) = 0 := total_eq_zero.2 fun _ => hw
    have := total_update w (fun _ : ι => (⟨0, 0, []⟩ : Thread)) t ⟨1, 0, []⟩
    omega
  have hS := hzero Thread.shared rfl
  have hW := hzero Thread.weak rfl
  have hF := fun f => hzero (fun th => th.stack.count f) rfl
  refine ⟨⟨?_, ?_⟩, ?_⟩
  · unfold State.shared State.weak State.frames
    rw [hS, hW, hF, hF, hF, hF]
    constructor <;> rfl
  · intro u
    show (Function.update (fun _ : ι => (⟨0, 0, []⟩ : Thread)) t ⟨1, 0, []⟩ u).Ok
    by_cases hu : u = t
    · subst hu; rw [Function.update_self]; exact ⟨nofun, nofun⟩
    · rw [Function.update_of_ne hu]; exact ⟨nofun, nofun⟩
  · rw [handles_eq]
    unfold State.shared State.weak
    rw [hS, hW]
    decide

variable {s s' : State ι} {ls : List (Label ι)}

theorem system_step {l : Label ι} (h : Inv s ∧ s.handles < 2 ^ 63) (hs : (system ι).step s l s') :
    Inv s' ∧ s'.handles < 2 ^ 63 := ⟨hs.1.inv h.1 h.2, hs.2⟩

theorem system_inv (h : Exec (system ι) ls s) : Inv s ∧ s.handles < 2 ^ 63 :=
  h.invariant (I := fun s => Inv s ∧ s.handles < 2 ^ 63) (fun _ => Inv.init)
    fun _ _ _ hi hs => system_step hi hs

/-- Once the use count is 0 it stays 0, and no lock succeeds. -/
theorem use_zero_stays (hi : Inv s ∧ s.handles < 2 ^ 63) (h0 : s.useCount = 0)
    (h : Run (system ι) s ls s') : s'.useCount = 0 ∧ ∀ t, Label.lockSucceed t ∉ ls := by
  suffices hall : (Inv s' ∧ s'.handles < 2 ^ 63) ∧ s'.useCount = 0 ∧
      ∀ t, Label.lockSucceed t ∉ ls from
    hall.2
  induction h with
  | nil => exact ⟨hi, h0, fun _ => List.not_mem_nil⟩
  | snoc _ hs ih =>
    obtain ⟨hinv, hzero, hnone⟩ := ih
    obtain ⟨hzero', hne⟩ := hs.1.use_zero hinv.1 hzero
    refine ⟨system_step hinv hs, hzero', fun t hm => ?_⟩
    rcases List.mem_append.1 hm with hm | hm
    · exact hnone t hm
    · exact hne t (List.mem_singleton.1 hm).symm

/-- **The control block protocol.** `dispose ()` is called at most once, and only when no shared
handle is left; a use count of 0 is final and no lock succeeds after it; `destroy ()` is called
at most once, and only after `dispose ()` has returned; no step accesses the block after it; and
when every handle has been dropped and every call has returned, both have been called. -/
theorem protocol (h : Exec (system ι) ls s) :
    (s.disposals ≤ 1 ∧ (0 < s.disposals → ∀ t, (s.threads t).shared = 0)) ∧
      (s.useCount = 0 → ∀ ls' s', Run (system ι) s ls' s' →
        s'.useCount = 0 ∧ ∀ t, Label.lockSucceed t ∉ ls') ∧
      (s.destroys ≤ 1 ∧ (0 < s.destroys → s.disposed = 1)) ∧
      (0 < s.destroys → ∀ l s', Step s l s' → l.touches = false) ∧
      ((∀ t, s.threads t = ⟨0, 0, []⟩) → s.disposals = 1 ∧ s.disposed = 1 ∧ s.destroys = 1) := by
  have hi := system_inv h
  have ⟨h1, h2, h3, h4, h5, h6⟩ := hi.1.counts
  refine ⟨⟨by omega, fun hd t => ?_⟩, fun h0 ls' s' hr => use_zero_stays hi h0 hr,
    ⟨by omega, fun _ => by omega⟩, fun hd l s' hs => hs.destroyed hi.1 hd, fun hall => ?_⟩
  · have := shared_le s t
    omega
  · have hS : s.shared = 0 := total_eq_zero.2 fun t => by rw [hall t]
    have hW : s.weak = 0 := total_eq_zero.2 fun t => by rw [hall t]
    have hF : ∀ f, s.frames f = 0 := fun f => total_eq_zero.2 fun t => by rw [hall t]; rfl
    have hr := hF .release
    have hd := hF .disposing
    have hk := hF .decWeak
    have he := hF .destroy
    omega

/-- A block whose one handle is dropped: `dispose ()` and `destroy ()` are called once each. -/
theorem protocol_drop : ∃ (ls : List (Label Bool)) (s : State Bool), Exec (system Bool) ls s ∧
    ls.length = 5 ∧ s.disposals = 1 ∧ s.disposed = 1 ∧ s.destroys = 1 := by
  have h0 : Exec (system Bool) []
      ⟨1, 1, Function.update (fun _ => ⟨0, 0, []⟩) false ⟨1, 0, []⟩, 0, 0, 0⟩ := .init ⟨false, rfl⟩
  have h1 := h0.snoc ⟨.decUse (t := false) (n := 0) (.inl rfl) rfl, by decide⟩
  have h2 := h1.snoc ⟨.dispose (t := false) rfl, by decide⟩
  have h3 := h2.snoc ⟨.disposed (t := false) rfl, by decide⟩
  have h4 := h3.snoc ⟨.decWeakLast (t := false) rfl, by decide⟩
  have h5 := h4.snoc ⟨.destroy (t := false) rfl, by decide⟩
  exact ⟨_, _, h5, rfl, (protocol h5).2.2.2.2 (by intro t; cases t <;> rfl)⟩

end ControlBlock
