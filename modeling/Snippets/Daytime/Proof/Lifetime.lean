import Snippets.Daytime.Model
import Snippets.Lib.Lts

/-!
# Lifetimes in the coroutine daytime server

The use count of a connection is what the loop's `conn` and the function object of its coroutine
contribute (`Inv.count`). With `self` a pending coroutine contributes, so that no connection is
destroyed under it and no write is aborted (`self_lifetime`). With `this` only `conn` does, and it
is gone at the end of the iteration that started the coroutine, before the coroutine can resume.
-/

namespace Daytime

open Lts Asio

variable {capture : Capture} {ctime : Int → List Char} {s s' : State} {l : Label}
  {ls : List Label} {xs : List State} {k j : Nat} {c : Coroutine}

/-! ## Coroutines -/

/-- The pointers that the function object of a coroutine holds. -/
def Coroutine.pointers (capture : Capture) : Coroutine → Nat
  | .unspawned | .returned .. => 0
  | _ => capture.pointers

theorem Coroutine.Pending.pointers (h : c.Pending) : c.pointers capture = capture.pointers := by
  cases c with
  | unspawned | returned => exact h.elim
  | spawned | writing | wrote => rfl

theorem Coroutine.cancel_pending (c : Coroutine) : c.cancel.Pending = c.Pending := by
  cases c <;> rfl

theorem Coroutine.cancel_pointers (c : Coroutine) :
    c.cancel.pointers capture = c.pointers capture := by
  cases c <;> rfl

theorem Coroutine.cancel_of_not_pending (h : ¬c.Pending) : c.cancel = c := by
  cases c with
  | writing => exact absurd trivial h
  | unspawned | spawned | wrote | returned => rfl

/-- No write was aborted, and a coroutine that returned without an error has written all. -/
def Coroutine.Intact : Coroutine → Prop
  | .wrote _ _ error => error ≠ some .aborted
  | .returned msg sent error => error ≠ some .aborted ∧ (error = none → sent = msg)
  | _ => True

theorem Coroutine.Intact.complete (h : c.Intact) : c.Complete := by
  cases c with
  | unspawned | spawned | writing | wrote => trivial
  | returned msg sent error =>
    intro he
    cases error with
    | none => exact h.2 rfl
    | some e => exact absurd (congrArg some (he e rfl)) h.1

/-! ## Operations on the state -/

@[simp] theorem setCoroutine_self : (s.setCoroutine k c).coroutine k = c :=
  Function.update_self ..

theorem setCoroutine_of_ne (h : j ≠ k) : (s.setCoroutine k c).coroutine j = s.coroutine j :=
  Function.update_of_ne h ..

@[simp] theorem release_owners_self {n : Nat} : (s.release k n).owners k = s.owners k - n :=
  Function.update_self ..

theorem release_owners_of_ne {n : Nat} (h : j ≠ k) : (s.release k n).owners j = s.owners j :=
  Function.update_of_ne h ..

theorem release_of_ne {n : Nat} (h : j ≠ k) : (s.release k n).coroutine j = s.coroutine j := by
  simp only [State.release]
  split
  · exact Function.update_of_ne h ..
  · rfl

/-- The last owner's release cancels the write. -/
theorem release_self {n : Nat} : (s.release k n).coroutine k = s.coroutine k ∨
    (s.release k n).coroutine k = (s.coroutine k).cancel := by
  simp only [State.release]
  split
  · exact .inr (Function.update_self ..)
  · exact .inl rfl

/-- What a cancelled write does not change, a release does not change. -/
theorem release_congr {α : Sort*} {f : Coroutine → α} (hf : ∀ c, f c.cancel = f c) {n : Nat} :
    f ((s.release k n).coroutine j) = f (s.coroutine j) := by
  by_cases hj : j = k
  · subst hj
    rcases release_self (s := s) (k := j) (n := n) with h | h
    · rw [h]
    · rw [h, hf]
  · rw [release_of_ne hj]

theorem release_of_not_pending {n : Nat} (h : ¬(s.coroutine k).Pending) :
    (s.release k n).coroutine j = s.coroutine j := by
  by_cases hj : j = k
  · subst hj
    rcases release_self (s := s) (k := j) (n := n) with hr | hr
    · exact hr
    · rw [hr, Coroutine.cancel_of_not_pending h]
  · exact release_of_ne hj

/-- The function object goes after its coroutine has returned. -/
theorem ret_coroutine {msg sent : List Char} {error : Option Error} :
    (s.ret capture k msg sent error).coroutine j =
      (s.setCoroutine k (.returned msg sent error)).coroutine j :=
  release_of_not_pending (by rw [setCoroutine_self]; exact id)

/-! ## The invariant -/

/-- Whether the loop's `conn` is the connection `k`. -/
def State.locals (s : State) (k : Nat) : Nat :=
  if k = s.iteration ∧ s.loop ≠ .ended then 1 else 0

/-- The coroutine of the loop's iteration is spawned by `start`. -/
def Loop.Turn : Loop → Coroutine → Prop
  | .accepting, c | .accepted _, c => c = .unspawned
  | .ending, c => c.Pending
  | .ended, _ => True

/-- The use count of a connection is that of the pointers in the iteration and in the coroutine, and
there is no coroutine before its iteration. -/
structure Inv (capture : Capture) (s : State) : Prop where
  count : ∀ k, s.owners k = s.locals k + (s.coroutine k).pointers capture
  fresh : ∀ k, s.iteration < k → s.coroutine k = .unspawned
  turn : s.loop.Turn (s.coroutine s.iteration)

theorem Inv.init (h : (server capture ctime).init s) : Inv capture s := by
  obtain ⟨hi, hl, ho, hc⟩ := h
  refine ⟨fun k => ?_, fun k _ => by rw [hc], by rw [hl, hc]; rfl⟩
  rw [ho, hc]
  by_cases hk : k = 0 <;> simp [hk, State.locals, hi, hl, Coroutine.pointers]

theorem Loop.Turn.of_pending {loop : Loop} (h : loop.Turn c) (hc : c.Pending) :
    loop = .ending ∨ loop = .ended := by
  cases loop with
  | accepting | accepted =>
    rw [show c = .unspawned from h] at hc
    exact hc.elim
  | ending => exact .inl rfl
  | ended => exact .inr rfl

theorem Inv.le_iteration (hi : Inv capture s) (h : (s.coroutine k).Pending) :
    k ≤ s.iteration := by
  by_contra hk
  rw [hi.fresh k (Nat.lt_of_not_le hk)] at h
  exact h

theorem Inv.unspawned {error : Option Error} (hi : Inv capture s) (hl : s.loop = .accepted error) :
    s.coroutine s.iteration = .unspawned := by
  have hturn := hi.turn
  rwa [hl] at hturn

theorem Inv.setCoroutine (hi : Inv capture s) (h : (s.coroutine k).Pending) (hc : c.Pending) :
    Inv capture (s.setCoroutine k c) := by
  refine ⟨fun j => ?_, fun j hj => ?_, ?_⟩
  · by_cases hjk : j = k
    · subst hjk
      rw [setCoroutine_self, hc.pointers, ← h.pointers]
      exact hi.count j
    · rw [setCoroutine_of_ne hjk]
      exact hi.count j
  · have hk := hi.le_iteration h
    rw [setCoroutine_of_ne (Nat.ne_of_gt (Nat.lt_of_le_of_lt hk hj))]
    exact hi.fresh j hj
  · change s.loop.Turn ((s.setCoroutine k c).coroutine s.iteration)
    by_cases hk : s.iteration = k
    · subst hk
      rw [setCoroutine_self]
      rcases hi.turn.of_pending h with hl | hl
      · rw [hl]
        exact hc
      · rw [hl]
        trivial
    · rw [setCoroutine_of_ne hk]
      exact hi.turn

theorem Inv.start (hi : Inv capture s) (hl : s.loop = .accepted none) :
    Inv capture { s.start capture with loop := .ending } := by
  refine ⟨fun j => ?_, fun j hj => ?_, ?_⟩
  · have hcount := hi.count j
    by_cases hj : j = s.iteration
    · subst hj
      rw [hi.unspawned hl] at hcount
      simp [State.locals, hl, Coroutine.pointers] at hcount
      simp [State.start, State.acquire, State.setCoroutine, State.locals, Coroutine.pointers,
        hcount]
    · simpa [State.start, State.acquire, State.setCoroutine, State.locals, hj] using hcount
  · have hne : j ≠ s.iteration := Nat.ne_of_gt hj
    simpa [State.start, State.acquire, State.setCoroutine, hne] using hi.fresh j hj
  · simp [State.start, State.acquire, State.setCoroutine, Loop.Turn, Coroutine.Pending]

theorem Inv.throw {e : Error} (hi : Inv capture s) (hl : s.loop = .accepted (some e)) :
    Inv capture { s.release s.iteration 1 with loop := .ended } := by
  refine ⟨fun j => ?_, fun j hj => ?_, trivial⟩
  · have hcount := hi.count j
    change (s.release s.iteration 1).owners j = State.locals _ j +
      ((s.release s.iteration 1).coroutine j).pointers capture
    rw [release_congr Coroutine.cancel_pointers]
    by_cases hj : j = s.iteration
    · subst hj
      simp [State.locals, hl] at hcount
      simp [State.locals, hcount]
    · rw [release_owners_of_ne hj, hcount]
      simp [State.locals, hj]
  · exact (release_of_ne (Nat.ne_of_gt hj)).trans (hi.fresh j hj)

theorem Inv.next (hi : Inv capture s) (hl : s.loop = .ending) : Inv capture s.next := by
  refine ⟨fun j => ?_, fun j hj => ?_, ?_⟩
  · have hcount := hi.count j
    change Function.update (s.release s.iteration 1).owners (s.iteration + 1) 1 j =
      State.locals _ j + ((s.release s.iteration 1).coroutine j).pointers capture
    rw [release_congr Coroutine.cancel_pointers]
    by_cases hnew : j = s.iteration + 1
    · subst hnew
      rw [hi.fresh _ (Nat.lt_succ_self _)]
      simp [State.locals, State.next, State.make, Coroutine.pointers]
    · rw [Function.update_of_ne hnew]
      by_cases hj : j = s.iteration
      · subst hj
        simp [State.locals, hl] at hcount
        simp [State.locals, State.next, State.make, hcount]
      · rw [release_owners_of_ne hj, hcount]
        simp [State.locals, State.next, State.make, hj, hnew]
  · have hlt : s.iteration < j := Nat.lt_of_succ_lt hj
    exact (release_of_ne (Nat.ne_of_gt hlt)).trans (hi.fresh j hlt)
  · have hne : s.iteration + 1 ≠ s.iteration := Nat.succ_ne_self _
    exact (release_of_ne hne).trans (hi.fresh _ (Nat.lt_succ_self _))

theorem Inv.ret {msg sent : List Char} {error : Option Error} (hi : Inv capture s)
    (h : (s.coroutine k).Pending) (hl : s.loop ≠ .ending) :
    Inv capture (s.ret capture k msg sent error) := by
  refine ⟨fun j => ?_, fun j hj => ?_, ?_⟩
  · have hcount := hi.count j
    rw [ret_coroutine]
    by_cases hj : j = k
    · subst hj
      rw [h.pointers] at hcount
      rw [setCoroutine_self]
      exact release_owners_self.trans (Nat.sub_eq_of_eq_add hcount)
    · rw [setCoroutine_of_ne hj]
      exact (release_owners_of_ne hj).trans hcount
  · have hk := hi.le_iteration h
    rw [ret_coroutine, setCoroutine_of_ne (Nat.ne_of_gt (Nat.lt_of_le_of_lt hk hj))]
    exact hi.fresh j hj
  · change s.loop.Turn ((s.ret capture k msg sent error).coroutine s.iteration)
    by_cases hk : s.iteration = k
    · subst hk
      rw [(hi.turn.of_pending h).resolve_left hl]
      trivial
    · rw [ret_coroutine, setCoroutine_of_ne hk]
      exact hi.turn

theorem Inv.step (hi : Inv capture s) (hs : Step capture ctime s l s') : Inv capture s' := by
  cases hs with
  | accept hl =>
    have hturn := hi.turn
    rw [hl] at hturn
    refine ⟨fun k => ?_, hi.fresh, hturn⟩
    simpa [State.locals, hl] using hi.count k
  | start hl => exact hi.start hl
  | throw hl => exact hi.throw hl
  | next hl => exact hi.next hl
  | begin hc => exact hi.setCoroutine (by rw [hc]; trivial) trivial
  | write hc => exact hi.setCoroutine (by rw [hc]; trivial) trivial
  | fail hc => exact hi.setCoroutine (by rw [hc]; trivial) trivial
  | more hc => exact hi.setCoroutine (by rw [hc]; trivial) trivial
  | ret hc _ hl => exact hi.ret (by rw [hc]; trivial) hl

theorem server_inv (h : Exec (server capture ctime) ls s) : Inv capture s :=
  h.invariant (fun _ => .init) fun _ _ _ => .step

/-! ## Coroutines that own their connection -/

theorem Inv.owned (hi : Inv .self s) : s.Owned := by
  intro k hk
  have hcount := hi.count k
  rw [hk.pointers] at hcount
  exact Nat.lt_of_lt_of_eq (Nat.lt_add_left _ Nat.one_pos) hcount.symm

theorem intact_step (hi : Inv .self s) (h : ∀ k, (s.coroutine k).Intact)
    (hs : Step .self ctime s l s') (j : Nat) : (s'.coroutine j).Intact := by
  have hset : ∀ {k c}, c.Intact → ((s.setCoroutine k c).coroutine j).Intact := by
    intro k c hc
    by_cases hj : j = k
    · subst hj
      rwa [setCoroutine_self]
    · rw [setCoroutine_of_ne hj]
      exact h j
  cases hs with
  | accept => exact h j
  | start => exact hset (k := s.iteration) (c := .spawned) trivial
  | throw hl =>
    change ((s.release s.iteration 1).coroutine j).Intact
    rw [release_of_not_pending (by rw [hi.unspawned hl]; exact id)]
    exact h j
  | next hl =>
    -- The coroutine that was started keeps the connection.
    have hcount := hi.count s.iteration
    have hturn := hi.turn
    rw [hl] at hturn
    rw [Coroutine.Pending.pointers hturn] at hcount
    have htwo : ¬s.owners s.iteration ≤ 1 := by
      simp [State.locals, hl, Capture.pointers] at hcount
      omega
    simpa [State.next, State.make, State.release, htwo] using h j
  | begin | more => exact hset trivial
  | write => exact hset nofun
  | fail _ he => exact hset fun h => he (Option.some.inj h)
  | @ret k msg sent error hc hall =>
    have hk := h k
    rw [hc] at hk
    rw [ret_coroutine]
    exact hset ⟨hk, hall⟩

/-- With `self = shared_from_this ()` connections outlast their coroutines, and every client that
does not fail is sent all of the string. -/
theorem self_lifetime (h : Exec (server .self ctime) ls s) : s.Owned ∧ s.Complete := by
  have hintact : ∀ k, (s.coroutine k).Intact := by
    refine h.trace_invariant (I := fun _ s => ∀ k, (s.coroutine k).Intact) (fun s h0 k => ?_)
      fun ls s l s' h hk hs => intact_step (server_inv h) hk hs
    rw [h0.2.2.2]
    trivial
  exact ⟨(server_inv h).owned, fun k => (hintact k).complete⟩

/-! ## Coroutines that do not -/

/-- The only coroutine so far was started in this iteration. -/
def State.Starting (s : State) : Prop :=
  ∀ k, s.coroutine k = .unspawned ∨
    s.loop = .ending ∧ k = s.iteration ∧ (s.coroutine k).Pending

theorem State.Starting.setCoroutine (hi : s.Starting) (h : (s.coroutine k).Pending)
    (hc : c.Pending) : (s.setCoroutine k c).Starting := by
  intro j
  by_cases hj : j = k
  · subst hj
    obtain hn | ⟨hl, hj, -⟩ := hi j
    · rw [hn] at h
      exact h.elim
    · exact .inr ⟨hl, hj, by rwa [setCoroutine_self]⟩
  · rcases hi j with hn | ⟨hl, hji, hp⟩
    · exact .inl ((setCoroutine_of_ne hj).trans hn)
    · exact .inr ⟨hl, hji, by rwa [setCoroutine_of_ne hj]⟩

theorem State.Starting.unspawned (hi : s.Starting) (hl : s.loop ≠ .ending) (k : Nat) :
    s.coroutine k = .unspawned :=
  (hi k).resolve_right fun h => hl h.1

theorem State.Starting.step (hi : s.Starting) (hs : Step capture ctime s l s')
    (hnext : l ≠ .next) : s'.Starting := by
  cases hs with
  | accept hl => exact fun k => .inl (hi.unspawned (by rw [hl]; nofun) k)
  | start hl =>
    intro j
    by_cases hj : j = s.iteration
    · subst hj
      exact .inr ⟨rfl, rfl, by simp [State.start, State.setCoroutine, Coroutine.Pending]⟩
    · exact .inl ((setCoroutine_of_ne hj).trans (hi.unspawned (by rw [hl]; nofun) j))
  | throw hl =>
    have hnone := hi.unspawned (by rw [hl]; nofun)
    refine fun j => .inl ?_
    exact (release_of_not_pending (by rw [hnone]; exact id)).trans (hnone j)
  | next => exact absurd rfl hnext
  | begin hc => exact hi.setCoroutine (by rw [hc]; trivial) trivial
  | write hc => exact hi.setCoroutine (by rw [hc]; trivial) trivial
  | fail hc => exact hi.setCoroutine (by rw [hc]; trivial) trivial
  | more hc _ _ hl =>
    rw [hi.unspawned hl] at hc
    cases hc
  | ret hc _ hl =>
    rw [hi.unspawned hl] at hc
    cases hc

/-- Up to the end of the iteration `conn` is an owner. -/
theorem State.Starting.lifetime (hi : s.Starting) (hinv : Inv capture s) :
    s.Owned ∧ s.Complete := by
  refine ⟨fun k hk => ?_, fun k => ?_⟩
  · obtain hn | ⟨hl, rfl, -⟩ := hi k
    · rw [hn] at hk
      exact hk.elim
    · rw [hinv.count, State.locals, if_pos ⟨rfl, by rw [hl]; nofun⟩]
      omega
  · obtain hn | ⟨-, -, hp⟩ := hi k
    · rw [hn]
      trivial
    · cases hc : s.coroutine k with
      | returned => rw [hc] at hp; exact hp.elim
      | unspawned | spawned | writing | wrote => trivial

/-- Then its coroutine is left without a connection. -/
theorem Inv.not_owned_next (hi : Inv .this s) (hl : s.loop = .ending) : ¬s.next.Owned := by
  intro howned
  have hturn := hi.turn
  rw [hl] at hturn
  have hpos := howned s.iteration ((release_congr Coroutine.cancel_pending).mpr hturn)
  rw [(hi.next hl).count, State.locals, if_neg fun h => Nat.succ_ne_self _ h.1.symm] at hpos
  cases hc : s.next.coroutine s.iteration <;> rw [hc] at hpos <;> cases hpos

/-! ## A client that is cut off -/

/-- The server at its first `async_accept`. -/
def State.first : State :=
  ⟨0, .accepting, Function.update (fun _ => 0) 0 1, fun _ => .unspawned⟩

theorem init_first : (server capture ctime).init .first := ⟨rfl, rfl, rfl, rfl⟩

/-- A run of one iteration, in which the coroutine began at the clock reading `now`. -/
theorem exists_iteration (ctime : Int → List Char) (now : Int) :
    ∃ xs s, Visits (server .this ctime) .first [.accept none, .start, .begin 0 now] xs s ∧
      s.iteration = 0 ∧ s.loop = .ending ∧ s.coroutine 0 = .writing (ctime now) [] := by
  have h1 : Step .this ctime .first (.accept none) _ := .accept rfl
  have h2 : Step .this ctime _ .start _ := .start (s := { State.first with loop := .accepted none })
    rfl
  have h3 : Step .this ctime _ (.begin 0 now) _ := .begin (k := 0)
    (s := { ({ State.first with loop := .accepted none } : State).start .this with
      loop := .ending }) rfl (by decide) fun _ => rfl
  exact ⟨_, _, (((Visits.nil _).snoc h1).snoc h2).snoc h3, rfl, rfl, setCoroutine_self⟩

/-- Nothing is written before the iteration ends: the write is aborted. -/
theorem exists_cut_off (now : Int) (h : ctime now ≠ []) :
    ∃ ls s s', Exec (server .this ctime) ls s ∧ ¬s.Owned ∧
      Step .this ctime s (.resume 0) s' ∧ ¬s'.Complete := by
  obtain ⟨xs, s, hv, hiter, hl, hc⟩ := exists_iteration ctime now
  have hexec := (Exec.init init_first).append hv.run
  have hi : Inv .this s := server_inv hexec
  have howners : s.owners 0 ≤ 1 := by
    rw [hi.count, hc]
    change State.locals s 0 + 0 ≤ 1
    rw [State.locals]
    split <;> decide
  have haborted : s.next.coroutine 0 = .wrote (ctime now) [] (some .aborted) := by
    simp [State.next, State.make, State.release, hiter, howners, hc, Coroutine.cancel]
  have hs : Step .this ctime s .next s.next := .next hl
  refine ⟨_, s.next, _, hexec.snoc hs, hi.not_owned_next hl, .ret haborted nofun nofun, ?_⟩
  intro hcomplete
  have hk := hcomplete 0
  rw [ret_coroutine, setCoroutine_self] at hk
  exact h (hk fun e he => (Option.some.inj he).symm).symm

/-! ## The result -/

/-- **How long `co.cc` keeps a connection alive.** All along a run connections are owned while
their coroutines are pending, and clients that do not fail are sent all of the string, if and only
if no iteration that started a coroutine has come to its end. -/
theorem lifetime_iff (h0 : (server .this ctime).init s)
    (h : Visits (server .this ctime) s ls xs s') :
    (∀ x ∈ xs, x.Owned ∧ x.Complete) ↔ .next ∉ ls := by
  have hinv := h.invariant (I := Inv .this) (fun _ _ _ => .step) (.init h0)
  constructor
  · intro hall hnext
    obtain ⟨x, hx, x', hx', hs⟩ := h.exists_step hnext
    cases hs with
    | next hl => exact (hinv x hx).not_owned_next hl (hall _ hx').1
  · intro hnext x hx
    have hrun := h.restrict (P := fun l => l ≠ .next) fun l hl => ne_of_mem_of_not_mem hl hnext
    have hstart : s.Starting := fun k => .inl (by rw [h0.2.2.2])
    have hstarting := hrun.invariant (I := State.Starting)
      (fun s l s' hi (hs : Step .this ctime s l s' ∧ l ≠ .next) => hi.step hs.1 hs.2) hstart x hx
    exact hstarting.lifetime (hinv x hx)

theorem lifetime_iff_once : ∃ xs s ys s',
    Visits (server .this fun _ => "Thu Jan  1 00:00:00 1970\n".toList) .first
      [.accept none, .start, .begin 0 0] xs s ∧ (∀ x ∈ xs, x.Owned ∧ x.Complete) ∧
    Visits (server .this fun _ => "Thu Jan  1 00:00:00 1970\n".toList) .first
      [.accept none, .start, .begin 0 0, .next] ys s' ∧ ¬∀ x ∈ ys, x.Owned ∧ x.Complete := by
  obtain ⟨xs, s, hv, -, hl, -⟩ :=
    exists_iteration (fun _ => "Thu Jan  1 00:00:00 1970\n".toList) 0
  have hv' := hv.snoc (show Step .this _ s .next s.next from .next hl)
  refine ⟨xs, s, _, s.next, hv, (lifetime_iff init_first hv).2 (by decide), hv', fun h => ?_⟩
  exact (lifetime_iff init_first hv').1 h (by decide)

/-- A client whose socket takes nothing at once is sent nothing: its connection is gone before the
write is done. -/
theorem connection_gone : ∃ ls s s',
    Exec (server .this fun _ => "Thu Jan  1 00:00:00 1970\n".toList) ls s ∧ ¬s.Owned ∧
    Step .this (fun _ => "Thu Jan  1 00:00:00 1970\n".toList) s (.resume 0) s' ∧ ¬s'.Complete :=
  exists_cut_off 0 (by decide)

end Daytime
