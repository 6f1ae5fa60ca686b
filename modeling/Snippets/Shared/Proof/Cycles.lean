import Snippets.Shared.Heap
import Snippets.Shared.Proof.Null
import Snippets.Shared.Proof.Ownership

/-!
# What reference counting frees

Objects may own each other in cycles. The calls on the stack still run to their end (`run_total`),
and the objects left are those that a root or a cycle leads to: each object left is owned by one of
them or held by a root (`Graph.kept_of_pred`), and no such object loses its last `shared_ptr`
(`Releasing.kept_step`). Every operation keeps the heap in order (`Heap.does`), so this holds in
every run (`heap_frees`).
-/

namespace SharedPtr

open Lts

variable {ι τ P D : Type*} {s s' s₁ : State ι τ P D} {a b : Nat}
  {h k : ι} {B : Block τ P D} {cast : τ → τ → P → P} {members : P → List ι} {op : Op ι τ P D}
  {rest : List (Frame ι)}

/-! ## Handles that stay -/

theorem Releasing.on (hr : Releasing members s₁ s) (hon : On s₁ h b)
    (hheld : ∀ a, Member members s₁ a h → s.released a = 0) : On s h b := by
  obtain ⟨x, hx, hxb⟩ := hon
  cases hy : s.handles h with
  | none =>
    obtain ⟨a, hm, hpos⟩ := hr.gone h (by simp [hx]) hy
    have hzero := hheld a hm
    omega
  | some y =>
    obtain rfl : x = y := Option.some.inj (hx.symm.trans (hr.sub h y hy))
    exact ⟨x, hy, hxb⟩

/-- What is kept has a `shared_ptr` until the end. -/
theorem Releasing.kept_on (ho : Objects members s₁) (hr : Releasing members s₁ s)
    (hkept : ∀ b, Kept members s₁ b → s.released b = 0) (hb : Kept members s₁ b) :
    ∃ h, On s h b := by
  rcases Graph.Kept.pred hb with ⟨h, hon, hroot⟩ | ⟨a, ha, h, hm, hon⟩
  · exact ⟨h, hr.on hon fun c hc => absurd hc (hroot c)⟩
  · refine ⟨h, hr.on hon fun c hc => ?_⟩
    rw [ho.disjoint c a h hc hm]
    exact hkept a ha

theorem Op.Orderly.adopts {p : P} (ho : op.Orderly members s) (hp : op.passes = some (some p)) :
    (members p).Nodup ∧ (∀ h, op ≠ .destroy h) ∧
      ∀ h ∈ members p, (s.handles h).isSome ∧ ∀ a, ¬Member members s a h := by
  cases op with
  | construct h kind type src | assign h src =>
    cases src with
    | adopt type p' d =>
      obtain rfl : p' = some p := Option.some.inj hp
      exact ⟨ho.1, by simp, ho.2⟩
    | null | copy other | move other | lock other => cases hp
  | swap | destroy => cases hp

variable [DecidableEq ι]

theorem step_released (he : s.step members = some s') : (∀ c, s'.released c = s.released c) ∨
    ∃ b rest, s.stack = .dispose b :: rest ∧ ∀ c, c ≠ b → s'.released c = s.released c := by
  cases step_spec he with
  | decUse | decWeak | destroy | destruct => exact .inl fun _ => rfl
  | @dispose b B rest hs =>
    refine .inr ⟨b, rest, hs, fun c hc => ?_⟩
    simp [State.released, State.push, State.dispose, State.pop, Ne.symm hc]

theorem run_mono {n m : Nat} (hrun : s.run members n = some s') (hle : n ≤ m) :
    s.run members m = some s' := by
  induction n generalizing s m with
  | zero =>
    obtain ⟨he, -⟩ := Option.ite_none_right_eq_some.1 hrun
    cases m <;> simpa [State.run, he] using hrun
  | succ n ih =>
    obtain ⟨m, rfl⟩ : ∃ k, m = k + 1 := ⟨m - 1, by omega⟩
    cases he : s.stack.isEmpty with
    | true => simpa [State.run, he] using hrun
    | false =>
      simp only [State.run, he] at hrun ⊢
      obtain ⟨s₁, h₁, hrun⟩ := Option.bind_eq_some_iff.1 hrun
      exact Option.bind_eq_some_iff.2 ⟨s₁, h₁, ih hrun (by omega)⟩

theorem set_live (v : Handle τ P) (hk : (s.handles k).isSome) :
    ((s.set h (some v)).handles k).isSome := by
  by_cases hkh : k = h
  · simp [State.set, hkh]
  · simpa [State.set, hkh] using hk

variable [Fintype ι]

/-! ## One release -/

theorem Inv.alive_of_on (hi : Inv cast s) (ho : On s h b) : Alive s b := by
  obtain ⟨x, hx, hk, hb⟩ := ho
  obtain ⟨B, hB, -⟩ := hi.block_of_handle hx hb
  have hpos : 0 < s.count .shared b := hk ▸ refers_self hx hb
  have hok := hi.counts b
  rw [hB] at hok
  cases hok with
  | present _ hshared =>
    have hzero := (hshared (by simp only [State.tally]; omega)).2
    simp only [State.tally] at hzero
    exact ⟨⟨B, hB⟩, by omega⟩

/-- No `shared_ptr` is left when the deleter is about to be called. -/
theorem Inv.not_on (hi : Inv cast s) (hs : s.stack = .dispose b :: rest) (h : ι) : ¬On s h b := by
  rintro ⟨x, hx, hk, hb⟩
  obtain ⟨B, hB, -⟩ := hi.block_of_handle hx hb
  have hpos : 0 < s.count .shared b := hk ▸ refers_self hx hb
  have hok := hi.counts b
  rw [hB] at hok
  cases hok with
  | present _ hshared =>
    have hzero := (hshared (by simp only [State.tally]; omega)).2
    simp [State.tally, hs] at hzero

theorem Releasing.kept_step (hi : Inv cast s) (ho : Objects members s₁)
    (hr : Releasing members s₁ s) (hkept : ∀ b, Kept members s₁ b → s.released b = 0)
    (he : s.step members = some s') (hb : Kept members s₁ b) : s'.released b = 0 := by
  rcases step_released he with hsame | ⟨c, rest, hs, hother⟩
  · rw [hsame]
    exact hkept b hb
  · by_cases hbc : b = c
    · obtain ⟨h, hon⟩ := hr.kept_on ho hkept hb
      exact absurd (hbc ▸ hon) (hi.not_on hs h)
    · rw [hother b hbc]
      exact hkept b hb

/-- An object left in the end was held by a root, or is owned by one that is left. -/
theorem Releasing.pred (hh : Heap members s cast) (hr : Releasing members s₁ s)
    (hb : Alive s b) : Root members s₁ b ∨ ∃ a, Alive s a ∧ Owns members s₁ a b := by
  obtain ⟨h, x, hx, hxb⟩ := hh.exists_on hb
  have hon : On s₁ h b := ⟨x, hr.sub h x hx, hxb⟩
  by_cases hm : ∃ a, Member members s a h
  · obtain ⟨a, hm⟩ := hm
    exact .inr ⟨a, hm.alive, h, hr.later.member hm, hon⟩
  · refine .inl ⟨h, hon, fun a ha => ?_⟩
    rcases Nat.eq_zero_or_pos (s.released a) with h0 | hpos
    · exact hm ⟨a, hr.later.member_of_released ha h0⟩
    · rcases hr.done a h ha hpos with hd | hd
      · simp [pending, hh.stack] at hd
      · simp [hd] at hx

/-- **The calls on the stack end**, and leave exactly the objects that a root or a cycle leads
to. -/
theorem release_kept (hi : Inv cast s₁) (ho : Objects members s₁) (hs : pending s₁ = []) :
    ∃ s', (∀ n, s₁.work ≤ n → s₁.run members n = some s') ∧ Heap members s' cast ∧ Later s₁ s' ∧
      ∀ b, Alive s' b ↔ Kept members s₁ b := by
  have hprogress : ∀ s : State ι τ P D, (Inv cast s ∧ Objects members s ∧ Releasing members s₁ s ∧
      ∀ b, Kept members s₁ b → s.released b = 0) → s.stack ≠ [] →
      ∃ s', s.step members = some s' := by
    rintro s ⟨hi, ho, -⟩ hne
    obtain ⟨f, rest, hs⟩ := List.exists_cons_of_ne_nil hne
    refine hi.progress hs fun h hf => ho.pending_live h ?_
    simp [pending, hs, hf, Frame.target]
  have hstart : ∀ b, Kept members s₁ b → Alive s₁ b := by
    intro b hb
    rcases Graph.Kept.pred hb with ⟨h, hon, -⟩ | ⟨-, -, h, -, hon⟩
    · exact hi.alive_of_on hon
    · exact hi.alive_of_on hon
  obtain ⟨s', hstack, ⟨hi', ho', hr, hkept⟩, hrun⟩ := run_total
    (J := fun s => Inv cast s ∧ Objects members s ∧ Releasing members s₁ s ∧
      ∀ b, Kept members s₁ b → s.released b = 0)
    (fun s s' hJ he => by
      obtain ⟨hi, hos, hr, hkept⟩ := hJ
      obtain ⟨hos', hr'⟩ := hr.step hi hos he
      exact ⟨hi.step he, hos', hr', fun b hb => hr.kept_step hi ho hkept he hb⟩)
    hprogress ⟨hi, ho, .refl hs, fun b hb => (hstart b hb).2⟩
  have hh : Heap members s' cast := ⟨⟨hi', hstack⟩, ho'⟩
  refine ⟨s', hrun, hh, hr.later, fun b => ⟨fun hb => ?_, fun hb => ?_⟩⟩
  · exact Graph.kept_of_pred hh.alive_finite (fun b hb => hr.pred hh hb) hb
  · obtain ⟨B, hB⟩ := (hstart b hb).1
    obtain ⟨B', hB', -⟩ := hr.later.origin b B hB
    exact ⟨⟨B', hB'⟩, hkept b hb⟩

/-! ## Operations -/

/-- What an operation changes, before the destructors run. -/
structure Operates (s s₁ : State ι τ P D) (op : Op ι τ P D) : Prop where
  started : Started s s₁
  live : ∀ k, (s.handles k).isSome → op ≠ .destroy k → (s₁.handles k).isSome
  new : ∀ b B, s.blocks b = none → s₁.blocks b = some B → op.passes = some B.p
  /-- at most one block is new -/
  unique : ∀ a b, s.blocks a = none → s.blocks b = none → (s₁.blocks a).isSome →
    (s₁.blocks b).isSome → a = b

theorem Temp.unique {kind : Kind} {type : τ} {t : Handle τ P} {s₂ : State ι τ P D}
    (ht : Temp cast s kind type t s₂) (ha : s.blocks a = none) (hb : s.blocks b = none)
    (ha₂ : (s₂.blocks a).isSome) (hb₂ : (s₂.blocks b).isSome) : a = b := by
  have hpb : ∀ c, s.blocks c = none → (s₂.blocks c).isSome → t.pb = some c := by
    intro c hc hc₂
    rcases ht.new c hc with hnone | ⟨-, hpb⟩
    · simp [hnone] at hc₂
    · exact hpb
  exact Option.some.inj ((hpb a ha ha₂).symm.trans (hpb b hb hb₂))

omit [DecidableEq ι] in
theorem Operates.member (ho : Operates s s₁ op) (hm : Member members s₁ b k) :
    Member members s b k ∨ s.blocks b = none ∧ (s₁.blocks b).isSome ∧
      ∃ p, op.passes = some (some p) ∧ k ∈ members p := by
  obtain ⟨B, p, hB, hp, hr, hk⟩ := hm
  cases hb : s.blocks b with
  | none =>
    have hnew := ho.new b B hb hB
    rw [hp] at hnew
    exact .inr ⟨rfl, by simp [hB], p, hnew, hk⟩
  | some B₀ =>
    obtain ⟨B', hB', -, hp', -⟩ := ho.started.origin b B₀ hb
    obtain rfl : B = B' := Option.some.inj (hB.symm.trans hB')
    exact .inl ⟨B₀, p, hb, hp'.symm.trans hp, ho.started.released.symm.trans hr, hk⟩

theorem Operates.objects (hop : Operates s s₁ op) (hh : Heap members s cast)
    (ho : op.Orderly members s) : Objects members s₁ := by
  have hpending : pending s₁ = [] := by
    rw [hop.started.pending, pending, hh.stack]
    rfl
  refine ⟨fun b k hm => ?_, fun b B p hB hp hr => ?_, fun a b k hma hmb => ?_, ?_, ?_, ?_⟩
  · rcases hop.member hm with hm | ⟨-, -, p, hp, hk⟩
    · refine hop.live k (hh.objects.live b k hm) ?_
      rintro rfl
      exact ho b hm
    · obtain ⟨-, hdestroy, hlive⟩ := ho.adopts hp
      exact hop.live k (hlive k hk).1 (hdestroy k)
  · cases hb : s.blocks b with
    | none =>
      have hnew := hop.new b B hb hB
      rw [hp] at hnew
      exact (ho.adopts hnew).1
    | some B₀ =>
      obtain ⟨B', hB', -, hp', -⟩ := hop.started.origin b B₀ hb
      obtain rfl : B = B' := Option.some.inj (hB.symm.trans hB')
      exact hh.objects.nodup b B₀ p hb (hp'.symm.trans hp) (hop.started.released.symm.trans hr)
  · rcases hop.member hma with hma | ⟨ha, ha₁, p, hp, hk⟩
    · rcases hop.member hmb with hmb | ⟨-, -, p, hp, hk⟩
      · exact hh.objects.disjoint a b k hma hmb
      · exact absurd hma (((ho.adopts hp).2.2 k hk).2 a)
    · rcases hop.member hmb with hmb | ⟨hb, hb₁, -⟩
      · exact absurd hmb (((ho.adopts hp).2.2 k hk).2 b)
      · exact hop.unique a b ha hb ha₁ hb₁
  all_goals simp [hpending]

variable [DecidableEq τ]

omit [Fintype ι] in
theorem temp_live {kind : Kind} {type : τ} {src : Source ι τ P D} {t : Handle τ P}
    {s₂ : State ι τ P D} (he : s.temp cast kind type src = some (t, s₂))
    (hk : (s.handles k).isSome) : (s₂.handles k).isSome := by
  rcases temp_handles he k with ⟨-, x, -, -, -, hx⟩ | ⟨-, hsame⟩
  · simp [hx]
  · rwa [hsame]

theorem Inv.operates (hi : Inv cast s) (he : s.op cast op = some s₁) : Operates s s₁ op := by
  refine ⟨hi.started he, fun k hk hdestroy => ?_, fun b B => op_new he, fun a b ha hb ha₁ hb₁ => ?_⟩
  · cases op_spec he with
    | construct _ ht => exact set_live _ (temp_live ht hk)
    | assign _ ht => exact set_live _ (temp_live ht hk)
    | swap => exact set_live _ (set_live _ hk)
    | @destroy h x =>
      have hne : k ≠ h := by
        rintro rfl
        exact hdestroy rfl
      simpa [State.push, State.set, hne] using hk
  · cases op_spec he with
    | construct _ ht | assign _ ht => exact (hi.temp ht).unique ha hb ha₁ hb₁
    | swap | destroy =>
      have hsome : (s.blocks a).isSome := ha₁
      simp [ha] at hsome

/-- **One operation.** -/
theorem Heap.frees (hh : Heap members s cast) (ho : op.Orderly members s)
    (he : s.op cast op = some s₁) : ∃ s', (∀ n, s₁.work ≤ n → s₁.run members n = some s') ∧
      Heap members s' cast ∧ Freed members cast s s₁ s' := by
  have hstarted := hh.inv.started he
  have hobjects := (hh.inv.operates he).objects hh ho
  have hpending : pending s₁ = [] := by
    rw [hstarted.pending, pending, hh.stack]
    rfl
  obtain ⟨s', hrun, hh', hl, halive⟩ := release_kept (hh.inv.op he) hobjects hpending
  refine ⟨s', hrun, hh', halive, ?_, hh'.inv.sound hh'.stack, fun b B => hh'.toIdle.destroyed⟩
  rw [← hstarted.log]
  exact hh'.calls hl halive

/-! ## Runs -/

omit [DecidableEq τ] in
theorem Heap.alive_iff (hh : Heap members s cast) (b : Nat) : Alive s b ↔ Kept members s b := by
  refine ⟨fun hb => Graph.kept_of_pred hh.alive_finite (fun b hb => ?_) hb, fun hb => ?_⟩
  · exact Releasing.pred hh (.refl (by simp [pending, hh.stack])) hb
  · rcases Graph.Kept.pred hb with ⟨h, hon, -⟩ | ⟨-, -, h, -, hon⟩
    · exact hh.alive_of_on hon
    · exact hh.alive_of_on hon

theorem Heap.does (hh : Heap members s cast) (ho : op.Orderly members s)
    (hd : s.Does cast members op s') : Heap members s' cast ∧
      ∃ s₁, s.op cast op = some s₁ ∧ Freed members cast s s₁ s' := by
  obtain ⟨s₁, n, he, hrun⟩ := hd
  obtain ⟨s'', hrun', hh', hfreed⟩ := hh.frees ho he
  obtain rfl : s' = s'' := Option.some.inj
    ((run_mono hrun (Nat.le_max_right s₁.work n)).symm.trans (hrun' _ (Nat.le_max_left ..)))
  exact ⟨hh', s₁, he, hfreed⟩

theorem heap_heap {ls : List (Op ι τ P D)} (h : Exec (heap cast members) ls s) :
    Heap members s cast := by
  refine h.invariant (I := fun s => Heap members s cast) (fun s h0 => ?_)
    fun s op s' hh (hs : op.Orderly members s ∧ s.Does cast members op s') =>
      (hh.does hs.1 hs.2).1
  obtain rfl : s = ⟨fun _ => none, fun _ => none, 0, [], []⟩ := h0
  refine ⟨⟨inv_init, rfl⟩, ⟨fun b k hm => ?_, by simp, fun a b k hm => ?_, by simp [pending],
    by simp [pending], by simp [pending]⟩⟩
  · obtain ⟨B, p, hB, -⟩ := hm
    simp at hB
  · obtain ⟨B, p, hB, -⟩ := hm
    simp at hB

/-- **Reference counting frees what no root and no cycle leads to, and nothing else.** In every
state reached by operations on handles, of which any may be members of objects: the objects that
exist are those that a root or a cycle leads to. Every operation on handles there are returns,
having called the deleters of exactly the objects, old or new, that its handles leave without. -/
theorem heap_frees {ls : List (Op ι τ P D)} (h : Exec (heap cast members) ls s) :
    (∀ b, Alive s b ↔ Kept members s b) ∧ Sound cast s ∧
      (∀ op : Op ι τ P D, op.Applies s → op.Orderly members s →
        ∃ s', (heap cast members).step s op s') ∧
      ∀ op s', (heap cast members).step s op s' →
        ∃ s₁, s.op cast op = some s₁ ∧ Freed members cast s s₁ s' := by
  have hh := heap_heap h
  refine ⟨hh.alive_iff, hh.inv.sound hh.stack, fun op ha ho => ?_,
    fun op s' hs => (hh.does hs.1 hs.2).2⟩
  obtain ⟨s₁, he⟩ := hh.inv.op_applies ha
  obtain ⟨s', hrun, -⟩ := hh.frees ho he
  exact ⟨s', ho, s₁, _, he, hrun _ (Nat.le_refl _)⟩

/-- The object at 0 has the handle at 1 for a member. -/
def loopMembers : Nat → List (Fin 2)
  | 0 => [1]
  | _ => []

/-- An object that owns itself is left when its root is dropped. -/
theorem heap_frees_loop : ∃ s : State (Fin 2) Unit Nat Unit,
    Exec (heap (fun _ _ p => p) loopMembers)
      [.construct 1 .shared () .null, .construct 0 .shared () (.adopt () (some 0) ()),
        .assign 1 (.copy 0), .destroy 0] s ∧
      Alive s 0 ∧ Kept loopMembers s 0 ∧ s.handles 0 = none ∧ s.log = [] := by
  have hroot : ∀ s : State (Fin 2) Unit Nat Unit, ∀ a, ¬Member loopMembers s a 0 := by
    rintro s a ⟨B, p, -, -, -, hmem⟩
    cases p <;> simp [loopMembers] at hmem
  have hfree : ∀ s : State (Fin 2) Unit Nat Unit, (s.handles 1).isSome →
      (∀ b, s.blocks b = none) → ∀ k ∈ loopMembers 0,
        (s.handles k).isSome ∧ ∀ a, ¬Member loopMembers s a k := by
    intro s hs hblocks k hk
    obtain rfl := List.mem_singleton.1 hk
    refine ⟨hs, fun a ⟨B, p, hB, _⟩ => ?_⟩
    simp [hblocks a] at hB
  have hdoes : ∀ (op : Op (Fin 2) Unit Nat Unit) {s s' : State (Fin 2) Unit Nat Unit},
      op.Orderly loopMembers s → s.Does (fun _ _ p => p) loopMembers op s' →
        (heap (fun _ _ p => p) loopMembers).step s op s' := fun _ _ _ h h' => ⟨h, h'⟩
  have h0 : Exec (heap (fun _ _ p => p) loopMembers) []
      (⟨fun _ => none, fun _ => none, 0, [], []⟩ : State (Fin 2) Unit Nat Unit) := .init rfl
  have h1 := h0.snoc (hdoes (.construct 1 .shared () .null) trivial ⟨_, 5, rfl, rfl⟩)
  have h2 := h1.snoc (hdoes (.construct 0 .shared () (.adopt () (some 0) ()))
    ⟨by decide, hfree _ rfl fun _ => rfl⟩ ⟨_, 5, rfl, rfl⟩)
  have h3 := h2.snoc (hdoes (.assign 1 (.copy 0)) trivial ⟨_, 5, rfl, rfl⟩)
  have h4 := h3.snoc (hdoes (.destroy 0) (hroot _) ⟨_, 5, rfl, rfl⟩)
  refine ⟨_, h4, ?_, ((heap_frees h4).1 0).1 ?_, rfl, rfl⟩
  all_goals exact ⟨⟨_, rfl⟩, rfl⟩

end SharedPtr
