import Snippets.Shared.Setup

/-!
# When setting up a control block fails

`Memory.newBlock` gives a control block, or by exception leaves the memory as it was and the
constructor's `d` in one of the states of `MoveCtor.left` (`newBlock_returned`,
`newBlock_threw`). Only the new-expression is inside the `try` block: a parameter that throws
releases nothing, and the handler releases the pointer by what is left of `d`
(`Memory.setup_threw`). So the caller gets what the handler is for (`Memory.Released`) only where
the step that throws comes before `d` is moved from, or moving changes nothing (`released_iff`).

Without exceptions `Memory.setup` is the operation of the model (`Memory.setup_eq`).
-/

namespace SharedPtr

variable {ι τ P D : Type*} {x x' : Memory ι τ P D} {m : MoveCtor D} {order : NewOrder}
  {throwAt : Option SetupThrow} {type utype : τ} {p : Option P} {d : D} {t : SetupThrow}

/-! ## The new-expression -/

/-- The step is one of the new-expression. -/
def SetupThrow.InNew : SetupThrow → Prop
  | .allocate | .blockParameter | .member => True
  | .resetParameter | .parameter => False

/-- What is left of the constructor's `d` when the step of the new-expression throws. -/
def MoveCtor.left (m : MoveCtor D) (order : NewOrder) (d : D) : SetupThrow → D
  | .allocate => if order = .allocateFirst then d else m.moved d
  | .blockParameter => m.failed d
  | .member => m.moved d
  | .resetParameter | .parameter => d

@[simp] theorem deallocate_allocate : x.allocate.deallocate = x := by
  unfold Memory.allocate Memory.deallocate
  rw [List.erase_cons_head]

theorem initBlock_returned (h : throwAt ≠ some .member) :
    x.allocate.initBlock m throwAt type p d =
      (some x.state.next, { x with state := x.state.newBlock type p d }) := by
  simp only [Memory.initBlock, MoveCtor.run, h, decide_false, Bool.false_eq_true, if_false,
    deallocate_allocate]
  rfl

theorem initBlock_threw :
    x.allocate.initBlock m (some .member) type p d = (none, x) := by
  simp [Memory.initBlock, MoveCtor.run]

theorem newBlock_returned (h : ∀ t, throwAt = some t → ¬t.InNew) :
    x.newBlock m order throwAt type p d =
      (some x.state.next, m.moved d, { x with state := x.state.newBlock type p d }) := by
  have ha : throwAt ≠ some .allocate := fun he => h _ he trivial
  have hb : throwAt ≠ some .blockParameter := fun he => h _ he trivial
  have hm : throwAt ≠ some .member := fun he => h _ he trivial
  cases order <;> simp [Memory.newBlock, MoveCtor.run, ha, hb, initBlock_returned hm]

/-- By exception the new-expression leaves nothing but what it did to `d`. -/
theorem newBlock_threw (h : t.InNew) :
    x.newBlock m order (some t) type p d = (none, m.left order d t, x) := by
  cases t with
  | resetParameter | parameter => cases h
  | allocate | blockParameter =>
    cases order <;> simp [Memory.newBlock, MoveCtor.run, MoveCtor.left]
  | member => cases order <;> simp [Memory.newBlock, MoveCtor.run, MoveCtor.left, initBlock_threw]

/-! ## The constructor and `reset` -/

section
variable [DecidableEq τ] {cast : τ → τ → P → P} {members : P → List ι}

/-- Only a step of the new-expression is caught. -/
theorem sharedPtr_threw {o : Option (Handle τ P)}
    (h : x.sharedPtr cast members m order throwAt type utype p d = (o, x')) (hn : o = none) :
    (throwAt = some .parameter ∧ x' = x) ∨
      ∃ t, throwAt = some t ∧ t.InNew ∧ x' = x.release members p (m.left order d t) := by
  subst hn
  unfold Memory.sharedPtr at h
  split at h
  · rename_i ht
    cases h
    exact .inl ⟨ht, rfl⟩
  · rename_i ht
    by_cases hin : ∃ t, throwAt = some t ∧ t.InNew
    · obtain ⟨t, rfl, hin⟩ := hin
      rw [newBlock_threw hin] at h
      cases h
      exact .inr ⟨t, rfl, hin, rfl⟩
    · rw [newBlock_returned fun t ht hi => hin ⟨t, ht, hi⟩] at h
      cases h

theorem sharedPtr_none : x.sharedPtr cast members m order none type utype p d =
    (some (Handle.convert cast ⟨.shared, utype, p, some x.state.next⟩ .shared type),
      { x with state := x.state.newBlock utype p d }) := by
  have hnew : x.newBlock m order none utype p d = _ := newBlock_returned fun t ht => by cases ht
  simp [Memory.sharedPtr, hnew]

variable [DecidableEq ι] {target : Setup ι τ}

/-- A call that throws does what the handler does, if a step of the new-expression throws, and
nothing otherwise. -/
theorem Memory.setup_threw
    (h : x.setup cast members m order throwAt utype p d target = some (.threw, x')) :
    ∃ t, throwAt = some t ∧
      ((t.InNew ∧ x' = x.release members p (m.left order d t)) ∨ (¬t.InNew ∧ x' = x)) := by
  have hcall : ∀ {type : τ} {x' : Memory ι τ P D},
      x.sharedPtr cast members m order throwAt type utype p d = (none, x') →
      ∃ t, throwAt = some t ∧
        ((t.InNew ∧ x' = x.release members p (m.left order d t)) ∨ (¬t.InNew ∧ x' = x)) := by
    intro type x' hs
    rcases sharedPtr_threw hs rfl with ⟨ht, hx⟩ | ⟨t, ht, hin, hx⟩
    · exact ⟨_, ht, .inr ⟨id, hx⟩⟩
    · exact ⟨t, ht, .inl ⟨hin, hx⟩⟩
  cases target with
  | construct h type =>
    simp only [Memory.setup] at h
    split at h
    · split at h
      · cases h
      · rename_i hs
        cases h
        exact hcall hs
    · cases h
  | reset h =>
    obtain ⟨y, -, h⟩ := Option.bind_eq_some_iff.1 h
    split at h
    · split at h
      · rename_i ht
        cases h
        exact ⟨_, ht, .inr ⟨id, rfl⟩⟩
      · split at h
        · obtain ⟨_, -, h⟩ := Option.map_eq_some_iff.1 h
          cases h
        · rename_i hs
          cases h
          exact hcall hs
    · cases h

/-- Where nothing throws, the call is the operation of the model without exceptions. -/
theorem Memory.setup_eq : x.setup cast members m order none utype p d target =
    (x.state.op cast (target.op utype p d)).map fun s => (.returned, { x with state := s }) := by
  cases target with
  | construct h type =>
    simp only [Memory.setup, Setup.op, State.op, State.temp, sharedPtr_none, if_true]
    split <;> rfl
  | reset h =>
    simp only [Memory.setup, Setup.op, State.op, State.temp, sharedPtr_none]
    cases hy : x.state.handles h with
    | none => rfl
    | some y =>
      have hnew : ∀ b, (x.state.newBlock utype p b).handles h = some y := fun _ => hy
      by_cases hkind : y.kind = .shared
      · simp [hkind, hnew]
      · simp [hkind]

/-! ## What the caller gets -/

/-- `p` was released once, by a deleter in the state `d`, no control block is left, and the handles
and the counts are as before: what is left to do are the destructors of the members of `*p`. -/
structure Memory.Released (members : P → List ι) (x x' : Memory ι τ P D) (p : Option P) (d : D) :
    Prop where
  once : x'.released = x.released ++ [(p, d)]
  storage : x'.storage = x.storage
  blocks : x'.state.blocks = x.state.blocks
  handles : x'.state.handles = x.state.handles
  stack : x'.state.stack = (p.elim [] members).map .destruct ++ x.state.stack

/-- The step that throws leaves the constructor's `d` as it was passed, and is caught. -/
def MoveCtor.Keeps (m : MoveCtor D) (order : NewOrder) (d : D) : SetupThrow → Prop
  | .resetParameter | .parameter => False
  | .allocate => order = .allocateFirst ∨ m.moved d = d
  | .blockParameter => m.failed d = d
  | .member => m.moved d = d

theorem MoveCtor.keeps_iff : m.Keeps order d t ↔ t.InNew ∧ m.left order d t = d := by
  cases t with
  | allocate => cases order <;> simp [MoveCtor.Keeps, SetupThrow.InNew, MoveCtor.left]
  | _ => simp [MoveCtor.Keeps, SetupThrow.InNew, MoveCtor.left]

/-- **The handler is right only if `d` was not moved from yet.** If building `shared_ptr (p, d)` or
`h.reset (p, d)` exits by an exception, then `p` was released exactly once, by a deleter in the
state of the `d` that was passed, and everything else is as before, if and only if the step that
throws is one of the new-expression and leaves `d` so: the allocation, when it comes first, or one
after a move constructor whose argument is the same afterwards. -/
theorem released_iff
    (h : x.setup cast members m order throwAt utype p d target = some (.threw, x')) :
    x.Released members x' p d ↔ ∃ t, throwAt = some t ∧ m.Keeps order d t := by
  obtain ⟨t, rfl, ⟨hin, rfl⟩ | ⟨hin, rfl⟩⟩ := Memory.setup_threw h
  · constructor
    · intro hr
      have hlast : x.released ++ [(p, m.left order d t)] = x.released ++ [(p, d)] := hr.once
      have hleft : m.left order d t = d := by simpa using hlast
      exact ⟨t, rfl, MoveCtor.keeps_iff.2 ⟨hin, hleft⟩⟩
    · rintro ⟨_, ⟨⟩, hkeeps⟩
      obtain ⟨-, hleft⟩ := MoveCtor.keeps_iff.1 hkeeps
      rw [hleft]
      exact ⟨rfl, rfl, rfl, rfl, rfl⟩
  · -- a parameter that throws releases nothing
    constructor
    · intro hr
      have := hr.once
      simp at this
    · rintro ⟨_, ⟨⟩, hkeeps⟩
      exact absurd (MoveCtor.keeps_iff.1 hkeeps).1 hin

end

/-- `reset (p, d)` of an empty handle; the allocation comes first, and fails. -/
theorem released_iff_bad_alloc : ∃ x x' : Memory Unit Unit Nat Nat,
    x.setup (fun _ _ => id) (fun _ => []) ⟨fun _ => 0, fun _ => 0⟩ .allocateFirst
        (some .allocate) () (some 1) 7 (.reset ()) = some (.threw, x') ∧
      x.Released (fun _ => []) x' (some 1) 7 := by
  have h : Memory.setup (fun _ _ => id) (fun _ => []) ⟨fun _ => 0, fun _ => 0⟩ .allocateFirst
      (some .allocate) ⟨⟨fun _ => some (.empty .shared ()), fun _ => none, 0, [], []⟩, [], []⟩ ()
      (some 1) 7 (.reset ()) = some (.threw, _) := rfl
  exact ⟨_, _, h, (released_iff h).2 ⟨.allocate, rfl, .inl rfl⟩⟩

/-- The deleter 7 is 0 when it was moved from. In `reset` the member of the control block throws:
`p` is released by 0. In the constructor its parameter throws: `p` is not released. -/
theorem setup_moved_from : ∃ x x₁ x₂ : Memory Bool Unit Nat Nat,
    x.setup (fun _ _ => id) (fun _ => []) ⟨fun _ => 0, id⟩ .allocateFirst (some .member) ()
      (some 1) 7 (.reset true) = some (.threw, x₁) ∧
    x.setup (fun _ _ => id) (fun _ => []) ⟨fun _ => 0, id⟩ .allocateFirst (some .parameter) ()
      (some 1) 7 (.construct false ()) = some (.threw, x₂) ∧
    x₁.released = [(some 1, 0)] ∧ x₂.released = [] ∧ ¬x.Released (fun _ => []) x₁ (some 1) 7 ∧
    ¬x.Released (fun _ => []) x₂ (some 1) 7 := by
  let s : State Bool Unit Nat Nat :=
    ⟨fun h => if h then some (.empty .shared ()) else none, fun _ => none, 0, [], []⟩
  refine ⟨⟨s, [], []⟩, _, _, rfl, rfl, rfl, rfl, fun hr => ?_, fun hr => ?_⟩
  · have : [(some 1, 0)] = [(some 1, 7)] := hr.once
    simp at this
  · have : [] = [(some 1, 7)] := hr.once
    cases this

end SharedPtr
