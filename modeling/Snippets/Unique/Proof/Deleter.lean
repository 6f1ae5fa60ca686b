import Snippets.Unique.Model

/-!
# Pointers and their deleters

Pointer and deleter travel together (`Handle.Paired`, kept by moves, swaps and temporaries), so a
pointer is deleted by the deleter it was constructed with. `reset` and the assignment of
`nullptr` swap the handle with a temporary whose deleter is default-constructed: they do what
they should exactly on handles that have the default deleter (`right_deleter_iff`).
-/

namespace UniquePtr

open Lts

variable {ι τ P D : Type*} {d : Deleters τ D} {s s' : State ι τ P D} {l : Op ι τ P D}
  {x t t' : Handle τ P D} {h : ι}

/-- Each reset and assignment of `nullptr` is on a handle with a default-constructed deleter. -/
def DefaultAtReset (d : Deleters τ D) (s : State ι τ P D) : Op ι τ P D → Prop
  | .assignNull h | .reset h _ => ∀ x, s.handles h = some x → x.deleter = d.default x.type
  | _ => True

/-- The handle would delete its pointer by the right deleter. -/
def Handle.Paired (x : Handle τ P D) : Prop := ∀ o, x.p = some o → x.deleter = o.right

/-- Every pointer is with the deleter that it should be deleted by, and every deletion so far was by
that one. -/
structure Inv (s : State ι τ P D) : Prop where
  paired : ∀ h x, s.handles h = some x → x.Paired
  deleted : s.RightlyDeleted

/-! ## Handles -/

theorem Handle.paired_null (type : τ) : (Handle.null d type : Handle τ P D).Paired := by
  intro o ho
  cases ho

theorem Handle.paired_adopt (type : τ) (p : Option P) :
    (Handle.adopt d type p (d.default type)).Paired := by
  intro o ho
  obtain ⟨q, -, rfl⟩ := Option.map_eq_some_iff.1 ho
  rfl

theorem Handle.paired_adoptWith (type : τ) (p : Option P) (deleter : D) :
    (Handle.adoptWith type p deleter).Paired := by
  intro o ho
  obtain ⟨q, -, rfl⟩ := Option.map_eq_some_iff.1 ho
  rfl

theorem Handle.Paired.swap (hx : x.Paired) (ht : t.Paired) :
    (swap x t).1.Paired ∧ (swap x t).2.Paired :=
  ⟨ht, hx⟩

theorem Handle.Paired.destroy (hx : x.Paired) : ∀ y ∈ x.destroy, y.used = y.right := by
  intro y hy
  obtain ⟨o, ho, rfl⟩ := List.mem_map.1 hy
  exact hx o (Option.mem_toList.1 ho)

/-! ## States -/

theorem Inv.drop (hi : Inv s) (ht : t.Paired) : Inv (s.drop t) := by
  refine ⟨hi.paired, fun y hy => ?_⟩
  rcases List.mem_append.1 hy with hy | hy
  · exact hi.deleted y hy
  · exact ht.destroy y hy

variable [DecidableEq ι]

theorem Inv.set (hi : Inv s) (hx : x.Paired) : Inv (s.set h x) := by
  refine ⟨fun k y hy => ?_, hi.deleted⟩
  rcases eq_or_ne k h with rfl | hne
  · obtain rfl : x = y := by simpa [State.set] using hy
    exact hx
  · exact hi.paired k y (by simpa [State.set, Function.update_of_ne hne] using hy)

theorem Inv.swapWith (hi : Inv s) (ht : t.Paired) (he : s.swapWith h t = some (t', s')) :
    Inv s' ∧ t'.Paired := by
  obtain ⟨x, hx, he⟩ := Option.map_eq_some_iff.1 he
  cases he
  obtain ⟨h₁, h₂⟩ := (hi.paired h x hx).swap ht
  exact ⟨hi.set h₁, h₂⟩

theorem Inv.moveFrom {other : ι} (hi : Inv s) (he : s.moveFrom d other = some (t, s')) :
    Inv s' ∧ t.Paired := by
  obtain ⟨x, hx, he⟩ := Option.bind_eq_some_iff.1 he
  exact hi.swapWith (Handle.paired_null x.type) he

theorem Inv.convertFrom {type : τ} {other : ι} (hi : Inv s)
    (he : s.convertFrom d type other = some (t, s')) : Inv s' ∧ t.Paired := by
  obtain ⟨x, hx, he⟩ := Option.map_eq_some_iff.1 he
  cases he
  refine ⟨hi.set (fun o ho => by cases ho), fun o ho => ?_⟩
  obtain ⟨o', ho', rfl⟩ := Option.map_eq_some_iff.1 ho
  exact congrArg _ (hi.paired other x hx o' ho')

theorem Inv.assign (hi : Inv s) (ht : t.Paired) (he : State.assign h (t, s) = some s') :
    Inv s' := by
  obtain ⟨⟨t', s₁⟩, hs, rfl⟩ := Option.map_eq_some_iff.1 he
  obtain ⟨hi', ht'⟩ := hi.swapWith ht hs
  exact hi'.drop ht'

theorem Inv.construct (hi : Inv s) (hx : x.Paired) (he : State.construct h (x, s) = some s') :
    Inv s' := by
  obtain ⟨-, he⟩ := Option.ite_none_right_eq_some.1 he
  exact Option.some.inj he ▸ hi.set hx

variable [DecidableEq τ]

theorem Inv.op (hi : Inv s) (hd : DefaultAtReset d s l) (he : s.op d l = some s') : Inv s' := by
  cases l with
  | construct h type p => exact hi.construct (Handle.paired_adopt type p) he
  | constructWith h type p deleter => exact hi.construct (Handle.paired_adoptWith type p deleter) he
  | moveConstruct h other =>
    obtain ⟨⟨t, s₁⟩, hm, he⟩ := Option.bind_eq_some_iff.1 he
    obtain ⟨hi₁, ht⟩ := hi.moveFrom hm
    exact hi₁.construct ht he
  | moveAssign h other =>
    obtain ⟨⟨t, s₁⟩, hm, he⟩ := Option.bind_eq_some_iff.1 he
    obtain ⟨hi₁, ht⟩ := hi.moveFrom hm
    exact hi₁.assign ht he
  | convertConstruct h type other =>
    obtain ⟨⟨t, s₁⟩, hm, he⟩ := Option.bind_eq_some_iff.1 he
    obtain ⟨hi₁, ht⟩ := hi.convertFrom hm
    exact hi₁.construct ht he
  | convertAssign h other =>
    obtain ⟨x, -, he⟩ := Option.bind_eq_some_iff.1 he
    obtain ⟨⟨t, s₁⟩, hm, he⟩ := Option.bind_eq_some_iff.1 he
    obtain ⟨hi₁, ht⟩ := hi.convertFrom hm
    exact hi₁.assign ht he
  | assignNull h =>
    obtain ⟨x, -, he⟩ := Option.bind_eq_some_iff.1 he
    exact hi.assign (Handle.paired_null x.type) he
  | reset h p =>
    obtain ⟨x, hx, he⟩ := Option.bind_eq_some_iff.1 he
    rw [hd x hx] at he
    exact hi.assign (Handle.paired_adopt x.type p) he
  | release h =>
    obtain ⟨x, hx, rfl⟩ := Option.map_eq_some_iff.1 he
    have hset : Inv (s.set h { x with p := none }) := hi.set fun o ho => by cases ho
    exact ⟨hset.paired, hset.deleted⟩
  | swap a b =>
    obtain ⟨x, hx, he⟩ := Option.bind_eq_some_iff.1 he
    obtain ⟨y, hy, he⟩ := Option.bind_eq_some_iff.1 he
    obtain ⟨-, he⟩ := Option.ite_none_right_eq_some.1 he
    obtain ⟨h₁, h₂⟩ := (hi.paired a x hx).swap (hi.paired b y hy)
    exact Option.some.inj he ▸ (hi.set h₁).set h₂
  | destroy h =>
    obtain ⟨x, hx, rfl⟩ := Option.map_eq_some_iff.1 he
    refine ⟨fun k y hy => ?_, (hi.drop (hi.paired h x hx)).deleted⟩
    rcases eq_or_ne k h with rfl | hne
    · simp at hy
    · exact hi.paired k y (by simpa [Function.update_of_ne hne] using hy)

/-! ## Resets -/

omit [DecidableEq τ] in
theorem assign_deleter (he : State.assign h (t, s) = some s') :
    (s'.handles h).map Handle.deleter = some t.deleter := by
  obtain ⟨⟨t', s₁⟩, hs, rfl⟩ := Option.map_eq_some_iff.1 he
  obtain ⟨x, -, hs⟩ := Option.map_eq_some_iff.1 hs
  cases hs
  simp [State.drop, State.set, swap]

/-- A reset or an assignment of `nullptr` leaves the handle with the default deleter. -/
theorem keepsDeleter_iff (he : s.op d l = some s') :
    KeepsDeleter s s' l ↔ DefaultAtReset d s l := by
  cases l with
  | assignNull h | reset h p =>
    obtain ⟨x, hx, he⟩ := Option.bind_eq_some_iff.1 he
    simp only [KeepsDeleter, DefaultAtReset, assign_deleter he, hx, Option.map_some,
      Option.some.injEq, forall_eq']
    exact eq_comm
  | _ => exact Iff.rfl

/-- **The right deleter.** As long as every reset and every assignment of `nullptr` is on a handle
whose deleter equals a default-constructed one, every pointer is deleted by the right deleter and
every reset and assignment of `nullptr` leaves the handle's deleter unchanged; the first one on
another handle does not. -/
theorem right_deleter_iff {ls : List (Op ι τ P D)}
    (h : Exec ((system ι P d).restrict (DefaultAtReset d)) ls s) :
    s.RightlyDeleted ∧ ∀ l s', (system ι P d).step s l s' →
      (s'.RightlyDeleted ∧ KeepsDeleter s s' l ↔ DefaultAtReset d s l) := by
  have hi : Inv s := by
    refine h.invariant (I := Inv) (fun s h0 => ?_) fun s l s' hi hs => ?_
    · obtain rfl : s = ⟨fun _ => none, [], []⟩ := h0
      exact ⟨by simp, by simp [State.RightlyDeleted]⟩
    · exact hi.op hs.2 hs.1
  refine ⟨hi.deleted, fun l s' he => ?_⟩
  rw [keepsDeleter_iff he]
  exact and_iff_right_of_imp fun hd => (hi.op hd he).deleted

/-- Deleters whose state is a number, 0 by default. -/
def numbered : Deleters Unit Nat := ⟨fun _ => 0, fun _ _ n => n, fun _ n => n⟩

/-- A pointer constructed with a deleter and moved away, a reset on the handle it came from. -/
theorem right_deleter_iff_move : ∃ s, Exec ((system Bool Nat numbered).restrict
      (DefaultAtReset numbered)) [.constructWith true () (some 1) 7, .moveConstruct false true,
        .reset true (some 2), .destroy false, .destroy true] s ∧
    s.deleted = [⟨1, 7, 7⟩, ⟨2, 0, 0⟩] ∧ s.RightlyDeleted := by
  have h0 : Exec ((system Bool Nat numbered).restrict (DefaultAtReset numbered)) []
      ⟨fun _ => none, [], []⟩ := .init rfl
  have h1 := h0.snoc ⟨show State.op _ _ (.constructWith true () (some 1) 7) = some _ from rfl,
    trivial⟩
  have h2 := h1.snoc ⟨show State.op _ _ (.moveConstruct false true) = some _ from rfl, trivial⟩
  have h3 := h2.snoc ⟨show State.op _ _ (.reset true (some 2)) = some _ from rfl, fun x hx => by
    cases hx
    rfl⟩
  have h4 := h3.snoc ⟨show State.op _ _ (.destroy false) = some _ from rfl, trivial⟩
  have h5 := h4.snoc ⟨show State.op _ _ (.destroy true) = some _ from rfl, trivial⟩
  exact ⟨_, h5, rfl, (right_deleter_iff h5).1⟩

/-- A pointer adopted by a reset on a handle with another deleter. -/
theorem reset_uses_default_deleter : ∃ s, Exec (system Bool Nat numbered)
      [.constructWith true () (some 1) 7, .reset true (some 2), .destroy true] s ∧
    s.deleted = [⟨1, 7, 7⟩, ⟨2, 7, 0⟩] ∧ ¬s.RightlyDeleted := by
  have h0 : Exec (system Bool Nat numbered) [] ⟨fun _ => none, [], []⟩ := .init rfl
  have h1 := h0.snoc
    (show State.op numbered _ (.constructWith true () (some 1) 7) = some _ from rfl)
  have h2 := h1.snoc (show State.op numbered _ (.reset true (some 2)) = some _ from rfl)
  have h3 := h2.snoc (show State.op numbered _ (.destroy true) = some _ from rfl)
  exact ⟨_, h3, rfl, fun h => absurd (h ⟨2, 7, 0⟩ (by decide)) (by decide)⟩

end UniquePtr
