import Snippets.Lib.Custody
import Snippets.Unique.Model

/-!
# Every pointer has one owner

At each point of each operation the objects (the handles, and the temporary of the operation) hold
the pointers that have gone neither to a caller of `release` nor to a deleter
(`Custody.Conserved`): the operations are made of exchanges between two objects, of adoptions, and
of pointers that leave (`Point.hold_swapWith`, `Point.hold_drop` and the like, assembled in
`Conserved.within`). From that, `one_owner`.
-/

namespace UniquePtr

open Lts Custody

variable {ι τ P D : Type*} {d : Deleters τ D} {s s' s₁ s₂ : State ι τ P D} {l : Op ι τ P D}
  {x t t' : Handle τ P D} {h other : ι} {p : P}

/-! ## Who holds what -/

def Handle.ptr (x : Handle τ P D) : Option P := x.p.map Owned.ptr

/-- The pointer an object holds; `none` is the temporary. -/
def Point.hold (pt : Point ι τ P D) : Option ι → Option P
  | none => pt.temp.bind Handle.ptr
  | some h => (pt.state.handles h).bind Handle.ptr

/-- The pointers handed back and deleted. -/
def Point.out (pt : Point ι τ P D) : List P :=
  pt.state.released ++ pt.state.deleted.map Deletion.ptr

theorem Handle.destroy_ptr (x : Handle τ P D) :
    x.destroy.map Deletion.ptr = x.ptr.toList := by
  unfold Handle.destroy Handle.ptr
  cases x.p <;> rfl

theorem Point.out_drop : (⟨none, s.drop t⟩ : Point ι τ P D).out =
    (⟨some t, s⟩ : Point ι τ P D).out ++ t.ptr.toList := by
  unfold Point.out State.drop
  rw [List.map_append, Handle.destroy_ptr, List.append_assoc]

theorem Point.hold_built (hp : x.ptr = none) :
    (⟨some x, s⟩ : Point ι τ P D).hold = (⟨none, s⟩ : Point ι τ P D).hold := by
  funext k
  cases k with
  | none => exact hp
  | some h => rfl

variable [DecidableEq ι]

theorem Point.hold_drop : (⟨none, s.drop t⟩ : Point ι τ P D).hold =
    Function.update (⟨some t, s⟩ : Point ι τ P D).hold none none := by
  funext k
  cases k with
  | none => rw [Function.update_self]; rfl
  | some h => rw [Function.update_of_ne (Option.some_ne_none h)]; rfl

theorem Point.hold_adopted (hp : x.ptr = some p) : (⟨some x, s⟩ : Point ι τ P D).hold =
    Function.update (⟨none, s⟩ : Point ι τ P D).hold none (some p) := by
  funext k
  cases k with
  | none => rw [Function.update_self]; exact hp
  | some h => rw [Function.update_of_ne (Option.some_ne_none h)]; rfl

/-- Two points at which the objects `j` and `k` have exchanged what they hold. -/
theorem Point.hold_swap {pt pt' : Point ι τ P D} {j k : Option ι} (hj : pt'.hold j = pt.hold k)
    (hk : pt'.hold k = pt.hold j) (hne : ∀ m, m ≠ j → m ≠ k → pt'.hold m = pt.hold m) :
    pt'.hold = pt.hold ∘ Equiv.swap j k := by
  funext m
  unfold Function.comp
  by_cases hmj : m = j
  · subst hmj
    rw [Equiv.swap_apply_left, hj]
  · by_cases hmk : m = k
    · subst hmk
      rw [Equiv.swap_apply_right, hk]
    · rw [Equiv.swap_apply_of_ne_of_ne hmj hmk, hne m hmj hmk]

theorem Point.hold_lose {pt pt' : Point ι τ P D} (hnone : pt'.hold none = pt.hold none)
    (hh : pt'.hold (some h) = none) (hne : ∀ j, j ≠ h → pt'.hold (some j) = pt.hold (some j)) :
    pt'.hold = Function.update pt.hold (some h) none := by
  funext k
  cases k with
  | none => rw [Function.update_of_ne (Option.some_ne_none h).symm, hnone]
  | some j =>
    by_cases hj : j = h
    · subst hj
      rw [Function.update_self, hh]
    · rw [Function.update_of_ne fun he => hj (Option.some.inj he), hne j hj]

theorem Point.hold_set {temp temp' : Option (Handle τ P D)} {j : ι} (hj : j ≠ h) :
    (⟨temp', s.set h x⟩ : Point ι τ P D).hold (some j) =
      (⟨temp, s⟩ : Point ι τ P D).hold (some j) := by
  simp [Point.hold, State.set, Function.update_of_ne hj]

theorem Point.hold_swapWith (he : s.swapWith h t = some (t', s')) :
    (⟨some t', s'⟩ : Point ι τ P D).hold =
        (⟨some t, s⟩ : Point ι τ P D).hold ∘ Equiv.swap none (some h) ∧
      (⟨some t', s'⟩ : Point ι τ P D).out = (⟨some t, s⟩ : Point ι τ P D).out := by
  obtain ⟨x, hx, he⟩ := Option.map_eq_some_iff.1 he
  cases he
  refine ⟨hold_swap ?_ ?_ ?_, rfl⟩
  · simp only [Point.hold, hx]; rfl
  · simp only [Point.hold, State.set, Function.update_self]; rfl
  · intro m hm hm'
    cases m with
    | none => exact absurd rfl hm
    | some j => exact hold_set fun he => hm' (he ▸ rfl)

theorem Point.hold_moveFrom (he : s.moveFrom d other = some (t, s')) :
    (⟨some t, s'⟩ : Point ι τ P D).hold =
        (⟨none, s⟩ : Point ι τ P D).hold ∘ Equiv.swap none (some other) ∧
      (⟨some t, s'⟩ : Point ι τ P D).out = (⟨none, s⟩ : Point ι τ P D).out := by
  obtain ⟨x, hx, he⟩ := Option.bind_eq_some_iff.1 he
  obtain ⟨hhold, hout⟩ := hold_swapWith he
  have hnull : (⟨some (.null d x.type), s⟩ : Point ι τ P D).hold = _ := hold_built rfl
  exact ⟨hnull ▸ hhold, hout⟩

theorem Point.hold_convertFrom {type : τ} (he : s.convertFrom d type other = some (t, s')) :
    (⟨some t, s'⟩ : Point ι τ P D).hold =
        (⟨none, s⟩ : Point ι τ P D).hold ∘ Equiv.swap none (some other) ∧
      (⟨some t, s'⟩ : Point ι τ P D).out = (⟨none, s⟩ : Point ι τ P D).out := by
  obtain ⟨x, hx, he⟩ := Option.map_eq_some_iff.1 he
  cases he
  refine ⟨hold_swap ?_ ?_ ?_, rfl⟩
  · simp [Point.hold, hx, Handle.ptr, Function.comp_def]
  · simp [Point.hold, State.set, Handle.ptr]
  · intro m hm hm'
    cases m with
    | none => exact absurd rfl hm
    | some j => exact hold_set fun he => hm' (he ▸ rfl)

theorem Point.hold_construct (he : State.construct h (x, s) = some s') :
    (⟨none, s'⟩ : Point ι τ P D).hold =
        (⟨some x, s⟩ : Point ι τ P D).hold ∘ Equiv.swap none (some h) ∧
      (⟨none, s'⟩ : Point ι τ P D).out = (⟨some x, s⟩ : Point ι τ P D).out := by
  obtain ⟨hfree, he⟩ := Option.ite_none_right_eq_some.1 he
  cases he
  refine ⟨hold_swap ?_ ?_ ?_, rfl⟩
  · simp [Point.hold, Option.isNone_iff_eq_none.1 hfree]
  · simp [Point.hold, State.set]
  · intro m hm hm'
    cases m with
    | none => exact absurd rfl hm
    | some j => exact hold_set fun he => hm' (he ▸ rfl)

/-! ## Operations -/

variable {all : List P}

/-- Each of the pointers `all` is held by one object or is gone. -/
def Point.Conserved (all : List P) (pt : Point ι τ P D) : Prop :=
  Custody.Conserved all pt.hold pt.out

theorem Point.Conserved.of_swap {pt pt' : Point ι τ P D} {j k : Option ι} (hc : pt.Conserved all)
    (he : pt'.hold = pt.hold ∘ Equiv.swap j k ∧ pt'.out = pt.out) : pt'.Conserved all := by
  unfold Point.Conserved
  rw [he.1, he.2]
  exact Custody.Conserved.swap hc j k

theorem Point.Conserved.of_leave {pt pt' : Point ι τ P D} {k : Option ι} (hc : pt.Conserved all)
    (hhold : pt'.hold = Function.update pt.hold k none)
    (hout : (pt.out ++ (pt.hold k).toList).Perm pt'.out) : pt'.Conserved all := by
  unfold Point.Conserved
  rw [hhold]
  exact (Custody.Conserved.leave hc k).perm hout

theorem Point.Conserved.built (hc : (⟨none, s⟩ : Point ι τ P D).Conserved all)
    (hnew : ∀ q, x.ptr = some q → q ∉ all) :
    (⟨some x, s⟩ : Point ι τ P D).Conserved (all ++ x.ptr.toList) := by
  unfold Point.Conserved
  cases hp : x.ptr with
  | none =>
    rw [hold_built hp, Option.toList_none, List.append_nil]
    exact hc
  | some q =>
    rw [hold_adopted hp]
    exact Custody.Conserved.come hc rfl (hnew q hp)

theorem State.assign_eq (he : State.assign h (t, s) = some s') :
    ∃ t' s₁, s.swapWith h t = some (t', s₁) ∧ s' = s₁.drop t' := by
  obtain ⟨⟨t', s₁⟩, hs, rfl⟩ := Option.map_eq_some_iff.1 he
  exact ⟨t', s₁, hs, rfl⟩

theorem Point.Conserved.assign (hc : (⟨some t, s⟩ : Point ι τ P D).Conserved all)
    (he : State.assign h (t, s) = some s') : (⟨none, s'⟩ : Point ι τ P D).Conserved all := by
  obtain ⟨t', s₁, hs, rfl⟩ := State.assign_eq he
  refine (hc.of_swap (hold_swapWith hs)).of_leave hold_drop ?_
  rw [out_drop]
  rfl

theorem Handle.adopt_ptr {type : τ} {q : Option P} {right : D} :
    (Handle.adopt d type q right : Handle τ P D).ptr = q := by
  cases q <;> rfl

theorem Handle.adoptWith_ptr {type : τ} {q : Option P} {right : D} :
    (Handle.adoptWith type q right : Handle τ P D).ptr = q := by
  cases q <;> rfl

/-- The object an operation builds first holds the pointer it adopts, or takes over the one of
its source. -/
theorem Point.Conserved.temporary (hc : (⟨none, s⟩ : Point ι τ P D).Conserved all)
    (hnew : ∀ q, l.adopts = some q → q ∉ all) (he : s.temporary d l = some (t, s₁)) :
    (⟨some t, s₁⟩ : Point ι τ P D).Conserved (all ++ l.adopts.toList) := by
  have hnone : l.adopts = none → (⟨some t, s₁⟩ : Point ι τ P D).Conserved all →
      (⟨some t, s₁⟩ : Point ι τ P D).Conserved (all ++ l.adopts.toList) := by
    intro hl h
    rwa [hl, Option.toList_none, List.append_nil]
  cases l with
  | construct h type q =>
    cases he
    have := hc.built (x := .adopt d type q (d.default type)) (by rwa [Handle.adopt_ptr])
    rwa [Handle.adopt_ptr] at this
  | constructWith h type q deleter =>
    cases he
    have := hc.built (x := .adoptWith type q deleter) (by rwa [Handle.adoptWith_ptr])
    rwa [Handle.adoptWith_ptr] at this
  | moveConstruct h other | moveAssign h other =>
    exact hnone rfl (hc.of_swap (hold_moveFrom he))
  | convertConstruct h type other => exact hnone rfl (hc.of_swap (hold_convertFrom he))
  | convertAssign h other =>
    obtain ⟨x, -, he⟩ := Option.bind_eq_some_iff.1 he
    exact hnone rfl (hc.of_swap (hold_convertFrom he))
  | assignNull h =>
    obtain ⟨x, -, he⟩ := Option.map_eq_some_iff.1 he
    cases he
    have := hc.built (x := .null d x.type) nofun
    exact this
  | reset h q =>
    obtain ⟨x, -, he⟩ := Option.map_eq_some_iff.1 he
    cases he
    have := hc.built (x := .adopt d x.type q x.deleter) (by rwa [Handle.adopt_ptr])
    rwa [Handle.adopt_ptr] at this
  | release _ | swap _ _ | destroy _ => cases he

variable [DecidableEq τ]

/-- An operation that builds an object makes a handle of it, or assigns it. -/
theorem State.op_temporary (he : s.op d l = some s') (hl : s.temporary d l ≠ none) :
    ∃ t s₁, s.temporary d l = some (t, s₁) ∧
      ((∃ h, State.construct h (t, s₁) = some s') ∨
        ∃ h, l.assigned = some h ∧ State.assign h (t, s₁) = some s') := by
  cases l with
  | construct h type q | constructWith h type q deleter => exact ⟨_, _, rfl, .inl ⟨h, he⟩⟩
  | moveConstruct h other | convertConstruct h type other =>
    obtain ⟨⟨t, s₁⟩, hm, he⟩ := Option.bind_eq_some_iff.1 he
    exact ⟨t, s₁, hm, .inl ⟨h, he⟩⟩
  | moveAssign h other =>
    obtain ⟨⟨t, s₁⟩, hm, he⟩ := Option.bind_eq_some_iff.1 he
    exact ⟨t, s₁, hm, .inr ⟨h, rfl, he⟩⟩
  | convertAssign h other =>
    obtain ⟨x, hx, he⟩ := Option.bind_eq_some_iff.1 he
    obtain ⟨⟨t, s₁⟩, hm, he⟩ := Option.bind_eq_some_iff.1 he
    exact ⟨t, s₁, Option.bind_eq_some_iff.2 ⟨x, hx, hm⟩, .inr ⟨h, rfl, he⟩⟩
  | assignNull h | reset h q =>
    obtain ⟨x, hx, he⟩ := Option.bind_eq_some_iff.1 he
    exact ⟨_, _, Option.map_eq_some_iff.2 ⟨x, hx, rfl⟩, .inr ⟨h, rfl, he⟩⟩
  | release _ | swap _ _ | destroy _ => exact absurd rfl hl

theorem Point.Conserved.release (hc : (⟨none, s⟩ : Point ι τ P D).Conserved all)
    (he : s.op d (.release h) = some s') : (⟨none, s'⟩ : Point ι τ P D).Conserved all := by
  obtain ⟨x, hx, rfl⟩ := Option.map_eq_some_iff.1 he
  refine hc.of_leave (k := some h) (hold_lose rfl ?_ fun j hj => ?_) ?_
  · simp [Point.hold, State.set, Handle.ptr]
  · simp [Point.hold, State.set, Function.update_of_ne hj]
  · have hp : (⟨none, s⟩ : Point ι τ P D).hold (some h) = x.p.map Owned.ptr := by
      simp [Point.hold, hx, Handle.ptr]
    rw [hp]
    unfold Point.out
    rw [List.append_assoc, List.append_assoc]
    exact List.perm_append_comm.append_left _

theorem Point.Conserved.destroy (hc : (⟨none, s⟩ : Point ι τ P D).Conserved all)
    (he : s.op d (.destroy h) = some s') : (⟨none, s'⟩ : Point ι τ P D).Conserved all := by
  obtain ⟨x, hx, rfl⟩ := Option.map_eq_some_iff.1 he
  refine hc.of_leave (k := some h) (hold_lose rfl ?_ fun j hj => ?_) ?_
  · simp [Point.hold]
  · simp [Point.hold, Function.update_of_ne hj]
  · have hp : (⟨none, s⟩ : Point ι τ P D).hold (some h) = x.ptr := by simp [Point.hold, hx]
    rw [hp, ← Handle.destroy_ptr]
    unfold Point.out
    rw [List.map_append, List.append_assoc]

theorem Point.Conserved.swap {a b : ι} (hc : (⟨none, s⟩ : Point ι τ P D).Conserved all)
    (he : s.op d (.swap a b) = some s') : (⟨none, s'⟩ : Point ι τ P D).Conserved all := by
  obtain ⟨x, hx, he⟩ := Option.bind_eq_some_iff.1 he
  obtain ⟨y, hy, he⟩ := Option.bind_eq_some_iff.1 he
  obtain ⟨-, he⟩ := Option.ite_none_right_eq_some.1 he
  cases he
  refine hc.of_swap (j := some a) (k := some b) ⟨hold_swap ?_ ?_ ?_, rfl⟩
  · by_cases hab : a = b
    · subst hab
      obtain rfl : x = y := Option.some.inj (hx.symm.trans hy)
      simp only [Point.hold, State.set, Function.update_self, hx]
      rfl
    · simp only [Point.hold, State.set, Function.update_of_ne hab, Function.update_self, hy]
      rfl
  · simp only [Point.hold, State.set, Function.update_self, hx]
    rfl
  · intro m hma hmb
    cases m with
    | none => rfl
    | some j =>
      have hja : j ≠ a := fun he => hma (he ▸ rfl)
      have hjb : j ≠ b := fun he => hmb (he ▸ rfl)
      simp [Point.hold, State.set, Function.update_of_ne hja, Function.update_of_ne hjb]

/-- The pointers are conserved by every operation that adopts new pointers only. -/
theorem Point.Conserved.op (hc : (⟨none, s⟩ : Point ι τ P D).Conserved all)
    (hnew : ∀ q, l.adopts = some q → q ∉ all) (he : s.op d l = some s') :
    (⟨none, s'⟩ : Point ι τ P D).Conserved (all ++ l.adopts.toList) := by
  by_cases hl : s.temporary d l = none
  · cases l with
    | release h => simpa [Op.adopts] using hc.release he
    | swap a b => simpa [Op.adopts] using hc.swap he
    | destroy h => simpa [Op.adopts] using hc.destroy he
    | construct | constructWith => cases hl
    | moveConstruct h other | moveAssign h other | convertConstruct h type other =>
      obtain ⟨_, hm, -⟩ := Option.bind_eq_some_iff.1 he
      exact nomatch hl.symm.trans hm
    | convertAssign h other =>
      obtain ⟨x, hx, he⟩ := Option.bind_eq_some_iff.1 he
      obtain ⟨_, hm, -⟩ := Option.bind_eq_some_iff.1 he
      exact nomatch hl.symm.trans (Option.bind_eq_some_iff.2 ⟨x, hx, hm⟩)
    | assignNull h | reset h q =>
      obtain ⟨x, hx, -⟩ := Option.bind_eq_some_iff.1 he
      exact nomatch hl.symm.trans (Option.map_eq_some_iff.2 ⟨x, hx, rfl⟩)
  · obtain ⟨t, s₁, ht, ⟨h, he⟩ | ⟨h, -, he⟩⟩ := State.op_temporary he hl
    · exact (hc.temporary hnew ht).of_swap (hold_construct he)
    · exact (hc.temporary hnew ht).assign he

/-- The pointers are conserved at every point of an operation. -/
theorem Point.Conserved.within {pt : Point ι τ P D}
    (hc : (⟨none, s⟩ : Point ι τ P D).Conserved all) (hnew : ∀ q, l.adopts = some q → q ∉ all)
    (hw : Within d s l pt) : pt.Conserved (all ++ l.adopts.toList) := by
  cases hw with
  | built he => exact hc.temporary hnew he
  | swapped he _ hs => exact (hc.temporary hnew he).of_swap (hold_swapWith hs)
  | done he => exact hc.op hnew he

/-! ## Overwritten pointers -/

omit [DecidableEq τ] in
theorem State.assign_deleted (he : State.assign h (t, s) = some s') :
    s'.deleted.map Deletion.ptr =
      s.deleted.map Deletion.ptr ++ ((s.handles h).bind Handle.ptr).toList := by
  obtain ⟨t', s₁, hs, rfl⟩ := State.assign_eq he
  obtain ⟨x, hx, hs⟩ := Option.map_eq_some_iff.1 hs
  cases hs
  rw [hx]
  exact (List.map_append ..).trans (congrArg _ (Handle.destroy_ptr _))

omit [DecidableEq τ] in
/-- A temporary that takes over the pointer of one handle leaves the others alone. -/
theorem State.temporary_keeps (hl : l.Overwrites h) (he : s.temporary d l = some (t, s₁)) :
    s₁.handles h = s.handles h ∧ s₁.deleted = s.deleted ∧ l.assigned = some h := by
  cases l with
  | moveAssign h' other =>
    obtain ⟨rfl, hne⟩ := hl
    obtain ⟨x, -, he⟩ := Option.bind_eq_some_iff.1 he
    obtain ⟨y, -, he⟩ := Option.map_eq_some_iff.1 he
    cases he
    exact ⟨Function.update_of_ne hne.symm _ _, rfl, rfl⟩
  | convertAssign h' other =>
    obtain ⟨rfl, hne⟩ := hl
    obtain ⟨x, -, he⟩ := Option.bind_eq_some_iff.1 he
    obtain ⟨y, -, he⟩ := Option.map_eq_some_iff.1 he
    cases he
    exact ⟨Function.update_of_ne hne.symm _ _, rfl, rfl⟩
  | assignNull h' | reset h' q =>
    cases hl
    obtain ⟨x, -, he⟩ := Option.map_eq_some_iff.1 he
    cases he
    exact ⟨rfl, rfl, rfl⟩
  | _ => exact hl.elim

/-- An overwritten pointer is deleted, and nothing else is. -/
theorem overwrites_deletes (hl : l.Overwrites h) (he : s.op d l = some s') :
    s'.deleted.map Deletion.ptr =
      s.deleted.map Deletion.ptr ++ ((s.handles h).bind Handle.ptr).toList := by
  have hassign : ∃ t s₁, s.temporary d l = some (t, s₁) ∧ State.assign h (t, s₁) = some s' := by
    cases l with
    | moveAssign h' other =>
      obtain ⟨rfl, -⟩ := hl
      obtain ⟨⟨t, s₁⟩, hm, he⟩ := Option.bind_eq_some_iff.1 he
      exact ⟨t, s₁, hm, he⟩
    | convertAssign h' other =>
      obtain ⟨rfl, -⟩ := hl
      obtain ⟨x, hx, he⟩ := Option.bind_eq_some_iff.1 he
      obtain ⟨⟨t, s₁⟩, hm, he⟩ := Option.bind_eq_some_iff.1 he
      exact ⟨t, s₁, Option.bind_eq_some_iff.2 ⟨x, hx, hm⟩, he⟩
    | assignNull h' | reset h' q =>
      cases hl
      obtain ⟨x, hx, he⟩ := Option.bind_eq_some_iff.1 he
      exact ⟨_, _, Option.map_eq_some_iff.2 ⟨x, hx, rfl⟩, he⟩
    | _ => exact hl.elim
  obtain ⟨t, s₁, ht, he⟩ := hassign
  obtain ⟨hh, hd, -⟩ := State.temporary_keeps hl ht
  rw [State.assign_deleted he, hh, hd]

/-! ## Runs -/

/-- The pointers adopted in a run, in order. -/
def adopted (ls : List (Op ι τ P D)) : List P := ls.filterMap Op.adopts

omit [DecidableEq ι] [DecidableEq τ] in
theorem adopted_snoc (ls : List (Op ι τ P D)) (l : Op ι τ P D) :
    adopted (ls ++ [l]) = adopted ls ++ l.adopts.toList := by
  unfold adopted
  rw [List.filterMap_append]
  cases hl : l.adopts <;> simp [hl]

omit [DecidableEq ι] [DecidableEq τ] in
/-- The last operation of a run in which every pointer is adopted once adopts a new one. -/
theorem adopted_new {ls : List (Op ι τ P D)} (hfresh : (adopted (ls ++ [l])).Nodup) :
    (adopted ls).Nodup ∧ ∀ q, l.adopts = some q → q ∉ adopted ls := by
  rw [adopted_snoc, List.nodup_append] at hfresh
  exact ⟨hfresh.1, fun q hq hm => hfresh.2.2 q hm q (by simp [hq]) rfl⟩

theorem system_conserved {ls : List (Op ι τ P D)} (h : Exec (system ι P d) ls s)
    (hfresh : (adopted ls).Nodup) : (⟨none, s⟩ : Point ι τ P D).Conserved (adopted ls) := by
  induction h with
  | init h0 =>
    cases h0
    have hhold : (⟨none, ⟨fun _ => none, [], []⟩⟩ : Point ι τ P D).hold = fun _ => none := by
      funext k
      cases k <;> rfl
    unfold Point.Conserved
    rw [hhold]
    exact .nil
  | snoc _ hs ih =>
    obtain ⟨hfresh, hnew⟩ := adopted_new hfresh
    rw [adopted_snoc]
    exact (ih hfresh).op hnew hs

/-! ## The fate of a pointer -/

section
variable [DecidableEq P]

/-- How often the pointer was handed back by `release`, and how often it was deleted. -/
def Point.gone (pt : Point ι τ P D) (p : P) : Nat × Nat :=
  (pt.state.released.count p, (pt.state.deleted.map Deletion.ptr).count p)

/-- The pointer is owned by exactly one live object, or was handed back by `release`, or was
deleted once. -/
def Point.Fate (pt : Point ι τ P D) (p : P) : Prop :=
  ((∃! k, pt.hold k = some p) ∧ pt.gone p = (0, 0)) ∨
    ((∀ k, pt.hold k ≠ some p) ∧ (pt.gone p = (1, 0) ∨ pt.gone p = (0, 1)))

omit [DecidableEq ι] [DecidableEq τ] in
theorem Point.Conserved.fate {pt : Point ι τ P D} (hc : pt.Conserved all) (hp : p ∈ all) :
    pt.Fate p := by
  have hsum : (pt.gone p).1 + (pt.gone p).2 = pt.out.count p := List.count_append.symm
  rcases hc.mem.1 hp with ⟨k, hk⟩ | hm
  · have hout : pt.out.count p = 0 := List.count_eq_zero.2 (hc.kept hk)
    exact .inl ⟨⟨k, hk, fun j hj => hc.unique hj hk⟩, Prod.ext (by omega) (by omega)⟩
  · have hout : pt.out.count p = 1 := List.count_eq_one_of_mem hc.nodup hm
    refine .inr ⟨fun k hk => hc.kept hk hm, ?_⟩
    rcases Nat.eq_zero_or_pos (pt.gone p).1 with h0 | hpos
    · exact .inr (Prod.ext h0 (by omega))
    · exact .inl (Prod.ext (by omega) (by omega))

/-- **One owner.** If every adopted pointer is new, then after every operation and at every point
within one, each adopted pointer is owned by exactly one live object, or was handed back by
`release`, or was deleted once. An operation that overwrites a pointer deletes it, and when all
handles are gone every pointer that was not handed back has been deleted exactly once. -/
theorem one_owner {ls : List (Op ι τ P D)} (h : Exec (system ι P d) ls s)
    (hfresh : (adopted ls).Nodup) :
    (∀ p ∈ adopted ls, (⟨none, s⟩ : Point ι τ P D).Fate p) ∧
      (∀ l, (adopted (ls ++ [l])).Nodup → ∀ pt, Within d s l pt →
        ∀ p ∈ adopted (ls ++ [l]), pt.Fate p) ∧
      (∀ l h s', l.Overwrites h → s.op d l = some s' → s'.deleted.map Deletion.ptr =
        s.deleted.map Deletion.ptr ++ ((s.handles h).bind Handle.ptr).toList) ∧
      ((∀ h, s.handles h = none) → ∀ p ∈ adopted ls, p ∉ s.released →
        (s.deleted.map Deletion.ptr).count p = 1) := by
  have hc := system_conserved h hfresh
  refine ⟨fun p hp => hc.fate hp, ?_, fun l h s' hl he => overwrites_deletes hl he, ?_⟩
  · intro l hfresh' pt hw p hp
    have hnew := (adopted_new hfresh').2
    rw [adopted_snoc] at hp
    exact (hc.within hnew hw).fate hp
  · intro hnone p hp hrel
    rcases hc.fate hp with ⟨⟨k, hk, -⟩, -⟩ | ⟨-, hg | hg⟩
    · cases k with
      | none => cases hk
      | some j =>
        simp only [Point.hold, hnone j] at hk
        cases hk
    · have hone : s.released.count p = 1 := (Prod.ext_iff.1 hg).1
      exact absurd (List.count_pos_iff.1 (hone ▸ Nat.one_pos)) hrel
    · exact (Prod.ext_iff.1 hg).2

end

/-- One type of handles, whose deleters have no state. -/
def stateless : Deleters Unit Unit := ⟨fun _ => (), fun _ _ _ => (), fun _ _ => ()⟩

/-- A pointer that is moved, moved onto itself and overwritten, and one that is released. -/
theorem one_owner_overwritten : ∃ s, Exec (system Bool Nat stateless) [.construct true () (some 1),
      .moveConstruct false true, .moveAssign false false, .reset false (some 2), .release false,
      .destroy false, .destroy true] s ∧
    s.released = [2] ∧ s.deleted.map Deletion.ptr = [1] ∧
      ∀ p ∈ [1, 2], (⟨none, s⟩ : Point Bool Unit Nat Unit).Fate p := by
  have h0 : Exec (system Bool Nat stateless) [] ⟨fun _ => none, [], []⟩ := .init rfl
  have h1 := h0.snoc (show State.op _ _ (.construct true () (some 1)) = some _ from rfl)
  have h2 := h1.snoc (show State.op _ _ (.moveConstruct false true) = some _ from rfl)
  have h3 := h2.snoc (show State.op _ _ (.moveAssign false false) = some _ from rfl)
  have h4 := h3.snoc (show State.op _ _ (.reset false (some 2)) = some _ from rfl)
  have h5 := h4.snoc (show State.op _ _ (.release false) = some _ from rfl)
  have h6 := h5.snoc (show State.op _ _ (.destroy false) = some _ from rfl)
  have h7 := h6.snoc (show State.op _ _ (.destroy true) = some _ from rfl)
  exact ⟨_, h7, rfl, rfl, (one_owner h7 (by decide)).1⟩

end UniquePtr
