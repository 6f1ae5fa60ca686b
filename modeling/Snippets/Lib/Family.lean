import Snippets.Lib.Lts
import Mathlib.Algebra.Order.BigOperators.Group.List
import Mathlib.Algebra.Order.Ring.Nat

/-!
# Families of components

Components of one kind, made one after another and numbered in that order: `family M` is the system
of all members, each making steps of `M` on its own, in any interleaving. The run of a member is a
run of `M` (`Family.exec_member`), and where the steps of `M` lower a measure, those of the members
lower its sum (`Family.Step.sum_lt`).
-/

namespace Lts

variable {σ ℓ : Type*} {M : System σ ℓ}

namespace Family

/-- A member is made, or member `k` makes the step `l`. -/
inductive Label (ℓ : Type*)
  | make
  | step (k : Nat) (l : ℓ)

/-- A member is added in an initial state of `M`, or one of them makes a step of `M`. -/
inductive Step (M : System σ ℓ) : List σ → Label ℓ → List σ → Prop
  | make {xs : List σ} {x : σ} : M.init x → Step M xs .make (xs ++ [x])
  | step {l₁ l₂ : List σ} {x x' : σ} {l : ℓ} : M.step x l x' →
      Step M (l₁ ++ x :: l₂) (.step l₁.length l) (l₁ ++ x' :: l₂)

end Family

/-- The members, of which there are none at first. -/
def family (M : System σ ℓ) : System (List σ) (Family.Label ℓ) where
  init xs := xs = []
  step := Family.Step M

namespace Family

/-- What the label is for member `k`. -/
def Label.of (k : Nat) : Label ℓ → Option ℓ
  | .make => none
  | .step j l => if j = k then some l else none

/-- The steps of member `k`. -/
def own (k : Nat) (ls : List (Label ℓ)) : List ℓ := ls.filterMap (Label.of k)

variable {ls : List (Label ℓ)} {xs xs' : List σ} {x : σ} {k : Nat}

theorem own_snoc (k : Nat) (ls : List (Label ℓ)) (l : Label ℓ) :
    own k (ls ++ [l]) = own k ls ++ (l.of k).toList := by
  unfold own
  rw [List.filterMap_append]
  cases h : l.of k with
  | none => rw [List.filterMap_cons_none h]; rfl
  | some l' => rw [List.filterMap_cons_some h]; rfl

/-- Member `k` is made by the step, makes it, or is left as it is. -/
theorem Step.member {l : Label ℓ} (h : Step M xs l xs') (hx : xs'[k]? = some x) :
    (l = .make ∧ k = xs.length ∧ M.init x) ∨
      (∃ l' x₀, l = .step k l' ∧ xs[k]? = some x₀ ∧ M.step x₀ l' x) ∨
      (l.of k = none ∧ xs[k]? = some x) := by
  cases h with
  | @make _ x' h0 =>
    rw [List.getElem?_append] at hx
    split at hx
    · exact .inr (.inr ⟨rfl, hx⟩)
    · rename_i hk
      rw [List.getElem?_singleton] at hx
      split at hx
      · rename_i hzero
        cases hx
        exact .inl ⟨rfl, by omega, h0⟩
      · cases hx
  | @step l₁ l₂ y y' l hs =>
    rw [List.getElem?_append] at hx
    by_cases hk : k = l₁.length
    · subst hk
      rw [if_neg (Nat.lt_irrefl _), Nat.sub_self] at hx
      cases hx
      exact .inr (.inl ⟨l, y, rfl, by simp, hs⟩)
    · refine .inr (.inr ⟨if_neg (Ne.symm hk), ?_⟩)
      rw [← hx, List.getElem?_append]
      split
      · rfl
      · rw [List.getElem?_cons, List.getElem?_cons, if_neg (by omega), if_neg (by omega)]

theorem Step.length {l : Label ℓ} (h : Step M xs l xs') :
    xs'.length = xs.length + if l matches .make then 1 else 0 := by
  cases h with
  | make => rw [List.length_append]; rfl
  | step => rw [List.length_append, List.length_append]; rfl

/-- Who has not been made has made no step. -/
theorem own_eq_nil (h : Exec (family M) ls xs) (hk : xs.length ≤ k) : own k ls = [] := by
  refine h.trace_invariant (I := fun ls xs => ∀ k, xs.length ≤ k → own k ls = [])
    (fun _ _ _ _ => rfl) (fun ls xs l xs' _ hi hs k hk => ?_) k hk
  have hlen := hs.length
  rw [own_snoc, hi k (by omega)]
  cases hs with
  | make => rfl
  | @step l₁ l₂ =>
    rw [List.length_append, List.length_cons] at hk
    change (if l₁.length = k then some _ else none).toList = _
    rw [if_neg (by omega)]
    rfl

/-- **The run of a member is a run of the component.** -/
theorem exec_member (h : Exec (family M) ls xs) (hx : xs[k]? = some x) : Exec M (own k ls) x := by
  refine h.trace_invariant (I := fun ls xs => ∀ k x, xs[k]? = some x → Exec M (own k ls) x)
    (fun xs h0 k x hx => ?_) (fun ls xs l xs' h hi hs k x hx => ?_) k x hx
  · rw [show xs = [] from h0] at hx
    cases hx
  · rw [own_snoc]
    rcases hs.member hx with ⟨rfl, rfl, h0⟩ | ⟨l', x₀, rfl, hx₀, hs'⟩ | ⟨hnone, hx₀⟩
    · rw [own_eq_nil h (Nat.le_refl _)]
      exact .init h0
    · change Exec M (own k ls ++ (if k = k then some l' else none).toList) x
      rw [if_pos rfl]
      exact (hi k x₀ hx₀).snoc hs'
    · rw [hnone, Option.toList_none, List.append_nil]
      exact hi k x hx₀

/-- The step of a member lowers the sum of a measure that its steps lower. -/
theorem Step.sum_lt {I : σ → Prop} {m : σ → Nat}
    (hstep : ∀ x l x', I x → M.step x l x' → I x' ∧ m x' + 1 ≤ m x) {l : ℓ}
    (h : Step M xs (.step k l) xs') (hi : ∀ x ∈ xs, I x) :
    (∀ x ∈ xs', I x) ∧ (xs'.map m).sum + 1 ≤ (xs.map m).sum := by
  cases h with
  | @step l₁ l₂ y y' _ hs =>
    obtain ⟨hi', hlt⟩ := hstep _ _ _ (hi y (by simp)) hs
    constructor
    · intro x hx
      rcases List.mem_append.1 hx with hx | hx
      · exact hi x (List.mem_append_left _ hx)
      · rcases List.mem_cons.1 hx with rfl | hx
        · exact hi'
        · exact hi x (List.mem_append_right _ (List.mem_cons_of_mem _ hx))
    · simp only [List.map_append, List.map_cons, List.sum_append, List.sum_cons]
      omega

end Family

end Lts
