import Mathlib.Algebra.BigOperators.Group.Finset.Basic
import Mathlib.Algebra.Order.BigOperators.Group.Finset
import Mathlib.Data.Fintype.Basic

/-!
# Counting over a family of threads

`Threads.total w f`: the sum over all threads of the weight `w` of each thread's local state.
With weights 0 and 1 it counts the threads in a condition. `total_update` is how a total changes
when one thread moves, `total_le_add_card` bounds it when all do; `total_eq_zero` and
`exists_of_total_pos` go between the total and the threads.
-/

namespace Threads

variable {ι α : Type*} [Fintype ι]

/-- The total weight of the threads' local states. -/
def total (w : α → Nat) (f : ι → α) : Nat := ∑ i, w (f i)

theorem le_total (w : α → Nat) (f : ι → α) (i : ι) : w (f i) ≤ total w f :=
  Finset.single_le_sum (f := fun i => w (f i)) (fun _ _ => Nat.zero_le _) (Finset.mem_univ i)

theorem total_eq_zero {w : α → Nat} {f : ι → α} : total w f = 0 ↔ ∀ i, w (f i) = 0 := by
  simp [total]

theorem exists_of_total_pos {w : α → Nat} {f : ι → α} (h : 0 < total w f) : ∃ i, 0 < w (f i) := by
  by_contra hn
  have h0 : total w f = 0 := total_eq_zero.2 fun i =>
    Nat.eq_zero_of_not_pos fun hi => hn ⟨i, hi⟩
  omega

theorem total_congr {w : α → Nat} {f g : ι → α} (h : ∀ i, w (f i) = w (g i)) :
    total w f = total w g := Finset.sum_congr rfl fun i _ => h i

/-- Every thread gains at most one. -/
theorem total_le_add_card {w : α → Nat} {f g : ι → α} (h : ∀ i, w (g i) ≤ w (f i) + 1) :
    total w g ≤ total w f + Fintype.card ι := by
  have hsum : ∑ i, w (g i) ≤ ∑ i, (w (f i) + 1) := Finset.sum_le_sum fun i _ => h i
  rw [Finset.sum_add_distrib, Finset.sum_const, Finset.card_univ, Nat.nsmul_eq_mul,
    Nat.mul_one] at hsum
  exact hsum

variable [DecidableEq ι]

/-- One thread moves. -/
theorem total_update (w : α → Nat) (f : ι → α) (i : ι) (x : α) :
    total w (Function.update f i x) + w (f i) = total w f + w x := by
  have h1 := Finset.add_sum_erase Finset.univ (fun j => w (f j)) (Finset.mem_univ i)
  have h2 := Finset.add_sum_erase Finset.univ (fun j => w (Function.update f i x j))
    (Finset.mem_univ i)
  have h3 : ∑ j ∈ Finset.univ.erase i, w (Function.update f i x j) =
      ∑ j ∈ Finset.univ.erase i, w (f j) :=
    Finset.sum_congr rfl fun j hj => by rw [Function.update_of_ne (Finset.ne_of_mem_erase hj)]
  simp only [Function.update_self] at h2
  unfold total
  omega

/-- Two threads move together. -/
theorem total_update_two (w : α → Nat) (f : ι → α) {i j : ι} (hij : i ≠ j) (x y : α) :
    total w (Function.update (Function.update f i x) j y) + w (f i) + w (f j) =
      total w f + w x + w y := by
  have h1 := total_update w f i x
  have h2 := total_update w (Function.update f i x) j y
  rw [Function.update_of_ne hij.symm] at h2
  omega

/-- A move between local states of the same weight keeps the total. -/
theorem total_update_same {w : α → Nat} {f : ι → α} {i : ι} {x : α} (h : w x = w (f i)) :
    total w (Function.update f i x) = total w f := by
  have := total_update w f i x
  omega

end Threads
