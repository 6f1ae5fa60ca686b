import Mathlib.Data.Int.ModEq
import Mathlib.Data.List.Range
import Mathlib.Logic.Function.Basic
import Mathlib.Tactic.Common

/-!
# Windows of a circular buffer

`Circular.window N buf t n`: the `n` elements of the circular buffer `buf` of `N` slots that
start at slot `t`. Writing the slot after the window changes no element in it
(`window_update_end`); a window grows by that slot at the back (`window_succ`), and moving the start
past its first element drops that element (`window_cons`).
-/

namespace Circular

variable {α : Type*} {N t n : Nat} {buf : Nat → α}

/-- The `n` elements from slot `t` on, wrapping at `N`. -/
def window (N : Nat) (buf : Nat → α) (t n : Nat) : List α :=
  (List.range n).map fun i => buf ((t + i) % N)

@[simp] theorem window_length : (window N buf t n).length = n := by simp [window]

theorem window_mod : window N buf (t % N) n = window N buf t n := by
  simp [window, Nat.mod_add_mod]

theorem window_succ : window N buf t (n + 1) = window N buf t n ++ [buf ((t + n) % N)] := by
  simp [window, List.range_succ]

/-- The first element of a window and the rest. -/
theorem window_cons :
    window N buf t (n + 1) = buf (t % N) :: window N buf ((t + 1) % N) n := by
  rw [window_mod]
  simp only [window, List.range_succ_eq_map, List.map_cons, List.map_map, Nat.add_zero,
    List.cons.injEq, true_and]
  apply List.map_congr_left
  intro i _
  simp only [Function.comp_apply]
  congr 2
  omega

/-- The slot after a window that is not the whole buffer is none of the window's. -/
theorem slot_ne {i : Nat} (hi : i < n) (hn : n < N) : (t + i) % N ≠ (t + n) % N := fun he =>
  hi.ne ((Nat.ModEq.add_left_cancel' t he).eq_of_lt_of_lt (hi.trans hn) hn)

/-- Positions less than a round apart have different slots. -/
theorem mod_ne {p q : Nat} (hlt : p < q) (hq : q < p + N) : p % N ≠ q % N := by
  have h : (p + 0) % N ≠ (p + (q - p)) % N := slot_ne (by omega) (by omega)
  rwa [Nat.add_zero, Nat.add_sub_cancel' hlt.le] at h

theorem window_update_end (hn : n < N) (x : α) :
    window N (Function.update buf ((t + n) % N) x) t n = window N buf t n := by
  apply List.map_congr_left
  intro i hi
  rw [Function.update_of_ne (slot_ne (List.mem_range.1 hi) hn)]

end Circular
