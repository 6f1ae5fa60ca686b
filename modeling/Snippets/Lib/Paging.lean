import Mathlib.Algebra.BigOperators.Group.Finset.Basic
import Mathlib.Data.Finset.Card
import Snippets.Lib.Recency

/-!
# LRU against any other schedule

`lru n a l`: the element `a` is requested from a cache that keeps the `n` most recently used
elements, `l` before. Another cache serves the same requests in any way, with the whole request
sequence known: it holds `held i` before the request `i`, and `loads` is what it had to load.

`lru_step` charges every miss of the first cache to a load of the other one by a potential: an
element of the first cache that the other one lacks counts its distance from the end of the list.
A miss moves all of these one step towards the end, and there are more than `n - b` of them if the
other cache holds `b` elements at most.
-/

namespace Paging

open Recency

variable {α : Type*} [DecidableEq α] {a : α} {l l' : List α} {held held₁ : Finset α} {n b : Nat}

/-- The cache after a request of `a`. -/
def lru (n : Nat) (a : α) (l : List α) : List α :=
  if a ∈ l then front a l else a :: l.take (n - 1)

/-- The elements loaded in the first `m` requests. -/
def loads (held : Nat → Finset α) (m : Nat) : Nat :=
  ∑ i ∈ Finset.range m, (held (i + 1) \ held i).card

theorem loads_succ (held : Nat → Finset α) (m : Nat) :
    loads held (m + 1) = loads held m + (held (m + 1) \ held m).card :=
  Finset.sum_range_succ _ m

/-- Each element that the other cache lacks counts its distance from the end. -/
def potential (held : Finset α) : List α → Nat
  | [] => 0
  | a :: l => (if a ∈ held then 0 else l.length + 1) + potential held l

/-! ## The potential -/

theorem potential_le_of_sublist (held : Finset α) (h : l.Sublist l') :
    potential held l ≤ potential held l' := by
  induction h with
  | slnil => exact Nat.le_refl _
  | cons a _ ih => exact Nat.le_trans ih (Nat.le_add_left _ _)
  | cons_cons a hsub ih =>
    have hlen := hsub.length_le
    unfold potential
    split
    · omega
    · omega

theorem potential_cons_of_mem (ha : a ∈ held) : potential held (a :: l) = potential held l := by
  rw [potential, if_pos ha, Nat.zero_add]

/-- Dropping the last element moves the others one step towards the end. -/
theorem potential_concat (x : α) : potential held (l ++ [x]) =
    potential held l + (l ++ [x]).countP (· ∉ held) := by
  induction l with
  | nil => by_cases hx : x ∈ held <;> simp [potential, hx]
  | cons a l ih =>
    rw [List.cons_append, potential, potential, ih, List.countP_cons, List.length_append,
      List.length_singleton]
    by_cases ha : a ∈ held
    · simp only [ha, not_true_eq_false, decide_false, Bool.false_eq_true, if_true, if_false]
      omega
    · simp only [ha, not_false_eq_true, decide_true, if_true, if_false]
      omega

/-- The other cache drops elements. -/
theorem potential_le_of_drop (held held₁ : Finset α) (hlen : l.length ≤ n) :
    potential held₁ l ≤ potential held l + n * l.countP (· ∈ held \ held₁) := by
  induction l with
  | nil => exact Nat.zero_le _
  | cons a l ih =>
    rw [List.length_cons] at hlen
    have ih := ih (Nat.le_of_succ_le hlen)
    rw [potential, potential, List.countP_cons, Nat.mul_add]
    by_cases ha' : a ∈ held₁
    · rw [if_pos ha']
      omega
    · by_cases ha : a ∈ held
      · have hmem : a ∈ held \ held₁ := Finset.mem_sdiff.2 ⟨ha, ha'⟩
        simp only [ha, ha', hmem, if_true, if_false, decide_true, Nat.mul_one]
        omega
      · rw [if_neg ha', if_neg ha]
        omega

theorem countP_mem_le (h : l.Nodup) (s : Finset α) : l.countP (· ∈ s) ≤ s.card := by
  rw [List.countP_eq_length_filter, ← List.toFinset_card_of_nodup (h.filter _)]
  refine Finset.card_le_card fun x hx => ?_
  simpa using (List.mem_filter.1 (List.mem_toFinset.1 hx)).2

/-- A cache that lacks an element the other one holds has elements the other one lacks. -/
theorem lt_countP_notMem (h : l.Nodup) (ha : a ∉ l) (ha' : a ∈ held) (hb : held.card ≤ b) :
    l.length + 1 ≤ l.countP (· ∉ held) + b := by
  have hsplit := List.length_eq_countP_add_countP (· ∈ held) (l := l)
  have herase : l.countP (· ∈ held) = l.countP (· ∈ held.erase a) := by
    refine List.countP_congr fun x hx => ?_
    have hne : x ≠ a := fun he => ha (he ▸ hx)
    simp [hne]
  have hle := countP_mem_le h (held.erase a)
  have hcard := Finset.card_erase_add_one ha'
  rw [herase] at hsplit
  simp only [decide_eq_true_eq] at hsplit
  omega

/-! ## One request -/

/-- The other cache moves to what it holds next. -/
theorem potential_move (held held₁ : Finset α) (h : l.Nodup) (hlen : l.length ≤ n) :
    potential held₁ l + n * held₁.card ≤
      potential held l + n * held.card + n * (held₁ \ held).card := by
  have hdrop := potential_le_of_drop held held₁ hlen
  have hcount := Nat.mul_le_mul_left n (countP_mem_le h (held \ held₁))
  have hcard : (held \ held₁).card + held₁.card = (held₁ \ held).card + held.card := by
    rw [Finset.card_sdiff_add_card, Finset.card_sdiff_add_card, Finset.union_comm]
  have hmul := congrArg (n * ·) hcard
  simp only [Nat.mul_add] at hmul
  omega

/-- The bounded recency list moves by `lru`. -/
theorem take_front (hn : 0 < n) : (front a l).take n = lru n a (l.take n) := by
  unfold lru
  split
  · rename_i hal
    exact take_front_of_mem hal
  · rename_i hal
    exact take_front_of_notMem hal hn

/-- A request that both caches serve, the other one with what it holds then. -/
theorem lru_step (h : l.Nodup) (hlen : l.length ≤ n) (hn : 0 < n) (ha : a ∈ held)
    (hb : held.card ≤ b) :
    (n + 1 - b) * (if a ∈ l then 0 else 1) + potential held (lru n a l) + (n + 1 - b) * l.length ≤
      potential held l + (n + 1 - b) * (lru n a l).length := by
  unfold lru
  by_cases hal : a ∈ l
  · have hsub := potential_le_of_sublist held (List.erase_sublist (a := a) (l := l))
    rw [if_pos hal, if_pos hal, length_front hal, front, potential_cons_of_mem ha]
    omega
  · rw [if_neg hal, if_neg hal, potential_cons_of_mem ha, List.length_cons, Nat.mul_one]
    rcases Nat.lt_or_ge l.length n with hlt | hge
    · -- there is room: the miss pays for the longer list
      rw [List.take_of_length_le (Nat.le_sub_one_of_lt hlt), Nat.mul_add]
      omega
    · -- the last element goes, and the others that only this cache has move up to the end
      have hne : l ≠ [] := List.ne_nil_of_length_pos (Nat.lt_of_lt_of_le hn hge)
      obtain ⟨init, x, rfl⟩ : ∃ init x, l = init ++ [x] :=
        ⟨l.dropLast, l.getLast hne, (List.dropLast_append_getLast hne).symm⟩
      have hcount := lt_countP_notMem h hal ha hb
      have hinit : init.length = n - 1 := by
        rw [List.length_append, List.length_singleton] at hlen hge
        omega
      rw [potential_concat, ← hinit, List.take_left]
      rw [List.length_append, List.length_singleton] at hcount ⊢
      have hle : n + 1 - b ≤ (init ++ [x]).countP (· ∉ held) := by omega
      omega

end Paging
