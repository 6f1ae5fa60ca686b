import Mathlib.Data.List.Basic
import Mathlib.Data.List.Dedup
import Mathlib.Data.List.Perm.Subperm
import Mathlib.Tactic.Common

/-!
# Recency lists

A list in order of last use, the most recent element first. `Recency.front a l`: `a` was used
now. The first `n` elements of the list after a use are determined by the first `n` before it
(`take_front_of_mem`, `take_front_of_notMem`), so a bounded recency list can be kept without the
rest. An element moves back by one for each other element used (`Ahead`), and of two bounded
lists of the same uses the shorter one stays a sublist of the longer one (`Inside`).
-/

namespace Recency

variable {α β : Type*} [DecidableEq α] [DecidableEq β] {a b : α} {l : List α} {n : Nat}

/-- `a` moved, or added, to the front. -/
def front (a : α) (l : List α) : List α := a :: l.erase a

@[simp] theorem mem_front : b ∈ front a l ↔ b = a ∨ b ∈ l := by
  by_cases hb : b = a
  · simp [front, hb]
  · simp [front, hb, List.mem_erase_of_ne hb]

theorem nodup_front (h : l.Nodup) : (front a l).Nodup :=
  List.nodup_cons.2 ⟨h.not_mem_erase, h.erase a⟩

theorem front_perm (h : a ∈ l) : (front a l).Perm l := (List.perm_cons_erase h).symm

theorem length_front (h : a ∈ l) : (front a l).length = l.length := (front_perm h).length_eq

/-! ## Bounded lists -/

/-- Using one of the first `n` elements only reorders them. -/
theorem take_front_of_mem (h : a ∈ l.take n) : (front a l).take n = front a (l.take n) := by
  have hfront : front a l = front a (l.take n) ++ l.drop n := by
    conv_lhs => rw [front, ← List.take_append_drop n l, List.erase_append_left _ h]
    rfl
  have hlen : (front a (l.take n)).length = min n l.length := by
    rw [length_front h, List.length_take]
  rw [hfront]
  rcases Nat.le_total l.length n with hle | hle
  · rw [List.drop_eq_nil_of_le hle, List.append_nil, List.take_of_length_le (by omega)]
  · rw [List.take_append_of_le_length (by omega), List.take_of_length_le (by omega)]

/-- Using another element makes room for it at the back, if there is none. -/
theorem take_front_of_notMem (h : a ∉ l.take n) (hn : 0 < n) :
    (front a l).take n = a :: (l.take n).take (n - 1) := by
  obtain ⟨m, rfl⟩ : ∃ m, n = m + 1 := ⟨n - 1, by omega⟩
  have herase : l.erase a = l.take (m + 1) ++ (l.drop (m + 1)).erase a := by
    conv_lhs => rw [← List.take_append_drop (m + 1) l, List.erase_append_right _ h]
  rw [front, List.take_succ_cons, herase, Nat.add_sub_cancel]
  congr 1
  rcases Nat.lt_or_ge m l.length with hlt | hle
  · rw [List.take_append_of_le_length (by simp; omega)]
  · rw [List.drop_eq_nil_of_le (by omega), List.erase_nil, List.append_nil]

/-! ## How far back an element is -/

/-- Whatever is before `a` in the list is among `xs`. -/
def Ahead (a : α) (xs l : List α) : Prop := ∃ pre post, l = pre ++ a :: post ∧ ∀ b ∈ pre, b ∈ xs

theorem ahead_front (a : α) (xs l : List α) : Ahead a xs (front a l) := ⟨[], l.erase a, rfl, nofun⟩

omit [DecidableEq α] in
theorem Ahead.mono {xs ys : List α} (h : Ahead a xs l) (hs : xs ⊆ ys) : Ahead a ys l := by
  obtain ⟨pre, post, hl, hpre⟩ := h
  exact ⟨pre, post, hl, fun b hb => hs (hpre b hb)⟩

/-- Another element is used. -/
theorem Ahead.front {xs : List α} (h : Ahead a xs l) (hb : b ≠ a) :
    Ahead a (b :: xs) (front b l) := by
  obtain ⟨pre, post, rfl, hpre⟩ := h
  have hmem : ∀ c ∈ b :: pre.erase b, c ∈ b :: xs := by
    intro c hc
    rcases List.mem_cons.1 hc with rfl | hc
    · exact List.mem_cons_self
    · exact List.mem_cons_of_mem _ (hpre c (List.mem_of_mem_erase hc))
  by_cases hbp : b ∈ pre
  · exact ⟨b :: pre.erase b, post, by rw [Recency.front, List.erase_append_left _ hbp]; rfl, hmem⟩
  · refine ⟨b :: pre.erase b, post.erase b, ?_, hmem⟩
    rw [Recency.front, List.erase_append_right _ hbp, List.erase_cons_tail (by simpa using hb.symm),
      List.erase_of_not_mem hbp]
    rfl

/-- An element with less than `n` elements before it is among the first `n`. -/
theorem Ahead.mem_take {xs : List α} (h : Ahead a xs l) (hl : l.Nodup)
    (hn : xs.dedup.length < n) : a ∈ l.take n := by
  obtain ⟨pre, post, rfl, hpre⟩ := h
  have hsub : pre ⊆ xs.dedup := fun b hb => List.mem_dedup.2 (hpre b hb)
  have hlen := (List.subperm_of_subset (List.nodup_append.1 hl).1 hsub).length_le
  obtain ⟨m, hm⟩ : ∃ m, n - pre.length = m + 1 := ⟨n - pre.length - 1, by omega⟩
  rw [List.take_append, hm, List.take_succ_cons]
  simp

/-! ## Two bounds -/

/-- The list bounded by `m` next to one with a larger bound. -/
structure Inside (m : Nat) (l l' : List α) : Prop where
  sublist : l.Sublist l'
  length : l.length = min m l'.length

section
variable {l' : List α} {m : Nat}

/-- An element that both have is used. -/
theorem Inside.front (h : Inside m l l') (ha : a ∈ l) : Inside m (front a l) (front a l') where
  sublist := (h.sublist.erase a).cons_cons a
  length := by rw [length_front ha, length_front (h.sublist.subset ha), h.length]

/-- An element that only the longer list has is used in that list only. -/
theorem Inside.front_right (h : Inside m l l') (ha : a ∉ l) (ha' : a ∈ l') :
    Inside m l (Recency.front a l') where
  sublist := by
    have := h.sublist.erase a
    rw [List.erase_of_not_mem ha] at this
    exact this.cons a
  length := by rw [length_front ha', h.length]

/-- An element that only the longer list has comes into the shorter one. -/
theorem Inside.add_left (h : Inside m l l') (hm : 0 < m) (ha : a ∉ l) (ha' : a ∈ l') :
    Inside m (a :: l.take (m - 1)) (Recency.front a l') where
  sublist := by
    have := h.sublist.erase a
    rw [List.erase_of_not_mem ha] at this
    exact ((List.take_sublist _ _).trans this).cons_cons a
  length := by
    -- the shorter list lacks an element of the longer one, so it is full
    have hlen : l.length < l'.length := by
      refine Nat.lt_of_le_of_ne h.sublist.length_le fun he => ha ?_
      rwa [h.sublist.eq_of_length he]
    have hl := h.length
    rw [length_front ha', List.length_cons, List.length_take]
    omega

omit [DecidableEq α] in
/-- A new element comes into both. -/
theorem Inside.add (h : Inside m l l') (hm : 0 < m) (hmn : m ≤ n) (hn : l'.length ≤ n) :
    Inside m (a :: l.take (m - 1)) (a :: l'.take (n - 1)) where
  sublist := by
    refine List.Sublist.cons_cons a ?_
    have hl := h.length
    rcases Nat.lt_or_ge l'.length n with hlt | hge
    · rw [List.take_of_length_le (show l'.length ≤ n - 1 by omega)]
      exact (List.take_sublist _ _).trans h.sublist
    · -- both are full and lose their last elements
      have hlm : l.length = m := by omega
      have hln : l'.length = n := by omega
      rw [← hlm, ← hln, ← List.dropLast_eq_take, ← List.dropLast_eq_take]
      have hrev := h.sublist.reverse.tail
      rw [List.tail_reverse, List.tail_reverse] at hrev
      exact List.reverse_sublist.1 hrev
  length := by
    have hl := h.length
    rw [List.length_cons, List.length_cons, List.length_take, List.length_take]
    omega

/-- The same element is used in both. -/
theorem Inside.use (h : Inside m (l.take m) (l'.take n)) (hm : 0 < m) (hmn : m ≤ n) (a : α) :
    Inside m ((Recency.front a l).take m) ((Recency.front a l').take n) := by
  by_cases ha' : a ∈ l'.take n
  · rw [take_front_of_mem ha']
    by_cases ha : a ∈ l.take m
    · rw [take_front_of_mem ha]
      exact h.front ha
    · rw [take_front_of_notMem ha hm]
      exact h.add_left hm ha ha'
  · have ha : a ∉ l.take m := fun hm => ha' (h.sublist.subset hm)
    rw [take_front_of_notMem ha hm, take_front_of_notMem ha' (Nat.lt_of_lt_of_le hm hmn)]
    exact h.add hm hmn (List.length_take_le _ _)

end

/-! ## Images -/

/-- The image of a recency list under a partial map that is injective at the element used. -/
theorem filterMap_front {f : α → Option β} {y : β} (ha : a ∈ l) (hf : f a = some y)
    (hinj : ∀ b ∈ l, f b = some y → b = a) :
    (front a l).filterMap f = front y (l.filterMap f) := by
  have herase : (l.erase a).filterMap f = (l.filterMap f).erase y := by
    induction l with
    | nil => cases ha
    | cons b l ih =>
      by_cases hb : b = a
      · subst hb
        simp [hf]
      · have hal : a ∈ l := by simpa [Ne.symm hb] using ha
        have hne : f b ≠ some y := fun he => hb (hinj b (by simp) he)
        rw [List.erase_cons_tail (by simpa using hb)]
        specialize ih hal fun b' hb' => hinj b' (by simp [hb'])
        cases hfb : f b with
        | none => simpa [hfb] using ih
        | some z =>
          have hz : z ≠ y := fun he => hne (by rw [hfb, he])
          simp [hfb, ih, List.erase_cons_tail, hz]
  rw [front, List.filterMap_cons_some hf, herase]
  rfl

end Recency
