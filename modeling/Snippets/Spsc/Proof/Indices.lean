import Snippets.Spsc.Proof.Linear
import Snippets.Spsc.Queries

/-!
# The indices over a run

`Step.indices`: the store of a push moves `head_` to the next slot, the store of a pop moves
`tail_`, no other step touches an index. So over a run `head_` goes round by the pushes accepted
and `tail_` by the elements taken, and the number of elements changes by their difference
(`run_indices`).

The runs of the ring buffer with queries are runs of the ring buffer (`observed_run`,
`observed_ring`).
-/

namespace Spsc

open Lts

variable {T : Type*} {Capacity : Nat}

/-! ## One step -/

/-- **What a step does to the indices.** -/
inductive Moves (Capacity : Nat) (s : State T) (l : Label T) (s' : State T) : Prop
  | push (hl : l.accepts = true) (hl' : l.takes = false) (prod : s.prod ≠ .idle)
      (head : s'.head = nextIndex Capacity s.head) (tail : s'.tail = s.tail)
      (room : count Capacity s.head s.tail < Capacity)
  | pop (hl : l.takes = true) (hl' : l.accepts = false) (cons : s.cons ≠ .idle)
      (head : s'.head = s.head) (tail : s'.tail = nextIndex Capacity s.tail)
      (some : 0 < count Capacity s.head s.tail)
  | none (hl : l.accepts = false) (hl' : l.takes = false) (head : s'.head = s.head)
      (tail : s'.tail = s.tail)

theorem Step.indices {s s' : State T} {l : Label T} (hi : Inv Capacity s)
    (hs : Step Capacity s l s') : Moves Capacity s l s' := by
  cases hs with
  | pushStore h =>
    have hp := hi.prod
    rw [h] at hp
    obtain ⟨rfl, hlt, -⟩ := hp
    exact .push rfl rfl (by rw [h]; nofun) rfl rfl hlt
  | popStore h =>
    have hc := hi.cons
    rw [h] at hc
    obtain ⟨rfl, hpos, -⟩ := hc
    exact .pop rfl rfl (by rw [h]; nofun) rfl rfl hpos
  | _ => exact .none rfl rfl rfl rfl

section
variable (hC : Capacity + 1 < 2 ^ 64)
include hC

/-! ## Runs -/

theorem run_inv {s s' : State T} {ls : List (Label T)} (h : Run (ring T Capacity) s ls s')
    (hi : Inv Capacity s) : Inv Capacity s' :=
  h.invariant (I := Inv Capacity) (fun _ _ _ hi hs => Step.inv hC hi hs) hi

/-- The indices and the number of elements at the end of a run. -/
theorem run_indices {s s' : State T} {ls : List (Label T)} (h : Run (ring T Capacity) s ls s')
    (hi : Inv Capacity s) :
    s'.head = (s.head + ls.countP Label.accepts) % (Capacity + 1) ∧
      s'.tail = (s.tail + ls.countP Label.takes) % (Capacity + 1) ∧
      count Capacity s'.head s'.tail + ls.countP Label.takes =
        count Capacity s.head s.tail + ls.countP Label.accepts := by
  induction h with
  | nil =>
    have hh := hi.head
    have ht := hi.tail
    simp only [List.countP_nil, Nat.add_zero, and_true]
    exact ⟨(Nat.mod_eq_of_lt (by omega)).symm, (Nat.mod_eq_of_lt (by omega)).symm⟩
  | snoc h hs ih =>
    obtain ⟨ihh, iht, ihc⟩ := ih
    have hi' := run_inv hC h hi
    simp only [List.countP_append, List.countP_singleton]
    cases hs.indices hi' with
    | push hl hl' _ hh ht hroom =>
      rw [hl, hl', hh, ht, count_push hC hi'.head hi'.tail hroom, nextIndex_eq_mod hC hi'.head]
      refine ⟨?_, iht, by simp; omega⟩
      rw [ihh, Nat.mod_add_mod]
      rfl
    | pop hl hl' _ hh ht hsome =>
      rw [hl, hl', hh, ht, count_pop hC hi'.head hi'.tail hsome, nextIndex_eq_mod hC hi'.tail]
      refine ⟨ihh, ?_, by simp; omega⟩
      rw [iht, Nat.mod_add_mod]
      rfl
    | none hl hl' hh ht =>
      rw [hl, hl', hh, ht]
      exact ⟨ihh, iht, by simpa using ihc⟩

end

/-! ## With queries -/

theorem seen_run {s s' : Observed T} {l : Seen T} (h : SeenStep Capacity s l s') :
    Run (ring T Capacity) s.ring l.toRing s'.ring := by
  cases h with
  | ring hs _ => exact .single hs
  | _ => exact .nil _

theorem observed_run {s s' : Observed T} {ls : List (Seen T)}
    (h : Run (observed T Capacity) s ls s') :
    Run (ring T Capacity) s.ring (ls.flatMap Seen.toRing) s'.ring :=
  h.project fun _ _ _ => seen_run

theorem observed_ring {s : Observed T} {ls : List (Seen T)} (h : Exec (observed T Capacity) ls s) :
    Exec (ring T Capacity) (ls.flatMap Seen.toRing) s.ring :=
  h.project (fun _ h0 => And.left h0) fun _ _ _ => seen_run

theorem observed_inv (hC : Capacity + 1 < 2 ^ 64) {s : Observed T} {ls : List (Seen T)}
    (h : Exec (observed T Capacity) ls s) : Inv Capacity s.ring :=
  ring_inv hC (observed_ring h)

/-! ## Answers -/

section
variable (hC : Capacity + 1 < 2 ^ 64) {h t : Nat} (hh : h ≤ Capacity) (ht : t ≤ Capacity)
include hC hh ht

theorem size_eq_count : size Capacity h t = count Capacity h t := by
  unfold size count
  split
  · rfl
  · rw [Nat.mod_eq_of_lt hC, show Capacity + 1 + (2 ^ 64 - (t - h)) =
      Capacity + 1 - (t - h) + 2 ^ 64 by omega, Nat.add_mod_right, Nat.mod_eq_of_lt (by omega)]

theorem isFull_iff : isFull Capacity h t = true ↔ count Capacity h t = Capacity := by
  unfold isFull
  rw [beq_iff_eq, nextIndex_eq_tail hC hh ht]

omit hC hh in
theorem isEmpty_iff : isEmpty h t = true ↔ count Capacity h t = 0 := by
  unfold isEmpty
  rw [beq_iff_eq, count_eq_zero ht, eq_comm]

/-- An answer is true of the number of elements between the indices it was computed from. -/
theorem answer_trueOf (q : Query) :
    (answer Capacity q h t).TrueOf Capacity q (count Capacity h t) := by
  cases q with
  | size => exact size_eq_count hC hh ht
  | isFull => exact isFull_iff hC hh ht
  | isEmpty => exact isEmpty_iff ht

end

end Spsc
