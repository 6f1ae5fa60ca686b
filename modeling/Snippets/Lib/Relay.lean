import Snippets.Lib.Lts

/-!
# Bounded relays

A relay takes a chunk of at most `cap` items when it holds nothing, and gives what it holds in
order, in pieces of any size. `relay cap` is its transition system, the state being what it holds.
What was taken is what was given followed by what is held (`taken_eq`), so what was given is a
prefix of what was taken (`given_prefix`) that lags by at most `cap` items (`taken_length_le`).
`run_taken_eq` is the same of a run from any state.
-/

namespace Relay

open Lts

variable {β : Type*}

/-- The relay takes a chunk, or gives a piece away. -/
inductive Event (β : Type*)
  | take (chunk : List β)
  | give (piece : List β)

/-- A chunk is taken only when nothing is held, and given away from its front. -/
inductive Step (cap : Nat) : List β → Event β → List β → Prop
  | take {chunk : List β} : chunk.length ≤ cap → Step cap [] (.take chunk) chunk
  | give {piece rest : List β} : Step cap (piece ++ rest) (.give piece) rest

/-- A relay of capacity `cap`, which holds nothing at first. -/
def relay (β : Type*) (cap : Nat) : System (List β) (Event β) where
  init held := held = []
  step := Step cap

/-- The items taken, in order. -/
def taken (es : List (Event β)) : List β :=
  es.flatMap fun
    | .take chunk => chunk
    | .give _ => []

/-- The items given, in order. -/
def given (es : List (Event β)) : List β :=
  es.flatMap fun
    | .take _ => []
    | .give piece => piece

variable {cap : Nat} {es : List (Event β)} {held : List β}

theorem relay_invariant (h : Exec (relay β cap) es held) :
    taken es = given es ++ held ∧ held.length ≤ cap := by
  refine h.trace_invariant (I := fun es held => taken es = given es ++ held ∧ held.length ≤ cap)
    (fun held h0 => ?_) fun es held e held' _ ⟨ih, hlen⟩ hs => ?_
  · obtain rfl : held = [] := h0
    exact ⟨rfl, Nat.zero_le _⟩
  · simp only [taken, given, List.flatMap_append, List.flatMap_singleton] at ih ⊢
    cases hs with
    | take hc => exact ⟨by simp [ih], hc⟩
    | give =>
      rw [List.length_append] at hlen
      exact ⟨by simp [ih], by omega⟩

/-- A run from any state gives what was held and what it takes, in order. -/
theorem run_taken_eq {held' : List β} (h : Run (relay β cap) held es held') :
    held ++ taken es = given es ++ held' := by
  induction h with
  | nil => simp [taken, given]
  | snoc _ hs ih =>
    simp only [taken, given, List.flatMap_append, List.flatMap_singleton] at ih ⊢
    cases hs with
    | take => simp [← ih]
    | give => simp [ih]

/-- Nothing is lost, duplicated or reordered. -/
theorem taken_eq (h : Exec (relay β cap) es held) : taken es = given es ++ held :=
  (relay_invariant h).1

theorem held_length_le (h : Exec (relay β cap) es held) : held.length ≤ cap :=
  (relay_invariant h).2

theorem given_prefix (h : Exec (relay β cap) es held) : given es <+: taken es :=
  ⟨held, (taken_eq h).symm⟩

theorem taken_length_le (h : Exec (relay β cap) es held) :
    (taken es).length ≤ (given es).length + cap := by
  rw [taken_eq h, List.length_append]
  exact Nat.add_le_add_left (held_length_le h) _

end Relay
