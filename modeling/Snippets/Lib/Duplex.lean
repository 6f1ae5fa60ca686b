import Snippets.Lib.Lts

/-!
# Duplex links

A connection between two ends that carries items both ways, each way in order: `up` is on the way
from the near end to the far one, `down` the other way. An end writes items and reads the first ones
that have come, in pieces of any size. What is read at an end is a prefix of what was written at the
other one; the rest is on the way (`link_conserves`).
-/

namespace Duplex

open Lts

variable {α : Type*}

/-- What is on the way, the first to arrive in front. -/
structure Link (α : Type*) where
  up : List α
  down : List α

/-- What the two ends do. -/
inductive Event (α : Type*)
  /-- the near end writes -/
  | writeUp (piece : List α)
  /-- the far end reads -/
  | readUp (piece : List α)
  /-- the far end writes -/
  | writeDown (piece : List α)
  /-- the near end reads -/
  | readDown (piece : List α)

/-- Writes go to the back of what is on the way, reads take from the front. -/
inductive Step (s : Link α) : Event α → Link α → Prop
  | writeUp {piece : List α} : Step s (.writeUp piece) { s with up := s.up ++ piece }
  | readUp {piece rest : List α} : s.up = piece ++ rest →
      Step s (.readUp piece) { s with up := rest }
  | writeDown {piece : List α} : Step s (.writeDown piece) { s with down := s.down ++ piece }
  | readDown {piece rest : List α} : s.down = piece ++ rest →
      Step s (.readDown piece) { s with down := rest }

/-- A link with nothing on the way at first. -/
def link (α : Type*) : System (Link α) (Event α) where
  init s := s = ⟨[], []⟩
  step := Step

/-! ## What is written and read -/

/-- The items that the near end writes. -/
def upIn (es : List (Event α)) : List α :=
  es.flatMap fun
    | .writeUp piece => piece
    | _ => []

/-- The items that the far end reads. -/
def upOut (es : List (Event α)) : List α :=
  es.flatMap fun
    | .readUp piece => piece
    | _ => []

/-- The items that the far end writes. -/
def downIn (es : List (Event α)) : List α :=
  es.flatMap fun
    | .writeDown piece => piece
    | _ => []

/-- The items that the near end reads. -/
def downOut (es : List (Event α)) : List α :=
  es.flatMap fun
    | .readDown piece => piece
    | _ => []

variable {es : List (Event α)} {s : Link α}

/-- Nothing is lost, duplicated or reordered. -/
theorem link_conserves (h : Exec (link α) es s) :
    upIn es = upOut es ++ s.up ∧ downIn es = downOut es ++ s.down := by
  refine h.trace_invariant
    (I := fun es s => upIn es = upOut es ++ s.up ∧ downIn es = downOut es ++ s.down)
    (fun s (h0 : s = _) => by rw [h0]; exact ⟨rfl, rfl⟩) fun es s e s' _ ⟨hup, hdown⟩ hs => ?_
  simp only [upIn, upOut, downIn, downOut, List.flatMap_append, List.flatMap_singleton]
    at hup hdown ⊢
  cases hs with
  | writeUp | writeDown => simp [hup, hdown]
  | readUp hs | readDown hs => simp [hup, hdown, hs]

end Duplex
