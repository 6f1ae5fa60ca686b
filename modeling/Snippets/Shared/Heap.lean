import Snippets.Shared.Graph

/-!
# Heaps with cycles

Sequences of operations on handles of which any may be members of objects. The client destroys no
member of an object that exists (the object does), and adopts objects whose members are handles that
exist, of no other object. Objects may own each other.
-/

namespace SharedPtr

open Lts

variable {ι τ P D : Type*} (members : P → List ι) (s : State ι τ P D)

/-- Block `b` is reachable through `shared_ptr` handles, from a root or from a cycle. -/
def Kept : Nat → Prop := Graph.Kept (Root members s) (Owns members s)

/-- The operation leaves the members of an object to this object. -/
def Op.Orderly : Op ι τ P D → Prop
  | .construct _ _ _ src | .assign _ src => src.Adoptable members s
  | .swap _ _ => True
  | .destroy h => ∀ a, ¬Member members s a h

/-- What an operation from `s`, with its destructors started in `s₁`, has done in the end. -/
structure Freed [DecidableEq ι] [Fintype ι] (cast : τ → τ → P → P) (s s₁ s' : State ι τ P D) :
    Prop where
  kept : ∀ b, Alive s' b ↔ Kept members s₁ b
  /-- the deleters of the other objects are called, each once -/
  calls : ∃ new, s'.log = s.log ++ new ∧ (new.map (·.block)).Nodup ∧
    ∀ b, b ∈ new.map (·.block) ↔ Alive s₁ b ∧ ¬Kept members s₁ b
  /-- the counters are the numbers of handles -/
  sound : Sound cast s'
  destroyed : ∀ b B, s'.blocks b = some B →
    (B.destroyed = true ↔ s'.count .shared b = 0 ∧ s'.count .weak b = 0)

/-- Sequences of operations that start without handles. -/
def heap [DecidableEq ι] [DecidableEq τ] (cast : τ → τ → P → P) (members : P → List ι) :
    System (State ι τ P D) (Op ι τ P D) where
  init s := s = ⟨fun _ => none, fun _ => none, 0, [], []⟩
  step s op s' := op.Orderly members s ∧ s.Does cast members op s'

end SharedPtr
