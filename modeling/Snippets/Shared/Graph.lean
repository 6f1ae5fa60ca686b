import Snippets.Lib.Graph
import Snippets.Shared.Proof.Handles

/-!
# The ownership graph

Control blocks whose deleter has not run own an object, and the `shared_ptr` members of the object
own further blocks. The roots are the handles that are members of no object.
-/

namespace SharedPtr

variable {ι τ P D : Type*} (members : P → List ι) (s : State ι τ P D)

/-- Block `b` exists and its deleter has not run. -/
def Alive (b : Nat) : Prop := (∃ B, s.blocks b = some B) ∧ s.released b = 0

/-- The handle at `h` is a member of the object that block `b` owns. -/
def Member (b : Nat) (h : ι) : Prop :=
  ∃ B p, s.blocks b = some B ∧ B.p = some p ∧ s.released b = 0 ∧ h ∈ members p

/-- The handle at `h` is a `shared_ptr` on block `b`. -/
def On (h : ι) (b : Nat) : Prop := ∃ x, s.handles h = some x ∧ x.kind = .shared ∧ x.pb = some b

/-- A handle that is no member of an object is a `shared_ptr` on block `b`. -/
def Root (b : Nat) : Prop := ∃ h, On s h b ∧ ∀ a, ¬Member members s a h

/-- A member of the object that block `a` owns is a `shared_ptr` on block `b`. -/
def Owns (a b : Nat) : Prop := ∃ h, Member members s a h ∧ On s h b

/-- Block `b` is reachable through `shared_ptr` handles. -/
def Reachable : Nat → Prop := Graph.Reachable (Root members s) (Owns members s)

/-- No objects own each other in a circle. -/
def Acyclic : Prop := Graph.Acyclic (Owns members s)

/-- The handle a call on the stack is the destructor of. -/
def Frame.target : Frame ι → Option ι
  | .destruct h => some h
  | _ => none

/-- The handles about to be destroyed. -/
def pending : List ι := s.stack.filterMap Frame.target

/-- The members of the objects that exist are handles that exist, each of one object; so are the
handles about to be destroyed, which are members of none. -/
structure Objects : Prop where
  live : ∀ b h, Member members s b h → (s.handles h).isSome
  nodup : ∀ b B p, s.blocks b = some B → B.p = some p → s.released b = 0 → (members p).Nodup
  disjoint : ∀ a b h, Member members s a h → Member members s b h → a = b
  pending_nodup : (pending s).Nodup
  pending_live : ∀ h ∈ pending s, (s.handles h).isSome
  pending_free : ∀ h ∈ pending s, ∀ b, ¬Member members s b h

/-- A finite heap of handles, blocks and objects, between two operations. -/
structure Heap [DecidableEq ι] [Fintype ι] (cast : τ → τ → P → P) : Prop extends Idle cast s where
  objects : Objects members s

/-- An object whose members are handles that exist, of no other object, may be adopted. -/
def Source.Adoptable : Source ι τ P D → Prop
  | .adopt _ (some p) _ => (members p).Nodup ∧
      ∀ h ∈ members p, (s.handles h).isSome ∧ ∀ a, ¬Member members s a h
  | _ => True

/-- Dropping or overwriting one `shared_ptr`: members of objects are dropped by the objects. -/
def Op.Overwrites : Op ι τ P D → Prop
  | .destroy h => (∃ x, s.handles h = some x ∧ x.kind = .shared) ∧ ∀ a, ¬Member members s a h
  | .assign h src => (∃ x, s.handles h = some x ∧ x.kind = .shared) ∧ src.Applies s .shared ∧
      src.Adoptable members s
  | _ => False

/-- The object that holds the handle is reachable. -/
def HolderReachable (h : ι) : Prop := ∀ a, Member members s a h → Reachable members s a

/-- An operation from `s` to `s₁` that stores a handle or an object in a member of an object leaves
this object reachable, unless the handle was stored inside the object that the member owned. -/
def Op.KeepsHolder (s₁ : State ι τ P D) : Op ι τ P D → Prop
  | .assign h (.move other) =>
    (∃ b, On s h b ∧ Member members s b other) ∨ HolderReachable members s₁ h
  | .assign h (.adopt _ _ _) => HolderReachable members s₁ h
  | _ => True

end SharedPtr
