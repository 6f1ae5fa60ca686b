import Mathlib.Logic.Function.Basic
import Snippets.Lib.Lts

/-!
# `unique_ptr`

The handles of `null/unique_ptr.h`. Every operation is built as in the source: a temporary is
constructed, swapped with `*this` (deleter and pointer together) and destroyed.

A handle's owned pointer carries a ghost: the deleter that should delete it, fixed when the
pointer is adopted. `deleted` logs the calls of deleters, `released` what `release` handed back.
Handles are named by `ι`; each has a type in `τ`, which decides what its deleter type does by
default, in conversions and when moved from.
-/

namespace UniquePtr

open Lts

variable {ι τ P D : Type*}

/-- An adopted pointer and the deleter that should delete it. -/
structure Owned (P D : Type*) where
  ptr : P
  right : D
  deriving DecidableEq

/-- A `unique_ptr`: the deleter it derives from and `p_`. -/
structure Handle (τ P D : Type*) where
  type : τ
  deleter : D
  p : Option (Owned P D)
  deriving DecidableEq

/-- A call of the deleter `used` on a pointer. -/
structure Deletion (P D : Type*) where
  ptr : P
  right : D
  used : D
  deriving DecidableEq

/-- What the deleter types of the handle types do. -/
structure Deleters (τ D : Type*) where
  /-- `base_type{}` -/
  default : τ → D
  /-- `base_type{ std::move (d) }`, from a deleter of the first type to one of the second -/
  convert : τ → τ → D → D
  /-- what is left of a deleter that was moved from -/
  movedFrom : τ → D → D

/-- The handles by location, the calls of deleters, and the pointers given away by `release ()`. -/
structure State (ι τ P D : Type*) where
  handles : ι → Option (Handle τ P D)
  deleted : List (Deletion P D)
  released : List P

/-! ## Handles -/

variable (d : Deleters τ D)

/-- `unique_ptr ()` and `unique_ptr (nullptr)` -/
def Handle.null (type : τ) : Handle τ P D := ⟨type, d.default type, none⟩

/-- `unique_ptr (p)`; `right` is the deleter `p` should get. -/
def Handle.adopt (type : τ) (p : Option P) (right : D) : Handle τ P D :=
  ⟨type, d.default type, p.map (⟨·, right⟩)⟩

/-- `unique_ptr (p, deleter)` -/
def Handle.adoptWith (type : τ) (p : Option P) (deleter : D) : Handle τ P D :=
  ⟨type, deleter, p.map (⟨·, deleter⟩)⟩

/-- `swap (a, b)`: the base objects and `p_`. -/
def swap (a b : Handle τ P D) : Handle τ P D × Handle τ P D :=
  ({ a with deleter := b.deleter, p := b.p }, { b with deleter := a.deleter, p := a.p })

/-- `~unique_ptr ()` -/
def Handle.destroy (x : Handle τ P D) : List (Deletion P D) :=
  x.p.toList.map fun o => ⟨o.ptr, o.right, x.deleter⟩

/-! ## Operations -/

variable [DecidableEq ι]

def State.set (s : State ι τ P D) (h : ι) (x : Handle τ P D) : State ι τ P D :=
  { s with handles := Function.update s.handles h (some x) }

/-- The destructor of a temporary. -/
def State.drop (s : State ι τ P D) (t : Handle τ P D) : State ι τ P D :=
  { s with deleted := s.deleted ++ t.destroy }

/-- `swap (*this, t)` for a temporary `t`: the temporary after it and the state. -/
def State.swapWith (s : State ι τ P D) (h : ι) (t : Handle τ P D) :
    Option (Handle τ P D × State ι τ P D) :=
  (s.handles h).map fun x => ((swap x t).2, s.set h (swap x t).1)

/-- `unique_ptr (std::move (other))`: `unique_ptr{}`, then `swap (*this, other)`. -/
def State.moveFrom (s : State ι τ P D) (other : ι) : Option (Handle τ P D × State ι τ P D) :=
  (s.handles other).bind fun x => s.swapWith other (.null d x.type)

/-- `unique_ptr (std::move (other))` from another type: the deleter is converted, `other`
released. -/
def State.convertFrom (s : State ι τ P D) (type : τ) (other : ι) :
    Option (Handle τ P D × State ι τ P D) :=
  (s.handles other).map fun x =>
    (⟨type, d.convert x.type type x.deleter,
      x.p.map fun o => ⟨o.ptr, d.convert x.type type o.right⟩⟩,
     s.set other ⟨x.type, d.movedFrom x.type x.deleter, none⟩)

/-- `swap (*this, t); return *this;` and the destruction of `t`. -/
def State.assign (h : ι) : Handle τ P D × State ι τ P D → Option (State ι τ P D)
  | (t, s) => (s.swapWith h t).map fun (t, s) => s.drop t

/-- What a program does with handles. -/
inductive Op (ι τ P D : Type*)
  | construct (h : ι) (type : τ) (p : Option P)
  | constructWith (h : ι) (type : τ) (p : Option P) (deleter : D)
  | moveConstruct (h other : ι)
  | moveAssign (h other : ι)
  | convertConstruct (h : ι) (type : τ) (other : ι)
  | convertAssign (h other : ι)
  | assignNull (h : ι)
  | reset (h : ι) (p : Option P)
  | release (h : ι)
  | swap (a b : ι)
  | destroy (h : ι)
  deriving DecidableEq

/-- Construct a handle under the name `h`, which must be free. -/
def State.construct (h : ι) : Handle τ P D × State ι τ P D → Option (State ι τ P D)
  | (x, s) => if (s.handles h).isNone then some (s.set h x) else none

/-- One operation; `none` if it names no handle, a handle that exists already or handles of
types it does not apply to. -/
def State.op [DecidableEq τ] (s : State ι τ P D) : Op ι τ P D → Option (State ι τ P D)
  | .construct h type p => State.construct h (.adopt d type p (d.default type), s)
  | .constructWith h type p deleter => State.construct h (.adoptWith type p deleter, s)
  | .moveConstruct h other => (s.moveFrom d other).bind (State.construct h)
  | .moveAssign h other => (s.moveFrom d other).bind (State.assign h)
  | .convertConstruct h type other => (s.convertFrom d type other).bind (State.construct h)
  | .convertAssign h other =>
    (s.handles h).bind fun x => (s.convertFrom d x.type other).bind (State.assign h)
  | .assignNull h => (s.handles h).bind fun x => State.assign h (.null d x.type, s)
  | .reset h p => (s.handles h).bind fun x => State.assign h (.adopt d x.type p x.deleter, s)
  | .release h =>
    (s.handles h).map fun x =>
      { s.set h { x with p := none } with released := s.released ++ (x.p.map Owned.ptr).toList }
  | .swap a b =>
    (s.handles a).bind fun x => (s.handles b).bind fun y =>
      if x.type = y.type then some ((s.set a (UniquePtr.swap x y).1).set b (UniquePtr.swap x y).2)
      else none
  | .destroy h =>
    (s.handles h).map fun x =>
      { s with
        handles := Function.update s.handles h none
        deleted := s.deleted ++ x.destroy }

/-- Sequences of operations that start without handles. -/
def system (ι P : Type*) {τ D : Type*} [DecidableEq ι] [DecidableEq τ] (d : Deleters τ D) :
    System (State ι τ P D) (Op ι τ P D) where
  init s := s = ⟨fun _ => none, [], []⟩
  step s l s' := s.op d l = some s'

/-! ## The right deleter -/

/-- Every pointer deleted so far was deleted by the right deleter. -/
def State.RightlyDeleted (s : State ι τ P D) : Prop := ∀ x ∈ s.deleted, x.used = x.right

/-- A reset or an assignment of `nullptr` leaves the handle's own deleter unchanged. -/
def KeepsDeleter (s s' : State ι τ P D) : Op ι τ P D → Prop
  | .assignNull h | .reset h _ =>
    (s'.handles h).map Handle.deleter = (s.handles h).map Handle.deleter
  | _ => True

/-! ## Inside an operation -/

/-- A state within an operation, and the object that is being built or the temporary, if there is
one. -/
structure Point (ι τ P D : Type*) where
  temp : Option (Handle τ P D)
  state : State ι τ P D

/-- The object an operation builds first: the new handle or the temporary. -/
def State.temporary (s : State ι τ P D) : Op ι τ P D → Option (Handle τ P D × State ι τ P D)
  | .construct _ type p => some (.adopt d type p (d.default type), s)
  | .constructWith _ type p deleter => some (.adoptWith type p deleter, s)
  | .moveConstruct _ other | .moveAssign _ other => s.moveFrom d other
  | .convertConstruct _ type other => s.convertFrom d type other
  | .convertAssign h other => (s.handles h).bind fun x => s.convertFrom d x.type other
  | .assignNull h => (s.handles h).map fun x => (.null d x.type, s)
  | .reset h p => (s.handles h).map fun x => (.adopt d x.type p x.deleter, s)
  | .release _ | .swap _ _ | .destroy _ => none

/-- The handle an operation swaps its temporary with. -/
def Op.assigned : Op ι τ P D → Option ι
  | .moveAssign h _ | .convertAssign h _ | .assignNull h | .reset h _ => some h
  | _ => none

/-- The pointer an operation adopts. -/
def Op.adopts : Op ι τ P D → Option P
  | .construct _ _ p | .constructWith _ _ p _ | .reset _ p => p
  | _ => none

/-- The operation `l` from `s` passes the point: with its temporary built, with the temporary and
the handle swapped, at its end. -/
inductive Within [DecidableEq τ] (s : State ι τ P D) (l : Op ι τ P D) : Point ι τ P D → Prop
  | built {t : Handle τ P D} {s₁ : State ι τ P D} : s.temporary d l = some (t, s₁) →
      Within s l ⟨some t, s₁⟩
  | swapped {h : ι} {t t' : Handle τ P D} {s₁ s₂ : State ι τ P D} :
      s.temporary d l = some (t, s₁) → l.assigned = some h →
      s₁.swapWith h t = some (t', s₂) → Within s l ⟨some t', s₂⟩
  | done {s' : State ι τ P D} : s.op d l = some s' → Within s l ⟨none, s'⟩

/-- The operation overwrites the pointer of `h`: it assigns or resets, not from `h` itself. -/
def Op.Overwrites (h : ι) : Op ι τ P D → Prop
  | .moveAssign h' other | .convertAssign h' other => h' = h ∧ other ≠ h
  | .assignNull h' | .reset h' _ => h' = h
  | _ => False

end UniquePtr
