import Snippets.Shared.Model

/-!
# Setting up a control block

`shared_ptr (p, d)` and `reset (p, d)` with every step that can throw. Each by-value parameter
and the member of `control_block` is a deleter of its own, move-constructed from the one before,
and the new-expression allocates before or after it has its argument. When the new-expression
throws it gives the storage back, and the handler in the constructor of `shared_ptr` calls `d (p)`
with its own `d`, as that is by then.

`Memory` is a state with what exists only during the call, or when it has failed: storage without
a control block in it, and the calls of that handler. `Memory.setup` is the call, up to the
destructors it leaves on the stack.
-/

namespace SharedPtr

variable {ι τ P D : Type*}

/-- The step that throws. -/
inductive SetupThrow
  /-- the parameter `d` of `reset` -/
  | resetParameter
  /-- the parameter `d` of the constructor of `shared_ptr` -/
  | parameter
  /-- the allocation of the control block -/
  | allocate
  /-- the parameter `d` of the constructor of `control_block` -/
  | blockParameter
  /-- the member `d` of `control_block` -/
  | member
  deriving DecidableEq

/-- Whether a new-expression allocates before or after it initializes the arguments of the
constructor. -/
inductive NewOrder
  | allocateFirst
  | argumentFirst
  deriving DecidableEq

/-- How the constructor is left. -/
inductive Exit
  | returned
  | threw
  deriving DecidableEq

/-- The move constructor of a deleter, by what it leaves of its argument: when it returns and when
it throws. -/
structure MoveCtor (D : Type*) where
  moved : D → D
  failed : D → D

/-- `Deleter e{ std::move (d) }`: `e`, unless it throws, and what is left of `d`. -/
def MoveCtor.run (m : MoveCtor D) (d : D) (throws : Bool) : Option D × D :=
  if throws then (none, m.failed d) else (some d, m.moved d)

/-- The state of the handles, with storage that is not a control block yet, or no more, and the
calls of deleters by the handler of exceptions. -/
structure Memory (ι τ P D : Type*) where
  state : State ι τ P D
  /-- the numbers of the control blocks that have storage but are not constructed -/
  storage : List Nat
  /-- the calls `d (p)` of the handler so far -/
  released : List (Option P × D)

/-! ## The new-expression -/

/-- Storage for the next control block. -/
def Memory.allocate (x : Memory ι τ P D) : Memory ι τ P D :=
  { x with storage := x.state.next :: x.storage }

/-- The new-expression frees the storage when the constructor of the block throws. -/
def Memory.deallocate (x : Memory ι τ P D) : Memory ι τ P D :=
  { x with storage := x.storage.erase x.state.next }

section
variable (m : MoveCtor D) (order : NewOrder) (throwAt : Option SetupThrow)

/-- `control_block (T *p, Deleter d) : p{ p }, d{ std::move (d) }`, in its storage: the control
block, or `none` and no storage if it throws. -/
def Memory.initBlock (x : Memory ι τ P D) (type : τ) (p : Option P) (d : D) :
    Option Nat × Memory ι τ P D :=
  match m.run d (throwAt = some .member) with
  | (some d, _) =>
    (some x.state.next, { x.deallocate with state := x.state.newBlock type p d })
  | (none, _) => (none, x.deallocate)

/-- `new control_block<U, Deleter>{ p, std::move (d) }`: the control block, or `none` if it throws,
and what is left of `d`. -/
def Memory.newBlock (x : Memory ι τ P D) (type : τ) (p : Option P) (d : D) :
    Option Nat × D × Memory ι τ P D :=
  match order with
  | .allocateFirst =>
    if throwAt = some .allocate then (none, d, x)
    else
      match m.run d (throwAt = some .blockParameter) with
      | (some arg, d) =>
        let (b, x) := x.allocate.initBlock m throwAt type p arg
        (b, d, x)
      | (none, d) => (none, d, x.allocate.deallocate)
  | .argumentFirst =>
    match m.run d (throwAt = some .blockParameter) with
    | (some arg, d) =>
      if throwAt = some .allocate then (none, d, x)
      else
        let (b, x) := x.allocate.initBlock m throwAt type p arg
        (b, d, x)
    | (none, d) => (none, d, x)

end

/-! ## The constructor and `reset` -/

section
variable [DecidableEq τ] (cast : τ → τ → P → P) (members : P → List ι) (m : MoveCtor D)
  (order : NewOrder) (throwAt : Option SetupThrow)

/-- `d (p)` in the handler: it destroys `*p` and with it the handles that are its members. -/
def Memory.release (x : Memory ι τ P D) (p : Option P) (d : D) : Memory ι τ P D :=
  { x with
    state := x.state.push ((p.elim [] members).map .destruct)
    released := x.released ++ [(p, d)] }

/-- `shared_ptr (U *p, Deleter d)` of a `shared_ptr<T>`, with `T` and `U` named by `type` and
`utype`: the handle, or `none` if it throws. -/
def Memory.sharedPtr (x : Memory ι τ P D) (type utype : τ) (p : Option P) (d : D) :
    Option (Handle τ P) × Memory ι τ P D :=
  if throwAt = some .parameter then (none, x)
  else
    match x.newBlock m order throwAt utype p d with
    | (some b, _, x) => (some (Handle.convert cast ⟨.shared, utype, p, some b⟩ .shared type), x)
    | (none, d, x) => (none, x.release members p d)

/-- What is set up: a new `shared_ptr<T>` at `h`, or the one at `h` by `reset (p, d)`. -/
inductive Setup (ι τ : Type*)
  | construct (h : ι) (type : τ)
  | reset (h : ι)
  deriving DecidableEq

variable [DecidableEq ι]

/-- `shared_ptr t (p, d)` or `h.reset (p, d)`, and how it exits. -/
def Memory.setup (x : Memory ι τ P D) (utype : τ) (p : Option P) (d : D) :
    Setup ι τ → Option (Exit × Memory ι τ P D)
  | .construct h type =>
    if x.state.handles h = none then
      match x.sharedPtr cast members m order throwAt type utype p d with
      | (some t, x) => some (.returned, { x with state := x.state.set h (some t) })
      | (none, x) => some (.threw, x)
    else none
  | .reset h =>
    (x.state.handles h).bind fun y =>
      if y.kind = .shared then
        if throwAt = some .resetParameter then some (.threw, x)
        else
          -- `shared_ptr t{ p, std::move (d) }`, then `swap (*this, t)` and the destruction of `t`
          match x.sharedPtr cast members m order throwAt y.type utype p d with
          | (some t, x) => (x.state.handles h).map fun y =>
            (.returned, { x with state := (x.state.set h (some t)).push y.drop })
          | (none, x) => some (.threw, x)
      else none

end

/-- The operation of the model without exceptions. -/
def Setup.op (utype : τ) (p : Option P) (d : D) : Setup ι τ → Op ι τ P D
  | .construct h type => .construct h .shared type (.adopt utype p d)
  | .reset h => .assign h (.adopt utype p d)

end SharedPtr
