import Snippets.Lib.Lts
import Snippets.Lib.Threads

/-!
# `shared_ptr` and `weak_ptr`

The handles of `null/shared_ptr.h` and `null/weak_ptr.h`, used by one thread. A handle lives at a
location, a variable or a member of an object; control blocks are numbered as they are allocated.
The constructors, assignments and `lock` are built as in the source: a temporary takes the value
(`State.temp`), becomes the new handle or is swapped with `*this`, and what is left of it is
destroyed.

A destructor runs the functions of the control block, which may run a deleter, which destroys an
object and with it the handles that are its members, and so on. These calls are a stack of
frames, innermost first, and `State.step` does the next atomic piece of the innermost call.

`none` is undefined behaviour: a handle or a control block that does not exist (any more); of an
operation, also that it is not one on these handles. An object is named by the pointer given to
its first `shared_ptr`, and `members` are the locations of its member handles in the order in
which its destructor destroys them. A destroyed control block stays in `blocks`, marked.
-/

namespace SharedPtr

open Lts

variable {ι τ P D : Type*}

/-- A handle holds a share of the use count or of the weak count. -/
inductive Kind
  | shared
  | weak
  deriving DecidableEq

/-- A `shared_ptr<T>` or a `weak_ptr<T>`, with `T` named by `type`. -/
structure Handle (τ P : Type*) where
  kind : Kind
  type : τ
  px : Option P
  pb : Option Nat
  deriving DecidableEq

/-- A `control_block<U, Deleter>`, with `U` named by `type`. -/
structure Block (τ P D : Type*) where
  useCount : Int
  weakCount : Int
  type : τ
  p : Option P
  d : D
  destroyed : Bool
  deriving DecidableEq

/-- A call `d (p)` of a block's deleter. -/
structure Release (P D : Type*) where
  block : Nat
  p : Option P
  d : D
  deriving DecidableEq

/-- What is left to do of a call. -/
inductive Frame (ι : Type*)
  /-- `dec_use_count ()` or `dec_weak_count ()` -/
  | dec (kind : Kind) (b : Nat)
  /-- `dispose (); dec_weak_count ();` in `dec_use_count ()` -/
  | dispose (b : Nat)
  /-- `destroy ()` in `dec_weak_count ()` -/
  | destroy (b : Nat)
  /-- the destructor of the handle at `h` -/
  | destruct (h : ι)
  deriving DecidableEq

/-- The handles by location, the control blocks by number, the destructors that are running,
innermost first, and the calls of deleters. -/
structure State (ι τ P D : Type*) where
  handles : ι → Option (Handle τ P)
  blocks : Nat → Option (Block τ P D)
  /-- the next number of a block -/
  next : Nat
  stack : List (Frame ι)
  /-- the calls of deleters so far -/
  log : List (Release P D)

/-! ## Handles -/

/-- `px_{}, pb_{}` -/
def Handle.empty (kind : Kind) (type : τ) : Handle τ P := ⟨kind, type, none, none⟩

/-- `px_{ other.px_ }, pb_{ other.pb_ }`: `cast` converts a `U *` to a `T *`. It stands for the
conversions that do not read the object; the conversion of an expired weak handle to a virtual base,
which does, is undefined in `weak_ptr.h`. -/
def Handle.convert [DecidableEq τ] (cast : τ → τ → P → P) (x : Handle τ P) (kind : Kind)
    (type : τ) : Handle τ P :=
  ⟨kind, type, if x.type = type then x.px else x.px.map (cast x.type type), x.pb⟩

/-- `~shared_ptr ()` or `~weak_ptr ()`: `if (pb_) pb_->dec_use_count ();` -/
def Handle.drop (x : Handle τ P) : List (Frame ι) := x.pb.toList.map (.dec x.kind)

/-! ## Control blocks -/

def State.setBlock (s : State ι τ P D) (b : Nat) (B : Block τ P D) : State ι τ P D :=
  { s with blocks := Function.update s.blocks b (some B) }

/-- The control block `b`, if it is not destroyed. -/
def State.block (s : State ι τ P D) (b : Nat) : Option (Block τ P D) :=
  (s.blocks b).filter fun B => !B.destroyed

def Block.inc (B : Block τ P D) : Kind → Block τ P D
  | .shared => { B with useCount := B.useCount + 1 }
  | .weak => { B with weakCount := B.weakCount + 1 }

/-- `if (pb_) pb_->inc_use_count ();` or `if (pb_) pb_->inc_weak_count ();` -/
def State.inc (s : State ι τ P D) (kind : Kind) : Option Nat → Option (State ι τ P D)
  | none => some s
  | some b => (s.block b).map fun B => s.setBlock b (B.inc kind)

/-- `lock_use_count ()` -/
def State.lockUseCount (s : State ι τ P D) (b : Nat) : Option (Bool × State ι τ P D) :=
  (s.block b).map fun B =>
    if B.useCount = 0 then (false, s) else (true, s.setBlock b (B.inc .shared))

/-- `new control_block<U, Deleter>{ p, std::move (d) }` -/
def State.newBlock (s : State ι τ P D) (type : τ) (p : Option P) (d : D) : State ι τ P D :=
  { s.setBlock s.next ⟨1, 1, type, p, d, false⟩ with next := s.next + 1 }

/-- `dispose ()`: the deleter is called. -/
def State.dispose (s : State ι τ P D) (b : Nat) (B : Block τ P D) : State ι τ P D :=
  { s with log := s.log ++ [⟨b, B.p, B.d⟩] }

/-! ## Operations -/

/-- Destructors are called, in this order. -/
def State.push (s : State ι τ P D) (fs : List (Frame ι)) : State ι τ P D :=
  { s with stack := fs ++ s.stack }

/-- The rest of the stack. -/
def State.pop (s : State ι τ P D) : State ι τ P D := { s with stack := s.stack.tail }

/-- What a handle is constructed or assigned from. -/
inductive Source (ι τ P D : Type*)
  /-- `shared_ptr ()`, `shared_ptr (nullptr)`, `weak_ptr ()` -/
  | null
  /-- `shared_ptr (p, d)` for a `U *p`, with `U` named by `type` -/
  | adopt (type : τ) (p : Option P) (d : D)
  /-- a `const shared_ptr<U> &` or a `const weak_ptr<U> &` -/
  | copy (other : ι)
  /-- `std::move (other)` -/
  | move (other : ι)
  /-- `other.lock ()` -/
  | lock (other : ι)
  deriving DecidableEq

/-- What a program does with handles. -/
inductive Op (ι τ P D : Type*)
  /-- a constructor -/
  | construct (h : ι) (kind : Kind) (type : τ) (src : Source ι τ P D)
  /-- an assignment; `reset ()` of a `weak_ptr` is one from `null`, and `reset (p, d)` of a
  `shared_ptr` one from `adopt` -/
  | assign (h : ι) (src : Source ι τ P D)
  | swap (a b : ι)
  | destroy (h : ι)
  deriving DecidableEq

variable [DecidableEq ι]

def State.set (s : State ι τ P D) (h : ι) (x : Option (Handle τ P)) : State ι τ P D :=
  { s with handles := Function.update s.handles h x }

/-- `weak_ptr::lock` -/
def State.lock (s : State ι τ P D) (x : Handle τ P) : Option (Handle τ P × State ι τ P D) :=
  match x.pb with
  | none => some (.empty .shared x.type, s)
  | some b =>
    (s.lockUseCount b).map fun (locked, s) =>
      (if locked then { x with kind := .shared } else .empty .shared x.type, s)

variable [DecidableEq τ] (cast : τ → τ → P → P) (members : P → List ι)

/-- A new handle of the given kind and type, not yet at a location. -/
def State.temp (s : State ι τ P D) (kind : Kind) (type : τ) :
    Source ι τ P D → Option (Handle τ P × State ι τ P D)
  | .null => some (.empty kind type, s)
  | .adopt utype p d =>
    if kind = .shared then
      some (Handle.convert cast ⟨.shared, utype, p, some s.next⟩ .shared type, s.newBlock utype p d)
    else none
  | .copy other =>
    (s.handles other).bind fun x =>
      if kind = .shared ∧ x.kind = .weak then none
      else (s.inc kind x.pb).map fun s => (x.convert cast kind type, s)
  | .move other =>
    (s.handles other).bind fun x =>
      if x.kind = kind then
        some (x.convert cast kind type, s.set other (some (.empty x.kind x.type)))
      else none
  | .lock other =>
    (s.handles other).bind fun x =>
      if kind = .shared ∧ x.kind = .weak then
        (s.lock x).map fun (t, s) => (t.convert cast .shared type, s)
      else none

/-- One operation, up to the destructors it leaves on the stack. -/
def State.op (s : State ι τ P D) : Op ι τ P D → Option (State ι τ P D)
  | .construct h kind type src =>
    if s.handles h = none then
      (s.temp cast kind type src).map fun (t, s) => s.set h (some t)
    else none
  | .assign h src =>
    (s.handles h).bind fun x => (s.temp cast x.kind x.type src).bind fun (t, s) =>
      -- `swap (*this, t)` and the destruction of `t`
      (s.handles h).map fun x => (s.set h (some t)).push x.drop
  | .swap a b =>
    (s.handles a).bind fun x => (s.handles b).bind fun y =>
      if x.kind = y.kind ∧ x.type = y.type then some ((s.set a (some y)).set b (some x)) else none
  | .destroy h => (s.handles h).map fun x => (s.set h none).push x.drop

/-- The next step of the innermost call. -/
def State.step (s : State ι τ P D) : Option (State ι τ P D) :=
  match s.stack with
  | [] => none
  | .dec .shared b :: _ =>
    (s.block b).map fun B =>
      (s.pop.setBlock b { B with useCount := B.useCount - 1 }).push
        (if B.useCount = 1 then [.dispose b] else [])
  | .dec .weak b :: _ =>
    (s.block b).map fun B =>
      (s.pop.setBlock b { B with weakCount := B.weakCount - 1 }).push
        (if B.weakCount = 1 then [.destroy b] else [])
  | .dispose b :: _ =>
    (s.block b).map fun B =>
      (s.pop.dispose b B).push ((B.p.elim [] members).map .destruct ++ [.dec .weak b])
  | .destroy b :: _ => (s.block b).map fun B => s.pop.setBlock b { B with destroyed := true }
  | .destruct h :: _ => (s.handles h).map fun x => (s.pop.set h none).push x.drop

/-- Run the calls on the stack to their end, in at most `n` steps. -/
def State.run : Nat → State ι τ P D → Option (State ι τ P D)
  | 0, s => if s.stack.isEmpty then some s else none
  | n + 1, s => if s.stack.isEmpty then some s else (s.step members).bind (State.run n)

/-- The whole operation: `op`, then the destructors to their end. -/
def State.Does (s : State ι τ P D) (op : Op ι τ P D) (s' : State ι τ P D) : Prop :=
  ∃ s₁ n, s.op cast op = some s₁ ∧ s₁.run members n = some s'

/-- `operator bool ()` -/
def Handle.test (x : Handle τ P) : Bool := x.px.isSome

/-- `use_count ()` -/
def State.useCount (s : State ι τ P D) (x : Handle τ P) : Option Int :=
  match x.pb with
  | none => some 0
  | some b => (s.block b).map Block.useCount

/-- `expired ()` -/
def State.expired (s : State ι τ P D) (x : Handle τ P) : Option Bool :=
  (s.useCount x).map fun n => decide (n = 0)

/-- `reset ()` of a `shared_ptr<T>`: `reset (p, d)` with the default arguments `U *p = nullptr` and
`E d = {}`, for `U = T` and `E = default_delete<T>`. -/
def State.reset (defaultDelete : τ → D) (s : State ι τ P D) (h : ι) : Option (State ι τ P D) :=
  (s.handles h).bind fun x =>
    if x.kind = .shared then s.op cast (.assign h (.adopt x.type none (defaultDelete x.type)))
    else none

/-- The pointer that an operation passes to the adopting constructor or to `reset (p, d)`. -/
def Op.passes : Op ι τ P D → Option (Option P)
  | .construct _ _ _ (.adopt _ p _) | .assign _ (.adopt _ p _) => some p
  | _ => none

/-- What happens next: an operation of the client, who never passes a null pointer, `reset ()`, or
the next step of the innermost call. -/
inductive Act (ι τ P D : Type*)
  | op (o : Op ι τ P D)
  | reset (h : ι)
  | step

/-- The steps of a program that passes no null pointer but in `reset ()`, and of the destructors
that it has called. -/
inductive Acts (defaultDelete : τ → D) (s : State ι τ P D) : Act ι τ P D → State ι τ P D → Prop
  | op {o : Op ι τ P D} {s' : State ι τ P D} : o.passes ≠ some none → s.op cast o = some s' →
      Acts defaultDelete s (.op o) s'
  | reset {h : ι} {s' : State ι τ P D} : s.reset cast defaultDelete h = some s' →
      Acts defaultDelete s (.reset h) s'
  | step {s' : State ι τ P D} : s.step members = some s' → Acts defaultDelete s .step s'

/-- The handles of a client, whose operations may also come from deleters and destructors that are
running. -/
def client (defaultDelete : τ → D) : System (State ι τ P D) (Act ι τ P D) where
  init s := s = ⟨fun _ => none, fun _ => none, 0, [], []⟩
  step := Acts cast members defaultDelete

/-! ## Operations that apply -/

/-- The source is a handle of a kind that a handle of the given kind can be made from. -/
def Source.Applies (s : State ι τ P D) (kind : Kind) : Source ι τ P D → Prop
  | .null => True
  | .adopt _ _ _ => kind = .shared
  | .copy other => ∃ x, s.handles other = some x ∧ (kind = .shared → x.kind = .shared)
  | .move other => ∃ x, s.handles other = some x ∧ x.kind = kind
  | .lock other => ∃ x, s.handles other = some x ∧ kind = .shared ∧ x.kind = .weak

/-- The operation is one on the handles there are. -/
def Op.Applies (s : State ι τ P D) : Op ι τ P D → Prop
  | .construct h kind _ src => s.handles h = none ∧ src.Applies s kind
  | .assign h src => ∃ x, s.handles h = some x ∧ src.Applies s x.kind
  | .swap a b => ∃ x y, s.handles a = some x ∧ s.handles b = some y ∧ x.kind = y.kind ∧
      x.type = y.type
  | .destroy h => ∃ x, s.handles h = some x

/-- The handle an operation moves from, if it is not the target. -/
def Op.movedFrom : Op ι τ P D → Option ι
  | .construct _ _ _ (.move other) => some other
  | .assign h (.move other) => if other = h then none else some other
  | _ => none

end SharedPtr
