import Snippets.Spsc.Ring

/-!
# Queries on `spsc_ring_buffer`

`size`, `is_full` and `is_empty` beside the ring buffer's two threads. A query loads `head_` and
`tail_` in two separate steps and computes its answer from what it loaded; `size` loads `head_`
first, the operands of `==` in the other two may be evaluated in either order. A query is made
by the producer or the consumer between two of its own calls, or by a third thread at any time.
-/

namespace Spsc

open Lts

/-- `size ()`, `is_full ()` and `is_empty ()` -/
inductive Query
  | size
  | isFull
  | isEmpty
  deriving DecidableEq

/-- A `size_type` or a `bool`. -/
inductive Answer
  | number (n : Nat)
  | flag (b : Bool)
  deriving DecidableEq

/-- What `size` returns for the indices it loaded, in `size_type`. -/
def size (Capacity currHead currTail : Nat) : Nat :=
  if currHead ≥ currTail then currHead - currTail
  else ((Capacity + 1) % 2 ^ 64 + (2 ^ 64 - (currTail - currHead))) % 2 ^ 64

def isFull (Capacity head tail : Nat) : Bool := nextIndex Capacity head == tail

def isEmpty (head tail : Nat) : Bool := head == tail

/-- The answer to a query that loaded `head` and `tail`. -/
def answer (Capacity : Nat) (q : Query) (head tail : Nat) : Answer :=
  match q with
  | .size => .number (size Capacity head tail)
  | .isFull => .flag (isFull Capacity head tail)
  | .isEmpty => .flag (isEmpty head tail)

/-- Who makes a query: one of the two threads between its own operations, or another thread. -/
inductive Caller
  | producer
  | consumer
  | third
  deriving DecidableEq

/-- Where a thread is in a query. -/
inductive QueryPc
  | idle
  | start (q : Query)
  | loadTail (q : Query) (currHead : Nat)
  | loadHead (q : Query) (currTail : Nat)
  | done (q : Query) (a : Answer)
  deriving DecidableEq

/-- The ring buffer with the queries under way. -/
structure Observed (T : Type*) where
  ring : State T
  query : Caller → QueryPc

/-- A step of `push` or `pop`, or a step of a query: the call, the load of the first index, the
load of the second one, which decides the answer, and the return. -/
inductive Seen (T : Type*)
  | ring (l : Label T)
  | query (c : Caller) (q : Query)
  | first (c : Caller) (q : Query)
  | last (c : Caller) (q : Query) (a : Answer)
  | ret (c : Caller) (q : Query) (a : Answer)

variable {T : Type*} {Capacity : Nat}

/-- The thread that makes the call the step begins. -/
def Label.caller : Label T → Option Caller
  | .push _ => some .producer
  | .pop => some .consumer
  | _ => none

/-- The thread is in no `push` or `pop`. -/
def Observed.Between (s : Observed T) : Caller → Prop
  | .producer => s.ring.prod = .idle
  | .consumer => s.ring.cons = .idle
  | .third => True

/-- A query loads the two indices one after the other, and steps of `push` and `pop` may come in
between. -/
inductive SeenStep (Capacity : Nat) : Observed T → Seen T → Observed T → Prop
  | ring {s : Observed T} {l : Label T} {r : State T} : Step Capacity s.ring l r →
      (∀ c, l.caller = some c → s.query c = .idle) →
      SeenStep Capacity s (.ring l) { s with ring := r }
  | query {s : Observed T} {c : Caller} {q : Query} : s.Between c → s.query c = .idle →
      SeenStep Capacity s (.query c q) { s with query := Function.update s.query c (.start q) }
  | headFirst {s : Observed T} {c : Caller} {q : Query} : s.query c = .start q →
      SeenStep Capacity s (.first c q)
        { s with query := Function.update s.query c (.loadTail q s.ring.head) }
  -- the right operand of `==` first
  | tailFirst {s : Observed T} {c : Caller} {q : Query} : s.query c = .start q → q ≠ .size →
      SeenStep Capacity s (.first c q)
        { s with query := Function.update s.query c (.loadHead q s.ring.tail) }
  | tailLast {s : Observed T} {c : Caller} {q : Query} {h : Nat} : s.query c = .loadTail q h →
      SeenStep Capacity s (.last c q (answer Capacity q h s.ring.tail))
        { s with query :=
          Function.update s.query c (.done q (answer Capacity q h s.ring.tail)) }
  | headLast {s : Observed T} {c : Caller} {q : Query} {t : Nat} : s.query c = .loadHead q t →
      SeenStep Capacity s (.last c q (answer Capacity q s.ring.head t))
        { s with query :=
          Function.update s.query c (.done q (answer Capacity q s.ring.head t)) }
  | ret {s : Observed T} {c : Caller} {q : Query} {a : Answer} : s.query c = .done q a →
      SeenStep Capacity s (.ret c q a) { s with query := Function.update s.query c .idle }

/-- The ring buffer, its two threads and the queries, from the constructor on. -/
def observed (T : Type*) (Capacity : Nat) : System (Observed T) (Seen T) where
  init s := (ring T Capacity).init s.ring ∧ ∀ c, s.query c = .idle
  step := SeenStep Capacity

/-- The step of the ring buffer that a step is. -/
def Seen.toRing : Seen T → List (Label T)
  | .ring l => [l]
  | _ => []

/-! ## What an answer says -/

/-- The answer is true of a queue of capacity `Capacity` with `n` elements. -/
def Answer.TrueOf (Capacity : Nat) : Query → Answer → Nat → Prop
  | .size, .number m, n => m = n
  | .isFull, .flag b, n => b = true ↔ n = Capacity
  | .isEmpty, .flag b, n => b = true ↔ n = 0
  | _, _, _ => False

/-! ## What happens in a run -/

/-- The step is the store of a push. -/
def Label.accepts : Label T → Bool
  | .pushStore _ => true
  | _ => false

/-- The step is the store of a pop. -/
def Label.takes : Label T → Bool
  | .popStore _ => true
  | _ => false

def Label.isPush : Label T → Bool
  | .push _ => true
  | _ => false

def Label.isPop : Label T → Bool
  | .pop => true
  | _ => false

/-- The element a pop returns. -/
def Label.returned : Label T → Option T
  | .popRet (.popped elem) => some elem
  | _ => none

end Spsc
