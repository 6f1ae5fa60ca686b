import Snippets.Lib.Fifo
import Snippets.Lib.Circular

/-!
# `spsc_ring_buffer`

The ring buffer of `null/spsc_ring_buffer.h` with one producer thread that calls `push` and one
consumer thread that calls `pop`. Each atomic load, each slot assignment or read and each
atomic store is one step, and the steps of the two threads interleave in any order
(sequentially consistent atomics). `size_type` arithmetic is modulo `2 ^ 64`.

A thread's program counter names the access it does next and holds the locals of the call: a
`push` goes `loadHead`, `loadTail`, `assign`, `store`, `done`; a `pop` goes `loadTail`,
`loadHead`, `read`, `store`, `done`. An element assignment may throw; the assignment to a slot
may then leave anything in the slot.
-/

namespace Spsc

open Lts

/-- `(i + 1) % (Capacity + 1)` in `size_type`. -/
def nextIndex (Capacity i : Nat) : Nat := (i + 1) % 2 ^ 64 % ((Capacity + 1) % 2 ^ 64)

inductive Tid
  | producer
  | consumer
  deriving DecidableEq

/-- Where the producer is in `push`. -/
inductive PushPc (T : Type*)
  | idle
  | loadHead (item : T)
  | loadTail (item : T) (currHead nextHead : Nat)
  | assign (item : T) (currHead nextHead : Nat)
  | store (item : T) (nextHead : Nat)
  | done (r : Fifo.Res T)

/-- Where the consumer is in `pop`. -/
inductive PopPc (T : Type*)
  | idle
  | loadTail
  | loadHead (currTail : Nat)
  | read (currTail : Nat)
  | store (currTail : Nat) (elem : T)
  | done (r : Fifo.Res T)

/-- The indices, the slots, and where the two threads are. -/
structure State (T : Type*) where
  head : Nat
  tail : Nat
  buffer : Nat → T
  prod : PushPc T
  cons : PopPc T

/-- The steps, with the values they act on. -/
inductive Label (T : Type*)
  | push (item : T)
  | pushLoadHead
  | pushLoadTail (item : T) (full : Bool)
  | pushAssign (item : T) (threw : Bool)
  | pushStore (item : T)
  | pushRet (r : Fifo.Res T)
  | pop
  | popLoadTail
  | popLoadHead (empty : Bool)
  | popRead (threw : Bool)
  | popStore (elem : T)
  | popRet (r : Fifo.Res T)

variable {T : Type*} {Capacity : Nat}

/-- Each load, store and assignment to or from a slot is a step of its own, and assignments may
throw. -/
inductive Step (Capacity : Nat) : State T → Label T → State T → Prop
  -- `push`
  | push {s : State T} {item : T} : s.prod = .idle →
      Step Capacity s (.push item) { s with prod := .loadHead item }
  | pushLoadHead {s : State T} {item : T} : s.prod = .loadHead item →
      Step Capacity s .pushLoadHead
        { s with prod := .loadTail item s.head (nextIndex Capacity s.head) }
  | pushLoadTail {s : State T} {item : T} {h n : Nat} : s.prod = .loadTail item h n → n ≠ s.tail →
      Step Capacity s (.pushLoadTail item false) { s with prod := .assign item h n }
  | pushFull {s : State T} {item : T} {h n : Nat} : s.prod = .loadTail item h n → n = s.tail →
      Step Capacity s (.pushLoadTail item true) { s with prod := .done .full }
  | pushAssign {s : State T} {item : T} {h n : Nat} : s.prod = .assign item h n →
      Step Capacity s (.pushAssign item false)
        { s with buffer := Function.update s.buffer h item, prod := .store item n }
  | pushThrow {s : State T} {item junk : T} {h n : Nat} : s.prod = .assign item h n →
      Step Capacity s (.pushAssign item true)
        { s with buffer := Function.update s.buffer h junk, prod := .done .threw }
  | pushStore {s : State T} {item : T} {n : Nat} : s.prod = .store item n →
      Step Capacity s (.pushStore item) { s with head := n, prod := .done .pushed }
  | pushRet {s : State T} {r : Fifo.Res T} : s.prod = .done r →
      Step Capacity s (.pushRet r) { s with prod := .idle }
  -- `pop`
  | pop {s : State T} : s.cons = .idle → Step Capacity s .pop { s with cons := .loadTail }
  | popLoadTail {s : State T} : s.cons = .loadTail →
      Step Capacity s .popLoadTail { s with cons := .loadHead s.tail }
  | popLoadHead {s : State T} {t : Nat} : s.cons = .loadHead t → t ≠ s.head →
      Step Capacity s (.popLoadHead false) { s with cons := .read t }
  | popEmpty {s : State T} {t : Nat} : s.cons = .loadHead t → t = s.head →
      Step Capacity s (.popLoadHead true) { s with cons := .done .empty }
  | popRead {s : State T} {t : Nat} : s.cons = .read t →
      Step Capacity s (.popRead false) { s with cons := .store t (s.buffer t) }
  | popThrow {s : State T} {t : Nat} : s.cons = .read t →
      Step Capacity s (.popRead true) { s with cons := .done .threw }
  | popStore {s : State T} {t : Nat} {elem : T} : s.cons = .store t elem →
      Step Capacity s (.popStore elem)
        { s with tail := nextIndex Capacity t, cons := .done (.popped elem) }
  | popRet {s : State T} {r : Fifo.Res T} : s.cons = .done r →
      Step Capacity s (.popRet r) { s with cons := .idle }

/-- The ring buffer and its two threads, from the constructor on. -/
def ring (T : Type*) (Capacity : Nat) : System (State T) (Label T) where
  init s := s.head = 0 ∧ s.tail = 0 ∧ s.prod = .idle ∧ s.cons = .idle
  step := Step Capacity

/-! ## The queue it stands for -/

/-- What a step means at the queue: a push takes effect at its store to `head_`, at the load of
`tail_` that finds no room, or where its assignment throws; a pop at its store to `tail_`, at the
load of `head_` that finds nothing, or where its assignment throws. -/
def events : Label T → List (Atomic.Event Tid (Fifo.Op T) (Fifo.Res T))
  | .push item => [.call .producer (.push item)]
  | .pushLoadTail item true => [.commit .producer (.push item) .full]
  | .pushAssign item true => [.commit .producer (.push item) .threw]
  | .pushStore item => [.commit .producer (.push item) .pushed]
  | .pushRet r => [.ret .producer r]
  | .pop => [.call .consumer .pop]
  | .popLoadHead true => [.commit .consumer .pop .empty]
  | .popRead true => [.commit .consumer .pop .threw]
  | .popStore elem => [.commit .consumer .pop (.popped elem)]
  | .popRet r => [.ret .consumer r]
  | _ => []

/-- The number of elements between `tail` and `head`. -/
def count (Capacity head tail : Nat) : Nat :=
  if tail ≤ head then head - tail else Capacity + 1 - (tail - head)

/-- The elements between `tail_` and `head_`, oldest first. -/
def contents (Capacity : Nat) (s : State T) : List T :=
  Circular.window (Capacity + 1) s.buffer s.tail (count Capacity s.head s.tail)

/-- What the producer's call of `push` is at the queue. -/
def PushPc.phase : PushPc T → Atomic.Phase (Fifo.Op T) (Fifo.Res T)
  | .idle => .idle
  | .loadHead item | .loadTail item _ _ | .assign item _ _ | .store item _ => .called (.push item)
  | .done r => .committed r

/-- What the consumer's call of `pop` is at the queue. -/
def PopPc.phase : PopPc T → Atomic.Phase (Fifo.Op T) (Fifo.Res T)
  | .idle => .idle
  | .loadTail | .loadHead _ | .read _ | .store _ _ => .called .pop
  | .done r => .committed r

/-- The state of the atomic queue that a state of the ring buffer stands for. -/
def abs (Capacity : Nat) (s : State T) : Atomic.State Tid (List T) (Fifo.Op T) (Fifo.Res T) where
  val := contents Capacity s
  phase
    | .producer => s.prod.phase
    | .consumer => s.cons.phase

/-- The operations that took effect in a run, in order, with their results. -/
def effects (ls : List (Label T)) : List (Fifo.Op T × Fifo.Res T) :=
  (ls.flatMap events).filterMap Atomic.Event.effect

/-- Slot `i` is accessed by the step that `s` is about to do. -/
def Accesses (s : State T) (i : Nat) : Prop :=
  (∃ item n, s.prod = .assign item i n) ∨ s.cons = .read i

end Spsc
