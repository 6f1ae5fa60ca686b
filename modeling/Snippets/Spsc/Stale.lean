import Snippets.Spsc.Ring

/-!
# `spsc_ring_buffer` with outdated index reads

The ring buffer again, with the memory orders of `null/spsc_ring_buffer.h` in place of
sequential consistency. Every value an index has held is kept: a thread reads its own index as it
last stored it (the relaxed load), and a load of the other thread's index may return any value
from the one the thread read there last on (the acquire load). Every write to a slot is kept too:
a store to `head_` carries the slot writes made before it (release), a load that returns the
value stored makes them visible, and a slot read may return any write to the slot but those that
a visible one overwrites. Writing a slot and reading a slot take two steps each, and a read of
a slot that is being written may return anything.
-/

namespace Spsc.Stale

open Lts

/-- Where the producer is in `push`; in `writing` the assignment to the slot has begun. -/
inductive PushPc (T : Type*)
  | idle
  | loadHead (item : T)
  | loadTail (item : T) (currHead nextHead : Nat)
  | assign (item : T) (currHead nextHead : Nat)
  | writing (item : T) (currHead nextHead : Nat)
  | store (item : T) (nextHead : Nat)
  | done (r : Fifo.Res T)

/-- Where the consumer is in `pop`; in `reading` the assignment from the slot has begun. -/
inductive PopPc (T : Type*)
  | idle
  | loadTail
  | loadHead (currTail : Nat)
  | read (currTail : Nat)
  | reading (currTail : Nat)
  | store (currTail : Nat) (elem : T)
  | done (r : Fifo.Res T)

/-- A store to `head_`: the value, and how many writes to each slot came before it. -/
structure Store where
  value : Nat
  view : Nat → Nat

/-- `heads` and `tails` are the values the indices have held and `slots i` the ones slot `i` has
held, oldest first; `seenTail` is the position in `tails` of the value the producer read last,
`seenHead` the one in `heads` of the value the consumer read last, and `visible` how many writes
to each slot are visible to the consumer. -/
structure State (T : Type*) where
  heads : List Store
  tails : List Nat
  slots : Nat → List T
  prod : PushPc T
  cons : PopPc T
  seenTail : Nat
  seenHead : Nat
  visible : Nat → Nat

/-- The steps of `push` and `pop`, in which an assignment begins and ends. -/
inductive Label (T : Type*)
  | push (item : T)
  | pushLoadHead
  | pushLoadTail (full : Bool)
  | pushWrite
  | pushWritten (threw : Bool)
  | pushStore (item : T)
  | pushRet (r : Fifo.Res T)
  | pop
  | popLoadTail
  | popLoadHead (empty : Bool)
  | popRead
  | popGot (elem : T)
  | popThrow
  | popStore (elem : T)
  | popRet (r : Fifo.Res T)

variable {T : Type*} {Capacity : Nat}

/-- A read of slot `i` may return `x`. -/
def State.Readable (s : State T) (i : Nat) (x : T) : Prop :=
  (∃ k, s.visible i ≤ k + 1 ∧ (s.slots i)[k]? = some x) ∨ ∃ item n, s.prod = .writing item i n

/-- A load of the other thread's index gives any value that it has held, from the one that was read
last on; the thread's own index is always known. -/
inductive Step (Capacity : Nat) : State T → Label T → State T → Prop
  -- `push`
  | push {s : State T} {item : T} : s.prod = .idle →
      Step Capacity s (.push item) { s with prod := .loadHead item }
  | pushLoadHead {s : State T} {item : T} {m : Store} : s.prod = .loadHead item →
      s.heads.getLast? = some m →
      Step Capacity s .pushLoadHead
        { s with prod := .loadTail item m.value (nextIndex Capacity m.value) }
  | pushLoadTail {s : State T} {item : T} {h n k t : Nat} : s.prod = .loadTail item h n →
      s.seenTail ≤ k → s.tails[k]? = some t → n ≠ t →
      Step Capacity s (.pushLoadTail false) { s with prod := .assign item h n, seenTail := k }
  | pushFull {s : State T} {item : T} {h n k t : Nat} : s.prod = .loadTail item h n →
      s.seenTail ≤ k → s.tails[k]? = some t → n = t →
      Step Capacity s (.pushLoadTail true) { s with prod := .done .full, seenTail := k }
  | pushWrite {s : State T} {item : T} {h n : Nat} : s.prod = .assign item h n →
      Step Capacity s .pushWrite { s with prod := .writing item h n }
  | pushWritten {s : State T} {item : T} {h n : Nat} : s.prod = .writing item h n →
      Step Capacity s (.pushWritten false)
        { s with slots := Function.update s.slots h (s.slots h ++ [item]), prod := .store item n }
  | pushThrow {s : State T} {item junk : T} {h n : Nat} : s.prod = .writing item h n →
      Step Capacity s (.pushWritten true)
        { s with slots := Function.update s.slots h (s.slots h ++ [junk]), prod := .done .threw }
  | pushStore {s : State T} {item : T} {n : Nat} : s.prod = .store item n →
      Step Capacity s (.pushStore item)
        { s with heads := s.heads ++ [⟨n, fun i => (s.slots i).length⟩], prod := .done .pushed }
  | pushRet {s : State T} {r : Fifo.Res T} : s.prod = .done r →
      Step Capacity s (.pushRet r) { s with prod := .idle }
  -- `pop`
  | pop {s : State T} : s.cons = .idle → Step Capacity s .pop { s with cons := .loadTail }
  | popLoadTail {s : State T} {t : Nat} : s.cons = .loadTail → s.tails.getLast? = some t →
      Step Capacity s .popLoadTail { s with cons := .loadHead t }
  | popLoadHead {s : State T} {t k : Nat} {m : Store} : s.cons = .loadHead t →
      s.seenHead ≤ k → s.heads[k]? = some m → t ≠ m.value →
      Step Capacity s (.popLoadHead false)
        { s with cons := .read t, seenHead := k, visible := fun i => max (s.visible i) (m.view i) }
  | popEmpty {s : State T} {t k : Nat} {m : Store} : s.cons = .loadHead t →
      s.seenHead ≤ k → s.heads[k]? = some m → t = m.value →
      Step Capacity s (.popLoadHead true)
        { s with cons := .done .empty, seenHead := k,
                 visible := fun i => max (s.visible i) (m.view i) }
  | popRead {s : State T} {t : Nat} : s.cons = .read t →
      Step Capacity s .popRead { s with cons := .reading t }
  | popGot {s : State T} {t : Nat} {elem : T} : s.cons = .reading t → s.Readable t elem →
      Step Capacity s (.popGot elem) { s with cons := .store t elem }
  | popThrow {s : State T} {t : Nat} : s.cons = .reading t →
      Step Capacity s .popThrow { s with cons := .done .threw }
  | popStore {s : State T} {t : Nat} {elem : T} : s.cons = .store t elem →
      Step Capacity s (.popStore elem)
        { s with tails := s.tails ++ [nextIndex Capacity t], cons := .done (.popped elem) }
  | popRet {s : State T} {r : Fifo.Res T} : s.cons = .done r →
      Step Capacity s (.popRet r) { s with cons := .idle }

/-- The ring buffer and its two threads; the constructor writes every slot and both indices before
the threads start. -/
def ring (T : Type*) (Capacity : Nat) : System (State T) (Label T) where
  init s := s.heads = [⟨0, fun _ => 1⟩] ∧ s.tails = [0] ∧ (∀ i, (s.slots i).length = 1) ∧
    s.prod = .idle ∧ s.cons = .idle ∧ s.seenTail = 0 ∧ s.seenHead = 0 ∧ ∀ i, s.visible i = 1
  step := Step Capacity

/-! ## What happens in a run -/

/-- The elements of the accepted pushes, in order. -/
def accepted (ls : List (Label T)) : List T :=
  ls.filterMap fun
    | .pushStore item => some item
    | _ => none

/-- The elements popped, in order. -/
def popped (ls : List (Label T)) : List T :=
  ls.filterMap fun
    | .popStore elem => some elem
    | _ => none

/-- The producer is about to write slot `i`, or is writing it. -/
def State.Writes (s : State T) (i : Nat) : Prop :=
  ∃ item n, s.prod = .assign item i n ∨ s.prod = .writing item i n

/-- The consumer is about to read slot `i`, or is reading it. -/
def State.Reads (s : State T) (i : Nat) : Prop :=
  s.cons = .read i ∨ s.cons = .reading i

end Spsc.Stale
