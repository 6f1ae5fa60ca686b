import Snippets.Lib.Lts
import Snippets.Lib.Threads

/-!
# The control block of `shared_ptr` and `weak_ptr`

`control_block_base` of `null/shared_ptr.h`, used by any number of threads through the handles
they own. Every atomic operation on a counter is one step (sequentially consistent), and so is
each call of `dispose ()` and its return, and each call of `destroy ()`; the steps of the threads
interleave in any order.

A thread owns some shared and some weak handles and has a stack of the control block's functions
it is in. It starts a call when it is in none, or in `dispose ()`, where the deleter runs: the
object's destructor may use handles to the block that the thread owns. Handles move between
threads without touching the block.

The counters are `long`, so their arithmetic is modulo `2 ^ 64`; there are never `2 ^ 63` handles.
-/

namespace ControlBlock

open Lts

/-- Where a thread is in a function of the control block. -/
inductive Frame
  /-- `dec_use_count`: its `fetch_sub` returned 1, `dispose ()` is next. -/
  | release
  /-- In `dispose ()`. -/
  | disposing
  /-- `dec_use_count`: `dispose ()` has returned, `dec_weak_count ()` is next. -/
  | decWeak
  /-- `dec_weak_count`: its `fetch_sub` returned 1, `destroy ()` is next. -/
  | destroy
  /-- In the loop of `lock_use_count` with the local `n`. -/
  | lock (n : BitVec 64)
  deriving DecidableEq

/-- A thread: the handles it owns and the calls it is in, innermost first. -/
structure Thread where
  shared : Nat
  weak : Nat
  stack : List Frame

/-- The block and its threads. The last three count the calls of `dispose ()`, its returns and the
calls of `destroy ()`. -/
structure State (ι : Type*) where
  useCount : BitVec 64
  weakCount : BitVec 64
  threads : ι → Thread
  disposals : Nat
  disposed : Nat
  destroys : Nat

/-- The atomic steps of the functions of the block, by thread, and handles that are given to another
thread. -/
inductive Label (ι : Type*)
  | incUse (t : ι)
  | decUse (t : ι)
  | incWeakShared (t : ι)
  | incWeak (t : ι)
  | decWeak (t : ι)
  | lockLoad (t : ι)
  | lockFail (t : ι)
  | lockSucceed (t : ι)
  | lockRetry (t : ι)
  | dispose (t : ι)
  | disposed (t : ι)
  | decWeakLast (t : ι)
  | destroy (t : ι)
  | give (t u : ι)
  deriving DecidableEq

/-- The step accesses the control block. -/
def Label.touches {ι : Type*} : Label ι → Bool
  | .lockFail _ | .give _ _ => false
  | _ => true

/-- A thread that may start a call: in no function of the block, or in the deleter. -/
def Thread.Free (th : Thread) : Prop := th.stack = [] ∨ th.stack.head? = some .disposing

/-- The thread enters a function. -/
def Thread.push (th : Thread) (f : Frame) : Thread := { th with stack := f :: th.stack }

variable {ι : Type*} [DecidableEq ι]

def State.set (s : State ι) (t : ι) (th : Thread) : State ι :=
  { s with threads := Function.update s.threads t th }

/-- The step of `dec_weak_count` on the weak count: `destroy ()` is next if it was the last. -/
def Thread.afterDecWeak (th : Thread) (weakCount : BitVec 64) : Thread :=
  if weakCount = 1 then th.push .destroy else th

/-- The step of `dec_use_count` on the use count: `dispose ()` is next if it was the last. -/
def Thread.afterDecUse (th : Thread) (useCount : BitVec 64) : Thread :=
  if useCount = 1 then th.push .release else th

/-- Each step makes at most one access to a counter. A thread uses only handles that it owns. -/
inductive Step : State ι → Label ι → State ι → Prop
  /-- Copying a shared handle. -/
  | incUse {s : State ι} {t : ι} {n : Nat} : (s.threads t).Free → (s.threads t).shared = n + 1 →
      Step s (.incUse t) ({ s with useCount := s.useCount + 1 }.set t
        { s.threads t with shared := n + 2 })
  /-- Dropping a shared handle. -/
  | decUse {s : State ι} {t : ι} {n : Nat} : (s.threads t).Free → (s.threads t).shared = n + 1 →
      Step s (.decUse t) ({ s with useCount := s.useCount - 1 }.set t
        ({ s.threads t with shared := n }.afterDecUse s.useCount))
  /-- Making a weak handle from a shared one. -/
  | incWeakShared {s : State ι} {t : ι} : (s.threads t).Free → 0 < (s.threads t).shared →
      Step s (.incWeakShared t) ({ s with weakCount := s.weakCount + 1 }.set t
        { s.threads t with weak := (s.threads t).weak + 1 })
  /-- Copying a weak handle. -/
  | incWeak {s : State ι} {t : ι} : (s.threads t).Free → 0 < (s.threads t).weak →
      Step s (.incWeak t) ({ s with weakCount := s.weakCount + 1 }.set t
        { s.threads t with weak := (s.threads t).weak + 1 })
  /-- Dropping a weak handle. -/
  | decWeak {s : State ι} {t : ι} {n : Nat} : (s.threads t).Free → (s.threads t).weak = n + 1 →
      Step s (.decWeak t) ({ s with weakCount := s.weakCount - 1 }.set t
        ({ s.threads t with weak := n }.afterDecWeak s.weakCount))
  /-- Locking a weak handle: the load. -/
  | lockLoad {s : State ι} {t : ι} : (s.threads t).Free → 0 < (s.threads t).weak →
      Step s (.lockLoad t) (s.set t ((s.threads t).push (.lock s.useCount)))
  | lockFail {s : State ι} {t : ι} {rest : List Frame} : (s.threads t).stack = .lock 0 :: rest →
      Step s (.lockFail t) (s.set t { s.threads t with stack := rest })
  /-- The compare-exchange succeeds. -/
  | lockSucceed {s : State ι} {t : ι} {n : BitVec 64} {rest : List Frame} :
      (s.threads t).stack = .lock n :: rest → n ≠ 0 → s.useCount = n →
      Step s (.lockSucceed t) ({ s with useCount := n + 1 }.set t
        { s.threads t with shared := (s.threads t).shared + 1, stack := rest })
  /-- The compare-exchange fails, perhaps spuriously, and reloads. -/
  | lockRetry {s : State ι} {t : ι} {n : BitVec 64} {rest : List Frame} :
      (s.threads t).stack = .lock n :: rest → n ≠ 0 →
      Step s (.lockRetry t) (s.set t { s.threads t with stack := .lock s.useCount :: rest })
  | dispose {s : State ι} {t : ι} {rest : List Frame} : (s.threads t).stack = .release :: rest →
      Step s (.dispose t) ({ s with disposals := s.disposals + 1 }.set t
        { s.threads t with stack := .disposing :: rest })
  | disposed {s : State ι} {t : ι} {rest : List Frame} : (s.threads t).stack = .disposing :: rest →
      Step s (.disposed t) ({ s with disposed := s.disposed + 1 }.set t
        { s.threads t with stack := .decWeak :: rest })
  | decWeakLast {s : State ι} {t : ι} {rest : List Frame} :
      (s.threads t).stack = .decWeak :: rest →
      Step s (.decWeakLast t) ({ s with weakCount := s.weakCount - 1 }.set t
        ({ s.threads t with stack := rest }.afterDecWeak s.weakCount))
  | destroy {s : State ι} {t : ι} {rest : List Frame} : (s.threads t).stack = .destroy :: rest →
      Step s (.destroy t) ({ s with destroys := s.destroys + 1 }.set t
        { s.threads t with stack := rest })
  /-- Handing handles to another thread. -/
  | give {s : State ι} {t u : ι} {a b c d : Nat} : t ≠ u → (s.threads t).Free →
      (s.threads t).shared = a + c → (s.threads t).weak = b + d →
      Step s (.give t u) ((s.set t { s.threads t with shared := a, weak := b }).set u
        { s.threads u with shared := (s.threads u).shared + c, weak := (s.threads u).weak + d })

variable [Fintype ι]

/-- The handles to the block. -/
def State.handles (s : State ι) : Nat :=
  ∑ t, ((s.threads t).shared + (s.threads t).weak)

/-- A new control block, with one shared handle, and its threads; never `2 ^ 63` handles. -/
def system (ι : Type*) [DecidableEq ι] [Fintype ι] : System (State ι) (Label ι) where
  init s := ∃ t, s = ⟨1, 1, Function.update (fun _ => ⟨0, 0, []⟩) t ⟨1, 0, []⟩, 0, 0, 0⟩
  step s l s' := Step s l s' ∧ s'.handles < 2 ^ 63

end ControlBlock
