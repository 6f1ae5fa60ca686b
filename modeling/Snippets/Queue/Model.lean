import Snippets.Lib.Atomic

/-!
# `concurrent_blocking_queue`

The queue of `null/concurrent_blocking_queue.h` and any number of threads that call it. What a
thread does between acquiring `mutex_` and releasing it (by returning, or by parking in a wait)
is one step, a *section*: the first section of a call starts with `mutex_` free, a later one
when a thread woken from a condition variable re-acquires it. The other steps are the start and
the return of a call, a spurious wakeup, a timeout of `wait_for`, and the two `notify_all` of
`close()`, which it issues after its section, without `mutex_`.

`wait` releases the mutex and parks in one step; `notify_one` wakes an arbitrary parked thread
if there is one; woken threads compete for the mutex with the first sections of other calls. A
thread in `wait_for` may time out while it is parked or after it was woken, up to the moment
it has the mutex again.

Element operations may throw: storing the element of a push (a throwing `push_back` has no
effect), moving the front element out, and moving it into the returned `std::optional`.
-/

namespace BlockingQueue

open Lts

/-- `not_full_` and `not_empty_` -/
inductive Cv
  | notFull
  | notEmpty
  deriving DecidableEq

/-- A call. `rvalue`: the pushed argument is an rvalue, so `std::forward` moves from it. -/
inductive Call (T : Type*)
  | push (elem : T) (rvalue : Bool)
  | tryPush (elem : T) (rvalue : Bool)
  | pop
  | tryPop
  | close
  | size
  | empty
  | isClosed
  deriving DecidableEq

/-- The caller's argument of a push when the call is over. -/
inductive Arg (T : Type*)
  | intact (elem : T)
  | movedFrom
  deriving DecidableEq

/-- What a call returns. -/
inductive Res (T : Type*)
  | pushed (ok : Bool) (arg : Arg T)
  | popped (elem : Option T)
  | closed
  | size (n : Nat)
  | flag (b : Bool)
  | threw
  deriving DecidableEq

/-- Which element operation of a section throws. -/
inductive ThrowAt
  | pushBack
  | moveFront
  | returnElem
  deriving DecidableEq

/-- The members that `mutex_` protects. -/
structure Shared (T : Type*) where
  queue : List T
  closed : Bool
  deriving DecidableEq

/-- How a section ends: parked in its wait, or with `mutex_` released and the call at its end,
after a `notify_one` on the given condition variable if there is one. `undefined`: `front()` of an
empty deque. -/
inductive Outcome (T : Type*)
  | park
  | leave (q : Shared T) (notify : Option Cv) (r : Res T)
  | undefined
  deriving DecidableEq

variable {T : Type*}

/-! ## The sections -/

/-- The predicate of the waits on `not_full_cv_`. -/
def Shared.notFull (capacity : Nat) (q : Shared T) : Bool :=
  decide (q.queue.length < capacity) || q.closed

/-- The predicate of the waits on `not_empty_cv_`. -/
def Shared.notEmpty (q : Shared T) : Bool := !q.queue.isEmpty || q.closed

/-- `wait (lock, pred)` with the mutex held: `none` to park (again). -/
def wait (pred : Bool) : Option Unit := if pred then some () else none

/-- `wait_for (lock, timeout, pred)` with the mutex held: its result, or `none` to park. -/
def waitFor (pred timedOut : Bool) : Option Bool :=
  if pred then some true else if timedOut then some false else none

/-- The argument after `std::forward<U> (elem)` was stored. -/
def forward (elem : T) (rvalue : Bool) : Arg T := if rvalue then .movedFrom else .intact elem

/-- `queue_.push_back (std::forward<U> (elem)); not_empty_cv_.notify_one (); return true;` -/
def store (q : Shared T) (elem : T) (rvalue : Bool) (throwAt : Option ThrowAt) : Outcome T :=
  if throwAt = some .pushBack then .leave q none .threw
  else .leave { q with queue := q.queue ++ [elem] } (some .notEmpty)
    (.pushed true (forward elem rvalue))

/-- `push (elem)` under the mutex -/
def push (capacity : Nat) (q : Shared T) (elem : T) (rvalue : Bool) (throwAt : Option ThrowAt) :
    Outcome T :=
  match wait (q.notFull capacity) with
  | none => .park
  | some () =>
    if q.closed then .leave q none (.pushed false (.intact elem))
    else store q elem rvalue throwAt

/-- `try_push (elem, timeout)` under the mutex -/
def tryPush (capacity : Nat) (q : Shared T) (elem : T) (rvalue timedOut : Bool)
    (throwAt : Option ThrowAt) : Outcome T :=
  match waitFor (q.notFull capacity) timedOut with
  | none => .park
  | some success =>
    if !success || q.closed then .leave q none (.pushed false (.intact elem))
    else store q elem rvalue throwAt

/-- `auto elem = std::move (queue_.front ()); queue_.pop_front (); not_full_cv_.notify_one ();
return elem;` -/
def take (q : Shared T) (throwAt : Option ThrowAt) : Outcome T :=
  match q.queue with
  | [] => .undefined
  | elem :: rest =>
    if throwAt = some .moveFront then .leave q none .threw
    else .leave { q with queue := rest } (some .notFull)
      (if throwAt = some .returnElem then .threw else .popped (some elem))

/-- `pop ()` under the mutex -/
def pop (q : Shared T) (throwAt : Option ThrowAt) : Outcome T :=
  match wait q.notEmpty with
  | none => .park
  | some () =>
    if q.queue.isEmpty && q.closed then .leave q none (.popped none) else take q throwAt

/-- `try_pop (timeout)` under the mutex -/
def tryPop (q : Shared T) (timedOut : Bool) (throwAt : Option ThrowAt) : Outcome T :=
  match waitFor q.notEmpty timedOut with
  | none => .park
  | some success =>
    if !success || (q.queue.isEmpty && q.closed) then .leave q none (.popped none)
    else take q throwAt

/-- The section of `close`; its two `notify_all` are steps of their own. -/
def close (q : Shared T) : Outcome T := .leave { q with closed := true } none .closed

def size (q : Shared T) : Outcome T := .leave q none (.size q.queue.length)

def empty (q : Shared T) : Outcome T := .leave q none (.flag q.queue.isEmpty)

def isClosed (q : Shared T) : Outcome T := .leave q none (.flag q.closed)

/-- The section of a call. `timedOut`: its `wait_for` has timed out. -/
def runSection (capacity : Nat) (timedOut : Bool) (throwAt : Option ThrowAt) (q : Shared T) :
    Call T → Outcome T
  | .push elem rvalue => push capacity q elem rvalue throwAt
  | .tryPush elem rvalue => tryPush capacity q elem rvalue timedOut throwAt
  | .pop => pop q throwAt
  | .tryPop => tryPop q timedOut throwAt
  | .close => close q
  | .size => size q
  | .empty => empty q
  | .isClosed => isClosed q

/-- The condition variable a call waits on. -/
def Call.cv : Call T → Option Cv
  | .push .. | .tryPush .. => some .notFull
  | .pop | .tryPop => some .notEmpty
  | _ => none

/-- A call that waits with `wait_for`. -/
def Call.timed : Call T → Bool
  | .tryPush .. | .tryPop => true
  | _ => false

/-! ## The threads -/

/-- Where a thread is. -/
inductive Pc (T : Type*)
  | idle
  /-- Before the first section of the call. -/
  | enter (c : Call T)
  /-- In the call's wait, not notified. -/
  | parked (c : Call T)
  /-- Woken from the call's wait, without the mutex yet. -/
  | woken (c : Call T) (timedOut : Bool)
  /-- In `close ()`, before its `notify_all` on the condition variable. -/
  | notifyAll (cv : Cv)
  | done (r : Res T)
  deriving DecidableEq

/-- A thread after the section that ended its call's work under the mutex. -/
def Pc.after (c : Call T) (r : Res T) : Pc T :=
  match c with
  | .close => .notifyAll .notEmpty
  | _ => .done r

/-- The thread's next step is a section of the call `c`. -/
inductive Pc.Ready : Pc T → Call T → Bool → Prop
  | enter (c : Call T) : Ready (.enter c) c false
  | woken (c : Call T) (timedOut : Bool) : Ready (.woken c timedOut) c timedOut

/-- A thread when `notify_all` on `cv` happens. -/
def Pc.wake (cv : Cv) : Pc T → Pc T
  | .parked c => if c.cv = some cv then .woken c false else .parked c
  | p => p

/-- What the mutex protects, and where each thread is. -/
structure State (ι T : Type*) where
  shared : Shared T
  pc : ι → Pc T

/-- A thread calls, waits, ends its section, is woken without a notification, issues a `notify_all`
of `close ()`, or returns. -/
inductive Label (ι T : Type*)
  | call (t : ι) (c : Call T)
  | park (t : ι) (c : Call T)
  | leave (t : ι) (c : Call T) (throwAt : Option ThrowAt) (r : Res T)
  | spurious (t : ι)
  | timeout (t : ι)
  | notifyAll (t : ι) (cv : Cv)
  | ret (t : ι) (r : Res T)

variable {ι : Type*} [DecidableEq ι]

/-- `notify_one`: one parked thread is woken if there is one. -/
inductive NotifyOne (cv : Cv) (pc : ι → Pc T) : (ι → Pc T) → Prop
  | one {t : ι} {c : Call T} : pc t = .parked c → c.cv = some cv →
      NotifyOne cv pc (Function.update pc t (.woken c false))
  | none : (∀ t c, pc t = .parked c → c.cv ≠ some cv) → NotifyOne cv pc pc

/-- The notification a section issues before it releases the mutex. -/
inductive Notify (pc : ι → Pc T) : Option Cv → (ι → Pc T) → Prop
  | none : Notify pc none pc
  | one {cv : Cv} {pc' : ι → Pc T} : NotifyOne cv pc pc' → Notify pc (some cv) pc'

/-- The steps of the threads. A section runs under the mutex, so it is one step, with the
`notify_one` that it issues; the `notify_all` of `close ()` come after it. -/
inductive Step (capacity : Nat) : State ι T → Label ι T → State ι T → Prop
  | call {s : State ι T} {t : ι} {c : Call T} : s.pc t = .idle →
      Step capacity s (.call t c) { s with pc := Function.update s.pc t (.enter c) }
  | park {s : State ι T} {t : ι} {c : Call T} {timedOut : Bool} :
      (s.pc t).Ready c timedOut → runSection capacity timedOut none s.shared c = .park →
      Step capacity s (.park t c) { s with pc := Function.update s.pc t (.parked c) }
  | leave {s : State ι T} {t : ι} {c : Call T} {timedOut : Bool} {throwAt : Option ThrowAt}
      {q : Shared T} {notify : Option Cv} {r : Res T} {pc : ι → Pc T} :
      (s.pc t).Ready c timedOut →
      runSection capacity timedOut throwAt s.shared c = .leave q notify r →
      Notify s.pc notify pc →
      Step capacity s (.leave t c throwAt r) ⟨q, Function.update pc t (.after c r)⟩
  | spurious {s : State ι T} {t : ι} {c : Call T} : s.pc t = .parked c →
      Step capacity s (.spurious t) { s with pc := Function.update s.pc t (.woken c false) }
  | timeout {s : State ι T} {t : ι} {c : Call T} :
      s.pc t = .parked c ∨ s.pc t = .woken c false → c.timed = true →
      Step capacity s (.timeout t) { s with pc := Function.update s.pc t (.woken c true) }
  | notifyAllEmpty {s : State ι T} {t : ι} : s.pc t = .notifyAll .notEmpty →
      Step capacity s (.notifyAll t .notEmpty)
        { s with pc := Function.update (fun u => (s.pc u).wake .notEmpty) t (.notifyAll .notFull) }
  | notifyAllFull {s : State ι T} {t : ι} : s.pc t = .notifyAll .notFull →
      Step capacity s (.notifyAll t .notFull)
        { s with pc := Function.update (fun u => (s.pc u).wake .notFull) t (.done .closed) }
  | ret {s : State ι T} {t : ι} {r : Res T} : s.pc t = .done r →
      Step capacity s (.ret t r) { s with pc := Function.update s.pc t .idle }

/-- The queue and its threads, from the constructor on. -/
def system (ι T : Type*) [DecidableEq ι] (capacity : Nat) : System (State ι T) (Label ι T) where
  init s := s = ⟨⟨[], false⟩, fun _ => .idle⟩
  step := Step capacity

/-- No element operation throws in the step. -/
def NoThrow (_ : State ι T) : Label ι T → Prop
  | .leave _ _ throwAt _ => throwAt = none
  | _ => True

end BlockingQueue
