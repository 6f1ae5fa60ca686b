import Snippets.Queue.Model

/-!
# The closable bounded FIFO queue

`fifo capacity` is the sequential object that `concurrent_blocking_queue` is meant to be: a bounded
FIFO queue that can be closed once and for all. A push is accepted at the back while the queue is
open and has room; it is refused when the queue is closed, and `try_push` also when it is full; a
refused argument is left alone. A pop delivers the front element, closed or not; it delivers
nothing when the queue is empty and closed, and `try_pop` whenever the queue is empty.

`events` is the step of this object that a step of the threads is: a call takes effect in its last
section, the one that ends its work under the mutex.
-/

namespace BlockingQueue

open Lts

variable {T ι : Type*}

/-- `c` pushes `x`. -/
def Call.IsPush (c : Call T) (x : T) (rvalue : Bool) : Prop :=
  c = .push x rvalue ∨ c = .tryPush x rvalue

theorem Call.IsPush.inj {c : Call T} {x y : T} {b b' : Bool} (h : c.IsPush x b)
    (h' : c.IsPush y b') : x = y := by
  rcases h with rfl | rfl <;> rcases h' with h' | h' <;> cases h' <;> rfl

/-- The call delivers a value or none. -/
def Call.IsPop (c : Call T) : Prop := c = .pop ∨ c = .tryPop

/-- The calls on a bounded FIFO that can be closed, and their results. Only timed calls give up. -/
inductive FifoStep (capacity : Nat) : Shared T → Call T → Res T → Shared T → Prop
  | accept {q : Shared T} {c : Call T} {x : T} {rvalue : Bool} : c.IsPush x rvalue →
      q.closed = false → q.queue.length < capacity →
      FifoStep capacity q c (.pushed true (forward x rvalue)) { q with queue := q.queue ++ [x] }
  | refuse {q : Shared T} {c : Call T} {x : T} {rvalue : Bool} : c.IsPush x rvalue →
      q.closed = true ∨ (c.timed = true ∧ q.queue.length = capacity) →
      FifoStep capacity q c (.pushed false (.intact x)) q
  | deliver {q : Shared T} {c : Call T} {x : T} {rest : List T} : c.IsPop → q.queue = x :: rest →
      FifoStep capacity q c (.popped (some x)) { q with queue := rest }
  | nothing {q : Shared T} {c : Call T} : c.IsPop → q.queue = [] →
      q.closed = true ∨ c.timed = true → FifoStep capacity q c (.popped none) q
  | close {q : Shared T} : FifoStep capacity q .close .closed { q with closed := true }
  | size {q : Shared T} : FifoStep capacity q .size (.size q.queue.length) q
  | empty {q : Shared T} : FifoStep capacity q .empty (.flag q.queue.isEmpty) q
  | isClosed {q : Shared T} : FifoStep capacity q .isClosed (.flag q.closed) q

/-- The bounded FIFO that can be closed, as a sequential object. -/
def fifo (T : Type*) (capacity : Nat) : Atomic.Spec (Shared T) (Call T) (Res T) where
  init := ⟨[], false⟩
  step := FifoStep capacity

/-- The values of the pushes that returned true, in order. -/
def accepted (es : List (Call T × Res T)) : List T :=
  es.filterMap fun
    | (.push x _, .pushed true _) | (.tryPush x _, .pushed true _) => some x
    | _ => none

/-- The values delivered by pops, in order. -/
def delivered (es : List (Call T × Res T)) : List T :=
  es.filterMap fun
    | (_, .popped (some x)) => some x
    | _ => none

/-- What a step means at the queue. -/
def events : Label ι T → List (Atomic.Event ι (Call T) (Res T))
  | .call t c => [.call t c]
  | .leave t c _ r => [.commit t c r]
  | .ret t r => [.ret t r]
  | _ => []

/-- The operations that took effect in a run, in order, with their results. -/
def effects (ls : List (Label ι T)) : List (Call T × Res T) :=
  (ls.flatMap events).filterMap Atomic.Event.effect

/-- A call takes effect with the section that ends its work under the mutex. -/
def Pc.phase : Pc T → Atomic.Phase (Call T) (Res T)
  | .idle => .idle
  | .enter c | .parked c | .woken c _ => .called c
  | .notifyAll _ => .committed .closed
  | .done r => .committed r

/-- The state of the sequential object's atomic version that a state of the threads stands for. -/
def abs (s : State ι T) : Atomic.State ι (Shared T) (Call T) (Res T) where
  val := s.shared
  phase t := (s.pc t).phase

/-! ## The object's laws -/

variable {capacity : Nat}

/-- Nothing is lost, duplicated or reordered, and the bound is kept. -/
theorem fifo_conserves {es : List (Call T × Res T)} {q : Shared T}
    (h : (fifo T capacity).Legal ⟨[], false⟩ es q) :
    accepted es = delivered es ++ q.queue ∧ q.queue.length ≤ capacity := by
  refine h.invariant
    (I := fun es q => accepted es = delivered es ++ q.queue ∧ q.queue.length ≤ capacity)
    ⟨rfl, Nat.zero_le _⟩ fun es q c r q' ⟨ih, hlen⟩ hs => ?_
  simp only [accepted, delivered, List.filterMap_append] at ih ⊢
  cases hs with
  | @accept _ x _ hc _ hlt =>
    have hlen' : (q.queue ++ [x]).length ≤ capacity := by
      rw [List.length_append]; exact hlt
    rcases hc with rfl | rfl
    · exact ⟨by simp [ih], hlen'⟩
    · exact ⟨by simp [ih], hlen'⟩
  | refuse hc _ => rcases hc with rfl | rfl <;> exact ⟨by simp [ih], hlen⟩
  | deliver hc hq =>
    rw [hq] at ih hlen
    exact ⟨by simp [ih], Nat.le_of_succ_le hlen⟩
  | nothing hc _ _ => rcases hc with rfl | rfl <;> exact ⟨by simp [ih], hlen⟩
  | close | size | empty | isClosed => exact ⟨by simp [ih], hlen⟩

theorem FifoStep.closed {q q' : Shared T} {c : Call T} {r : Res T}
    (h : FifoStep capacity q c r q') (hc : q.closed = true) : q'.closed = true := by
  cases h with
  | close => rfl
  | _ => exact hc

end BlockingQueue
