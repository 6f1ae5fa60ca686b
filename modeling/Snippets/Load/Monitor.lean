import Snippets.Load.Session

/-!
# The monitor of the load clients

`main` and `monitor ()`, the same in `asio/echo/client.cc` and in `asio/echo/co_client.cc`: ten
threads start the sessions, and the monitor reads the counters one by one, at first until
`completed` is not below `connections`, and then until `connected` is 0, when it sets `stop`.
-/

namespace Load

open Lts

/-- The sessions that a thread starts: `conns = connections / 10`, and one more for a rest. -/
def conns (connections : Nat) : Nat :=
  connections / 10 + if connections % 10 = 0 then 0 else 1

/-- A session, by its thread and its place in the thread's loop. -/
abbrev Key (connections : Nat) := Fin 10 × Fin (conns connections)

/-- Where `monitor ()` is, named after what it reads or writes next. -/
inductive Monitor
  /-- `for (; !stop && completed < connections; ..)` -/
  | connecting
  | completed
  /-- `printf ("\rConnecting: ..")` -/
  | progress
  /-- `printf ("\rEstablished ..")` -/
  | established₁
  | established₂
  /-- `if (stop) return;` -/
  | established
  /-- `for (; !stop; times++)` -/
  | active
  /-- `if (connected.load () == 0)` -/
  | connected
  /-- `stop = true;` -/
  | stopping
  /-- `int now = echoes.load ();` and `printf (fmt, ..)` -/
  | now
  | active₁
  | active₂
  /-- `int total = echoes.load ();` and `printf (fmt, ..)` -/
  | total
  | total₁
  | total₂
  | returned
  deriving DecidableEq

/-- Where the monitor is after its next read of `stop` or of a counter. -/
def Monitor.next (connections : Nat) (stop : Bool) (counters : Counter → Int) : Monitor → Monitor
  | .connecting => if stop then .established₁ else .completed
  | .completed => if counters .completed < connections then .progress else .established₁
  | .progress => .connecting
  | .established₁ => .established₂
  | .established₂ => .established
  | .established => if stop then .returned else .active
  | .active => if stop then .total else .connected
  | .connected => if counters .connected = 0 then .stopping else .now
  | .stopping => .total
  | .now => .active₁
  | .active₁ => .active₂
  | .active₂ => .active
  | .total => .total₁
  | .total₁ => .total₂
  | .total₂ => .returned
  | .returned => .returned

/-- All sessions of the program, the thread of the monitor, and `stop`. -/
structure Process (connections : Nat) where
  clients : State (Key connections)
  monitor : Monitor
  stop : Bool

/-- A step of a session or of the monitor, or the signal. -/
inductive Event (connections : Nat)
  | session (a : Action (Key connections))
  | monitor
  /-- `SIGINT` -/
  | interrupt

/-- The monitor makes one read at a time, between the updates of the sessions, and sets `stop` after
it has read that none is connected. -/
inductive Process.Step (p : Program) {connections : Nat} (s : Process connections) :
    Event connections → Process connections → Prop
  | session {a : Action (Key connections)} {clients : State (Key connections)} :
      Load.Step p Prod.fst s.clients a clients →
      Step p s (.session a) { s with clients := clients }
  | monitor : s.monitor ≠ .returned →
      Step p s .monitor { s with
        monitor := s.monitor.next connections s.stop s.clients.counters
        stop := s.stop || s.monitor == .stopping }
  | interrupt : Step p s .interrupt { s with stop := true }

/-- A load client with the argument `connections`. -/
def process (p : Program) (connections : Nat) :
    System (Process connections) (Event connections) where
  init s := (clients p Prod.fst).init s.clients ∧ s.monitor = .connecting ∧ s.stop = false
  step := Process.Step p

/-! ## When the monitor stops the client -/

/-- The session failed to connect, or failed later. -/
def Session.Over : Session → Prop
  | .running _ none => True
  | .ended => True
  | _ => False

/-- When the monitor sets `stop`, all sessions are over. -/
def Process.Safe {connections : Nat} (s : Process connections) : Prop :=
  s.monitor = .stopping → ∀ k, (s.clients.sessions k).Over

/-- The monitor does not read 0 from `connected` while a session is about to add itself. -/
def NoneArriving {connections : Nat} (s : Process connections) (e : Event connections) : Prop :=
  e = .monitor → s.monitor = .connected → s.clients.counters .connected = 0 →
    ∀ k, .inc .connected ∉ (s.clients.sessions k).left

end Load
