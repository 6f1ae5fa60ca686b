import Snippets.Load.Monitor

/-!
# The load clients as programs

`main` of `asio/echo/client.cc` and of `asio/echo/co_client.cc` with the threads that it starts. A
thread starts its sessions and runs its `io_context`; `main` sleeps until `stop` is set, stops all
contexts and joins all threads. A context that is stopped finishes the handler that it is in, and
`run ()` returns, as it does when no session of the thread has anything outstanding. A thread that
cannot make a session, for want of sockets, prints the exception and returns.
-/

namespace Load

open Lts

/-- Where `main` is. -/
inductive Main
  /-- `echo_thrds.emplace_back (..)`, with `i` threads started; then `monitor_thrd` -/
  | spawning (i : Nat)
  /-- `for (; !stop;)` -/
  | sleeping
  /-- `for (auto &io : ctxs) io.stop ();` -/
  | stopping (i : Nat)
  /-- `for (auto &thrd : echo_thrds) thrd.join ();`, then `monitor_thrd.join ();` -/
  | joining (i : Nat)
  | returned
  deriving DecidableEq

/-- A thread of `echo_thrds`. -/
inductive Thread
  | unspawned
  /-- `for (int j = 0; j < conns; j++)` -/
  | starting (j : Nat)
  /-- `io.run ();` -/
  | running
  | returned
  deriving DecidableEq

/-- The sessions with the monitor, `main`, and the ten threads with their contexts. -/
structure Execution (connections : Nat) where
  process : Process connections
  main : Main
  threads : Fin 10 → Thread
  /-- the contexts that are stopped -/
  stopped : Fin 10 → Bool

namespace Execution

/-- Who makes a step. -/
inductive Label (connections : Nat)
  | main
  /-- a thread enters or leaves `io.run ()` -/
  | thread (i : Fin 10)
  | session (a : Action (Key connections))
  /-- `session::make (io)` throws -/
  | fail (i : Fin 10)
  | monitor
  /-- `SIGINT` -/
  | interrupt

variable {connections : Nat}

/-- No session of the thread is in a handler. -/
def Between (s : Execution connections) (i : Fin 10) : Prop :=
  ∀ j us next, s.process.clients.sessions (i, j) ≠ .running us next

/-- No session of the thread has anything outstanding. -/
def Workless (s : Execution connections) (i : Fin 10) : Prop :=
  ∀ j op, s.process.clients.sessions (i, j) ≠ .pending op

def setThread (s : Execution connections) (i : Fin 10) (t : Thread) : Execution connections :=
  { s with threads := Function.update s.threads i t }

/-- The steps of the program. A thread starts its sessions one by one and then runs their handlers,
until its context is stopped or has nothing outstanding. -/
inductive Step (p : Program) (s : Execution connections) :
    Label connections → Execution connections → Prop
  | spawn {i : Fin 10} : s.main = .spawning i →
      Step p s .main { s.setThread i (.starting 0) with main := .spawning (i + 1) }
  | spawnMonitor : s.main = .spawning 10 → Step p s .main { s with main := .sleeping }
  /-- `std::this_thread::sleep_for (..)` -/
  | sleep : s.main = .sleeping → s.process.stop = false → Step p s .main s
  | wake : s.main = .sleeping → s.process.stop = true →
      Step p s .main { s with main := .stopping 0 }
  | stop {i : Fin 10} : s.main = .stopping i →
      Step p s .main { s with
        main := .stopping (i + 1)
        stopped := Function.update s.stopped i true }
  | stopped : s.main = .stopping 10 → Step p s .main { s with main := .joining 0 }
  | join {i : Fin 10} : s.main = .joining i → s.threads i = .returned →
      Step p s .main { s with main := .joining (i + 1) }
  | joinMonitor : s.main = .joining 10 → s.process.monitor = .returned →
      Step p s .main { s with main := .returned }
  /-- `session::make (io)->start (port);` -/
  | start {i : Fin 10} {j : Fin (conns connections)} {clients : State (Key connections)} :
      s.threads i = .starting j → Load.Step p Prod.fst s.process.clients (.start (i, j)) clients →
      Step p s (.session (.start (i, j)))
        { s.setThread i (.starting (j + 1)) with process := { s.process with clients := clients } }
  /-- `catch (const std::exception &e)` -/
  | fail {i : Fin 10} {j : Nat} : s.threads i = .starting j → j < conns connections →
      Step p s (.fail i) (s.setThread i .returned)
  | run {i : Fin 10} : s.threads i = .starting (conns connections) →
      Step p s (.thread i) (s.setThread i .running)
  | handle {k : Key connections} {op : Op} {error equal : Bool}
      {clients : State (Key connections)} : s.threads k.1 = .running → s.stopped k.1 = false →
      Load.Step p Prod.fst s.process.clients (.handle k op error equal) clients →
      Step p s (.session (.handle k op error equal))
        { s with process := { s.process with clients := clients } }
  | update {k : Key connections} {u : Update} {clients : State (Key connections)} :
      s.threads k.1 = .running →
      Load.Step p Prod.fst s.process.clients (.update k u) clients →
      Step p s (.session (.update k u))
        { s with process := { s.process with clients := clients } }
  | ret {k : Key connections} {clients : State (Key connections)} : s.threads k.1 = .running →
      Load.Step p Prod.fst s.process.clients (.ret k) clients →
      Step p s (.session (.ret k)) { s with process := { s.process with clients := clients } }
  /-- `io.run ();` returns. -/
  | finish {i : Fin 10} : s.threads i = .running → s.Between i →
      s.stopped i = true ∨ s.Workless i → Step p s (.thread i) (s.setThread i .returned)
  | monitor {process : Process connections} : (∀ i, s.main ≠ .spawning i) →
      Process.Step p s.process .monitor process → Step p s .monitor { s with process := process }
  | interrupt {process : Process connections} : Process.Step p s.process .interrupt process →
      Step p s .interrupt { s with process := process }

end Execution

/-- The program with the argument `connections`. -/
def execution (p : Program) (connections : Nat) :
    System (Execution connections) (Execution.Label connections) where
  init s := (process p connections).init s.process ∧ s.main = .spawning 0 ∧
    (∀ i, s.threads i = .unspawned) ∧ ∀ i, s.stopped i = false
  step := Execution.Step p

/-! ## What a step is -/

namespace Execution

variable {connections : Nat}

/-- What a step does to the sessions, the monitor and `stop`. -/
def Label.event : Label connections → List (Event connections)
  | .main | .thread _ | .fail _ => []
  | .session a => [.session a]
  | .monitor => [.monitor]
  | .interrupt => [.interrupt]

/-- A step of `main`. -/
def Label.isMain : Label connections → Bool
  | .main => true
  | _ => false

/-- A thread takes up a handler. -/
def Label.handles : Label connections → Bool
  | .session (.handle ..) => true
  | _ => false

/-- A step that the program takes, and not something that happens to it. -/
def Label.own : Label connections → Bool
  | .fail _ | .interrupt => false
  | _ => true

end Execution

end Load
