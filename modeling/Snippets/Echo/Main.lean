import Snippets.Lib.Lts
import Mathlib.Logic.Function.Basic

/-!
# The echo servers as programs

`main` of `asio/echo/server.cc` and of `asio/echo/co_server.cc`: ten acceptors, a pool of threads
that call `io_context.run ()`, and a signal that stops the context. What a thread runs is a task:
the handler of an accept, of the signal, or of some session, or the beginning of a coroutine. The
two files differ in what `start ()` leaves behind, and in a failed accept: in `server.cc` its
handler returns, in `co_server.cc` `async_accept (yield)` throws, `handle_spawn` throws again, and
the exception leaves `run ()`. A thread of the pool catches it and returns; from `main` it destroys
threads that are not joined. Sessions are counted only, and their handlers do not throw.
-/

namespace Echo.Main

open Lts

/-- An acceptor, by what it has in the context. -/
inductive Acceptor
  /-- before `servers.emplace (..)->start ()` -/
  | unmade
  /-- the coroutine `listen` is to begin -/
  | spawned
  /-- an `async_accept`, outstanding or completed -/
  | accepting
  /-- a thread runs its handler -/
  | busy
  /-- nothing, after an error -/
  | closed
  deriving DecidableEq

/-- `signals`, by what it has in the context. -/
inductive Signals
  /-- the coroutine `wait` is to begin -/
  | spawned
  | waiting
  | busy
  | handled
  deriving DecidableEq

/-- What a thread takes up in `io_context.run ()` and runs to its end. -/
inductive Task
  /-- `listen` up to its first `async_accept` -/
  | listen (i : Fin 10)
  | accept (i : Fin 10) (error : Bool)
  /-- `wait` up to `async_wait` -/
  | wait
  | signal
  /-- a handler of some session, after which it may be over -/
  | session (ends : Bool)
  deriving DecidableEq

/-- Where a thread is; `polling`: in `run ()` and in no handler. -/
inductive Worker
  | unspawned
  | polling
  | running (t : Task)
  | returned
  deriving DecidableEq

/-- Where `main` is. -/
inductive Phase
  /-- `for (int i = 0; i < 10; i++)` -/
  | making (i : Nat)
  /-- a port is in use: the exception is printed and `main` returns -/
  | refused
  /-- `for (unsigned int i = 0; i < num_threads; i++)` -/
  | spawning (i : Nat)
  /-- `io_context.run ();` -/
  | serving (w : Worker)
  /-- `for (auto &thrd : threads) thrd.join ();` -/
  | joining (i : Nat)
  | returned
  /-- `std::terminate ()` -/
  | terminated
  deriving DecidableEq

/-- `num_threads`, from `hardware_concurrency ()`. It is never 0. -/
def numThreads (concurrency : Nat) : Nat := if concurrency = 0 then 10 else concurrency * 2

/-- Where `main` and the threads are, what the context has for them, how many sessions there are,
and whether the context is stopped. -/
structure State (n : Nat) where
  phase : Phase
  threads : Fin n → Worker
  acceptors : Fin 10 → Acceptor
  signals : Signals
  sessions : Nat
  stopped : Bool

/-- What the files do differently. -/
structure Program where
  /-- what `start ()` of an acceptor leaves -/
  listen : Acceptor
  /-- what waits for the signal -/
  wait : Signals
  /-- A failed accept throws. -/
  throws : Bool

variable {n : Nat}

namespace State

/-- A thread of the pool, or `main` in `run ()`. -/
def worker (s : State n) : Option (Fin n) → Worker
  | some i => s.threads i
  | none =>
    match s.phase with
    | .serving w => w
    | _ => .unspawned

/-- The thread, or `main` in `run ()`, moves. -/
def setWorker (s : State n) (r : Option (Fin n)) (w : Worker) : State n :=
  match r with
  | some i => { s with threads := Function.update s.threads i w }
  | none => { s with phase := .serving w }

/-- The context has the task for a thread. -/
def Ready (s : State n) : Task → Prop
  | .listen i => s.acceptors i = .spawned
  | .accept i _ => s.acceptors i = .accepting
  | .wait => s.signals = .spawned
  | .signal => s.signals = .waiting
  | .session _ => 0 < s.sessions

/-- A thread takes the task. -/
def claim (s : State n) : Task → State n
  | .listen i | .accept i _ => { s with acceptors := Function.update s.acceptors i .busy }
  | .wait | .signal => { s with signals := .busy }
  | .session ends => { s with sessions := if ends then s.sessions - 1 else s.sessions }

/-- What the task does. -/
def perform (s : State n) : Task → State n
  | .listen i => { s with acceptors := Function.update s.acceptors i .accepting }
  | .accept i false =>
    { s with
      acceptors := Function.update s.acceptors i .accepting
      sessions := s.sessions + 1 }
  | .accept i true => { s with acceptors := Function.update s.acceptors i .closed }
  | .wait => { s with signals := .waiting }
  | .signal => { s with signals := .handled, stopped := true }
  | .session _ => s

/-- The context has nothing outstanding. -/
def Workless (s : State n) : Prop :=
  (∀ i, s.acceptors i = .unmade ∨ s.acceptors i = .closed) ∧ s.signals = .handled ∧ s.sessions = 0

end State

/-- An accept that failed. -/
def Task.fails : Task → Bool
  | .accept _ true => true
  | _ => false

/-- The steps of `main` and of the threads; a task is taken, and later finished. -/
inductive Label (n : Nat)
  /-- `main` outside of `run ()` -/
  | main
  /-- a port is in use -/
  | refuse
  | take (r : Option (Fin n)) (t : Task)
  | finish (r : Option (Fin n)) (t : Task)
  /-- `run ()` returns -/
  | leave (r : Option (Fin n))
  deriving DecidableEq

/-- The steps of the program. A thread may take any task that is ready, of a context that is not
stopped, and leaves `run ()` when the context is stopped or has nothing outstanding. -/
inductive Step (p : Program) (s : State n) : Label n → State n → Prop
  | make {i : Fin 10} : s.phase = .making i →
      Step p s .main { s with
        phase := .making (i + 1)
        acceptors := Function.update s.acceptors i p.listen }
  | refuse {i : Fin 10} : s.phase = .making i → Step p s .refuse { s with phase := .refused }
  | made : s.phase = .making 10 → Step p s .main { s with phase := .spawning 0 }
  | spawn {i : Fin n} : s.phase = .spawning i →
      Step p s .main { s.setWorker (some i) .polling with phase := .spawning (i + 1) }
  | run : s.phase = .spawning n → Step p s .main { s with phase := .serving .polling }
  | take {r : Option (Fin n)} {t : Task} : s.worker r = .polling → s.stopped = false → s.Ready t →
      Step p s (.take r t) ((s.claim t).setWorker r (.running t))
  | finish {r : Option (Fin n)} {t : Task} : s.worker r = .running t →
      (p.throws && t.fails) = false → Step p s (.finish r t) ((s.perform t).setWorker r .polling)
  /-- `printf ("exception: %s\n", e.what ());` -/
  | throw {i : Fin n} {t : Task} : s.worker (some i) = .running t → (p.throws && t.fails) = true →
      Step p s (.finish (some i) t) ((s.perform t).setWorker (some i) .returned)
  /-- The threads of the pool are joinable when `threads` is destroyed. -/
  | terminate {t : Task} : s.worker none = .running t → (p.throws && t.fails) = true →
      Step p s (.finish none t) { s.perform t with phase := .terminated }
  | leave {r : Option (Fin n)} : s.worker r = .polling → s.stopped = true ∨ s.Workless →
      Step p s (.leave r) (s.setWorker r .returned)
  | ran : s.phase = .serving .returned → Step p s .main { s with phase := .joining 0 }
  | join {i : Fin n} : s.phase = .joining i → s.threads i = .returned →
      Step p s .main { s with phase := .joining (i + 1) }
  | joined : s.phase = .joining n → Step p s .main { s with phase := .returned }

/-- The program on a machine with `concurrency` processors. -/
def execution (p : Program) (concurrency : Nat) :
    System (State (numThreads concurrency)) (Label (numThreads concurrency)) where
  init s := s.phase = .making 0 ∧ (∀ i, s.threads i = .unspawned) ∧
    (∀ i, s.acceptors i = .unmade) ∧ s.signals = p.wait ∧ s.sessions = 0 ∧ s.stopped = false
  step s l s' := s.phase ≠ .terminated ∧ Step p s l s'

/-! ## What a run is about -/

namespace Phase

/-- The acceptors that are made. -/
def made : Phase → Nat
  | .making i => i
  | _ => 10

/-- `main` is past its `run ()`. -/
def Past : Phase → Prop
  | .serving .returned | .joining _ | .returned => True
  | _ => False

end Phase

/-- What only one thread at a time may run a handler of. -/
inductive Resource
  | acceptor (i : Fin 10)
  | signals

/-- What the task is a handler of, if only one thread at a time may run one. -/
def Task.resource : Task → Option Resource
  | .listen i | .accept i _ => some (.acceptor i)
  | .wait | .signal => some .signals
  | .session _ => none

/-- An accept of acceptor `i` failed. -/
def Label.failed (i : Fin 10) : Label n → Bool
  | .finish _ (.accept j true) => j = i
  | _ => false

end Echo.Main

namespace Echo

/-- `server.cc`: `start ()` calls `async_accept`, and the handlers of accepts look at the error. -/
def Server.main : Main.Program where
  listen := .accepting
  wait := .waiting
  throws := false

/-- `co_server.cc`: acceptors and signal are served by coroutines, and a failed accept throws. -/
def CoServer.main : Main.Program where
  listen := .spawned
  wait := .spawned
  throws := true

end Echo
