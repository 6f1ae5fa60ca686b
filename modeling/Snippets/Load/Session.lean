import Snippets.Lib.Lts
import Mathlib.Logic.Function.Basic

/-!
# Sessions of the load clients

`session` of `asio/echo/client.cc` and of `asio/echo/co_client.cc`, with the counters that all
sessions share. A session has one operation at a time; when it completes, a handler, or the piece of
the coroutine up to the next operation, updates counters one by one and then starts the next
operation or ends. `Program` is what the handlers do, and `clients` the system of all sessions on
their threads: each thread runs one handler at a time, and the updates of different threads
interleave.

The counters are integers without a bound. That loses nothing for `std::atomic<int>`: `connected`,
`failed` and `completed` count sessions, of which there are no more than sockets, and `echoes`
counts rounds, of which a session makes one a second (ten thousand sessions take two days for
`2 ^ 31`).
-/

namespace Load

open Lts

/-- The operation that a session waits for. -/
inductive Op
  | connect
  | write
  | read
  | wait
  deriving DecidableEq

/-- The counters that all sessions share. -/
inductive Counter
  | echoes
  | failed
  | connected
  | completed
  deriving DecidableEq

/-- `c++` or `c--` -/
inductive Update
  | inc (c : Counter)
  | dec (c : Counter)
  deriving DecidableEq

/-- What a handler does: it updates counters, and starts an operation or ends the session. -/
structure Handler where
  updates : List Update
  next : Option Op

/-- What follows an operation; `equal`: `recv_buffer_ == send_buffer_`. -/
structure Program where
  connect : (error : Bool) → Handler
  write : (error : Bool) → Handler
  read : (error equal : Bool) → Handler
  wait : (error : Bool) → Handler

def Program.handle (p : Program) (error equal : Bool) : Op → Handler
  | .connect => p.connect error
  | .write => p.write error
  | .read => p.read error equal
  | .wait => p.wait error

/-! ## `client.cc` -/

namespace Client

/-- `on_error ()` -/
def onError : List Update := [.inc .failed, .dec .connected]

def handleConnect (error : Bool) : Handler :=
  if error then ⟨[.inc .completed, .inc .failed], none⟩
  else ⟨[.inc .completed, .inc .connected], some .write⟩

def handleWrite (error : Bool) : Handler :=
  if error then ⟨onError, none⟩ else ⟨[], some .read⟩

def handleRead (error equal : Bool) : Handler :=
  if error then ⟨onError, none⟩
  else ⟨if equal then [.inc .echoes] else [], some .wait⟩

def handleWait (error : Bool) : Handler :=
  if error then ⟨onError, none⟩ else ⟨[], some .write⟩

/-- The handlers of `client.cc`. -/
def program : Program := ⟨handleConnect, handleWrite, handleRead, handleWait⟩

end Client

/-! ## `co_client.cc` -/

namespace CoClient

/-- The section `connect` of the coroutine. -/
def connect (error : Bool) : Handler :=
  if error then ⟨[.inc .completed, .inc .failed], none⟩
  else ⟨[.inc .completed, .inc .connected], some .write⟩

/-- The section `send`. -/
def send (error : Bool) : Handler :=
  if error then ⟨[.dec .connected, .inc .failed], none⟩ else ⟨[], some .read⟩

/-- The sections `recv` and `check`. -/
def recv (error equal : Bool) : Handler :=
  if error then ⟨[.dec .connected, .inc .failed], none⟩
  else ⟨if equal then [.inc .echoes] else [], some .wait⟩

/-- The loop goes on whatever the timer says. -/
def delay (_error : Bool) : Handler := ⟨[], some .write⟩

/-- The pieces of the coroutine of `co_client.cc`. -/
def program : Program := ⟨connect, send, recv, delay⟩

end CoClient

/-- The file a session is from. -/
inductive Source
  | client
  | coClient

def Source.program : Source → Program
  | .client => Client.program
  | .coClient => CoClient.program

/-! ## The system -/

/-- `made`: before `start (..)`; `pending`: an operation is outstanding, or completed and not
handled; `running`: in the middle of a handler. -/
inductive Session
  | made
  | pending (op : Op)
  | running (updates : List Update) (next : Option Op)
  | ended
  deriving DecidableEq

/-- Where a session is after a handler that ends with `next`. -/
def Session.goOn : Option Op → Session
  | some op => .pending op
  | none => .ended

/-- Where the sessions are, and the counters. -/
structure State (κ : Type*) where
  sessions : κ → Session
  counters : Counter → Int

variable {κ ι : Type*} [DecidableEq κ]

/-- One atomic update. -/
def Update.apply (u : Update) (counters : Counter → Int) : Counter → Int :=
  match u with
  | .inc c => Function.update counters c (counters c + 1)
  | .dec c => Function.update counters c (counters c - 1)

def State.set (s : State κ) (k : κ) (x : Session) : State κ :=
  { s with sessions := Function.update s.sessions k x }

/-- A session is started, takes up the completion of its operation, makes the next update of its
handler, or is at the handler's end. -/
inductive Action (κ : Type*)
  | start (k : κ)
  | handle (k : κ) (op : Op) (error equal : Bool)
  | update (k : κ) (u : Update)
  | ret (k : κ)

/-- The `io_context` of the thread runs: all its sessions are started, and none is in a handler. -/
def State.Free (s : State κ) (thread : κ → ι) (i : ι) : Prop :=
  ∀ k, thread k = i → s.sessions k ≠ .made ∧ ∀ us next, s.sessions k ≠ .running us next

/-- The steps of the sessions. A session takes up a completion only if its thread is free; then its
updates are made one at a time. -/
inductive Step (p : Program) (thread : κ → ι) (s : State κ) : Action κ → State κ → Prop
  | start {k : κ} : s.sessions k = .made → Step p thread s (.start k) (s.set k (.pending .connect))
  | handle {k : κ} {op : Op} {error equal : Bool} : s.sessions k = .pending op →
      s.Free thread (thread k) →
      Step p thread s (.handle k op error equal)
        (s.set k (.running (p.handle error equal op).updates (p.handle error equal op).next))
  | update {k : κ} {u : Update} {us : List Update} {next : Option Op} :
      s.sessions k = .running (u :: us) next →
      Step p thread s (.update k u)
        { s.set k (.running us next) with counters := u.apply s.counters }
  | ret {k : κ} {next : Option Op} : s.sessions k = .running [] next →
      Step p thread s (.ret k) (s.set k (.goOn next))

/-- The sessions `κ`, session `k` on the thread `thread k`. -/
def clients (p : Program) (thread : κ → ι) : System (State κ) (Action κ) where
  init s := (∀ k, s.sessions k = .made) ∧ ∀ c, s.counters c = 0
  step := Step p thread

/-- The updates that session `k` made. -/
def made (k : κ) (ls : List (Action κ)) : List Update :=
  ls.filterMap fun
    | .update k' u => if k' = k then some u else none
    | _ => none

/-- How often a connect attempt of session `k` finished. -/
def attempts (k : κ) (ls : List (Action κ)) : Nat :=
  ls.countP fun
    | .handle k' .connect _ _ => k' = k
    | _ => false

/-- The updates that a handler still has to make. -/
def Session.left : Session → List Update
  | .running us _ => us
  | _ => []

end Load
