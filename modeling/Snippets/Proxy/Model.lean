import Snippets.Asio.Timer
import Mathlib.Logic.Function.Basic

/-!
# The proxy session

`session` and `watchdog` of `asio/proxy/server.cc`, from `start (target)` on. A session has two
directions, from the client to the target and back, named by the side they receive from: each has
its buffer, its socket operations (a `Channel`) and its watchdog. The sockets, the timers and the
clock are those of Boost.Asio; a step of the session is a handler, run to its end, as in the
single-threaded `io_context.run ()` of `main`, or what happens in between: an operation goes on or
completes, a timer expires.

Handlers read the clock where the source calls `now ()`; the readings are part of the label. A
handler without a reading of its own runs at the given time.
-/

namespace Proxy

open Lts Asio

def bufferSize : Nat := 1024

/-- The two sockets, `client_` and `server_`, and the two directions by the socket received from. -/
inductive Side
  | client
  | server
  deriving DecidableEq

/-- The side that direction `d` writes to. -/
def Side.other : Side → Side
  | .client => .server
  | .server => .client

/-! ## The watchdogs -/

/-- `watchdog`: its timer and `deadline_`. -/
structure Watchdog where
  timer : Timer
  deadline : Int

/-- `start (cb)` before the deadline; at or after it, it is `cb ()`. -/
def Watchdog.wait (w : Watchdog) : Watchdog :=
  { w with timer := (w.timer.expiresAt w.deadline).asyncWait }

/-- `stop ()`: the timer is cancelled. -/
def Watchdog.stop (w : Watchdog) : Watchdog := { w with timer := w.timer.cancel }

/-- `delay (dur)` at the clock reading `now` -/
def Watchdog.delay (w : Watchdog) (dur now : Int) : Watchdog := { w with deadline := now + dur }

/-! ## The session -/

/-- The `async_connect`: outstanding, completed, or handled. -/
inductive Connect
  | outstanding
  | completed (error : Option Error)
  | handled (error : Option Error)
  deriving DecidableEq

/-- `session`: the connect, which sockets are open, both directions, and the time. -/
structure State (β : Type*) where
  connect : Connect
  isOpen : Side → Bool
  channel : Side → Channel β
  watchdog : Side → Watchdog
  clock : Int

variable {β : Type*}

def State.close (s : State β) (x : Side) : State β :=
  { s with isOpen := Function.update s.isOpen x false }

def State.setWatchdog (s : State β) (d : Side) (w : Watchdog) : State β :=
  { s with watchdog := Function.update s.watchdog d w }

def State.setChannel (s : State β) (d : Side) (c : Channel β) : State β :=
  { s with channel := Function.update s.channel d c }

/-- `client_.close (); server_.close (); watchdog1_.stop (); watchdog2_.stop ();` -/
def State.stop (s : State β) : State β :=
  let s := (s.close .client).close .server
  let s := s.setWatchdog .client (s.watchdog .client).stop
  s.setWatchdog .server (s.watchdog .server).stop

variable (timeout : Int)

/-- Start an operation of direction `d` and delay its watchdog, at the clock reading `now`. -/
def State.launch (s : State β) (d : Side) (io : Io) (now : Int) : State β :=
  (s.setChannel d ((s.channel d).start io)).setWatchdog d ((s.watchdog d).delay timeout now)

def State.receiveFromClient (s : State β) (now : Int) : State β :=
  s.launch timeout .client .receive now

def State.sendToServer (s : State β) (bytes : Nat) (now : Int) : State β :=
  s.launch timeout .client (.write (min bytes bufferSize)) now

def State.receiveFromServer (s : State β) (now : Int) : State β :=
  s.launch timeout .server .receive now

def State.sendToClient (s : State β) (bytes : Nat) (now : Int) : State β :=
  s.launch timeout .server (.write (min bytes bufferSize)) now

/-- `start (callback)` of a watchdog, with `stop ()` for the callback -/
def State.startWatchdog (s : State β) (d : Side) (now : Int) : State β :=
  if (s.watchdog d).deadline ≤ now then s.stop else s.setWatchdog d (s.watchdog d).wait

def State.startWatchdogs (s : State β) (now₁ now₂ : Int) : State β :=
  (s.startWatchdog .client now₁).startWatchdog .server now₂

/-! ## The handlers -/

/-- `handle_connect` -/
def State.handleConnect (s : State β) (error : Option Error) (now₁ now₂ now₃ now₄ : Int) :
    State β :=
  match error with
  | some _ => s
  | none =>
    ((s.receiveFromClient timeout now₁).receiveFromServer timeout now₂).startWatchdogs now₃ now₄

/-- `handle_receive` of `receive_from_client` and of `receive_from_server` -/
def State.handleReceive (s : State β) (d : Side) (r : Result) (now : Int) : State β :=
  match r, d with
  | .error _, _ => s.stop
  | .ok bytes, .client => s.sendToServer timeout bytes now
  | .ok bytes, .server => s.sendToClient timeout bytes now

/-- `handle_write` of `send_to_server` and of `send_to_client` -/
def State.handleWrite (s : State β) (d : Side) (r : Result) (now : Int) : State β :=
  match r, d with
  | .error _, _ => s.stop
  | .ok _, .client => s.receiveFromClient timeout now
  | .ok _, .server => s.receiveFromServer timeout now

/-- The handler of an operation of direction `d`. -/
def State.handle (s : State β) (d : Side) (io : Io) (r : Result) (now : Int) : State β :=
  match io with
  | .receive => s.handleReceive timeout d r now
  | .write _ => s.handleWrite timeout d r now

/-- `handle_wait` of a watchdog -/
def State.handleWait (s : State β) (d : Side) (error : Option Error) (now : Int) : State β :=
  match error with
  | some _ => s
  | none => s.startWatchdog d now

/-! ## The runs -/

/-- What happens to the connect, to an operation or to a timer, or which handler runs, with its
readings of the clock. -/
inductive Label (β : Type*)
  | connect (error : Option Error)
  | handleConnect (error : Option Error) (now₁ now₂ now₃ now₄ : Int)
  /-- something happens to an operation of direction `d` -/
  | io (d : Side) (e : Asio.Event β)
  | handle (d : Side) (io : Io) (r : Result) (now : Int)
  | expire (d : Side) (now : Int)
  | handleWait (d : Side) (error : Option Error) (now : Int)

/-- The steps of a session. A handler runs to its end; the clock never goes back. -/
inductive Step (s : State β) : Label β → State β → Prop
  | connect {e : Option Error} : s.connect = .outstanding →
      Step s (.connect e) { s with connect := .completed e }
  | handleConnect {error : Option Error} {now₁ now₂ now₃ now₄ : Int} :
      s.connect = .completed error → s.clock ≤ now₁ → now₁ ≤ now₂ → now₂ ≤ now₃ → now₃ ≤ now₄ →
      Step s (.handleConnect error now₁ now₂ now₃ now₄)
        { s.handleConnect timeout error now₁ now₂ now₃ now₄ with
          connect := .handled error, clock := now₄ }
  | io {d : Side} {e : Asio.Event β} {c : Channel β} :
      (s.channel d).Step bufferSize (s.isOpen d) (s.isOpen d.other) e c →
      Step s (.io d e) (s.setChannel d c)
  | handle {d : Side} {c : Channel β} {io : Io} {r : Result} {now : Int} :
      (s.channel d).Takes io r c → s.clock ≤ now →
      Step s (.handle d io r now)
        { (s.setChannel d c).handle timeout d io r now with clock := now }
  | expire {d : Side} {t : Timer} {now : Int} : (s.watchdog d).timer.Fires now t → s.clock ≤ now →
      Step s (.expire d now)
        { s.setWatchdog d { s.watchdog d with timer := t } with clock := now }
  | handleWait {d : Side} {t : Timer} {error : Option Error} {now : Int} :
      (s.watchdog d).timer.Takes error t → s.clock ≤ now →
      Step s (.handleWait d error now)
        { (s.setWatchdog d { s.watchdog d with timer := t }).handleWait d error now with
          clock := now }

/-- A session after `start (target)`; the buffers hold anything. -/
structure Initial (s : State β) : Prop where
  connect : s.connect = .outstanding
  isOpen : ∀ x, s.isOpen x = true
  buffer : ∀ d, (s.channel d).buffer.length = bufferSize
  ops : ∀ d, (s.channel d).ops = []
  watchdog : ∀ d, s.watchdog d = ⟨⟨0, []⟩, 0⟩

/-- The proxy session. -/
def session (β : Type*) (timeout : Int) : System (State β) (Label β) where
  init := Initial
  step := Step timeout

/-! ## What a run transfers -/

/-- The bytes received from side `d`. -/
def received (d : Side) (ls : List (Label β)) : List β :=
  ls.flatMap fun
    | .io x (.deliver chunk) => if x = d then chunk else []
    | _ => []

/-- The bytes written to the other side than `d`. -/
def written (d : Side) (ls : List (Label β)) : List β :=
  ls.flatMap fun
    | .io x (.send piece) => if x = d then piece else []
    | _ => []

/-- Direction `d` has handled an error. -/
def Failed (d : Side) (ls : List (Label β)) : Prop :=
  ∃ io e now, .handle d io (.error e) now ∈ ls

end Proxy
