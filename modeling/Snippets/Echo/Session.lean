import Snippets.Asio.Channel
import Snippets.Asio.Timer

/-!
# Echo sessions

What the sessions of `asio/echo/server.cc` and of `asio/echo/co_server.cc` have in common: a
socket, a timer, a deadline and a buffer, and code that runs on a strand. `Code` is the code of a
member function, a handler or a piece of a coroutine between two suspensions, as the calls that it
makes. `Program` collects the code of one session, and `session` is its transition system: between
the steps of the environment (an operation goes on or completes, the timer expires) the strand runs
one piece of code to its end.

A piece of code reads the clock at most once; the reading is part of the label, and `start (..)`,
which may have two, is given in two pieces.
-/

namespace Echo

open Lts Asio

/-- The size of `buffer_` in `server.cc`, and `max_receive` in `co_server.cc`. -/
def bufferSize : Nat := 1024

/-- The coroutines that `co_server.cc` spawns on the strand. -/
inductive Coroutine
  | echo
  /-- of `start_timeout ()` -/
  | wait
  /-- of `start_watchdog ()` -/
  | watch
  deriving DecidableEq

/-! ## Code -/

/-- A library call of a session, or an assignment to `deadline_`. -/
inductive Call
  /-- `socket_.async_receive (asio::buffer (buffer_), ..)` -/
  | receive
  /-- `asio::async_write (socket_, asio::buffer (buffer_, bytes), ..)` -/
  | write (bytes : Nat)
  /-- `asio::async_write (socket_, asio::buffer (buffer_), ..)` -/
  | writeBuffer
  | resize (n : Nat)
  | setDeadline (t : Int)
  | expiresAt (t : Int)
  | asyncWait
  | cancel
  | close
  | spawn (c : Coroutine)
  deriving DecidableEq

/-- A piece of code: the calls that it makes one after another, which may depend on the clock and on
`deadline_`. -/
inductive Code
  | done
  | call (c : Call) (k : Code)
  /-- `steady_clock::now ()` -/
  | now (k : Int → Code)
  /-- reads `deadline_` -/
  | deadline (k : Int → Code)

/-- One piece of code after the other. -/
def Code.andThen : Code → Code → Code
  | .done, k' => k'
  | .call c k, k' => .call c (k.andThen k')
  | .now k, k' => .now fun t => (k t).andThen k'
  | .deadline k, k' => .deadline fun t => (k t).andThen k'

/-- `spawned`: the coroutines that have not begun. -/
structure State (β : Type*) where
  started : Bool
  isOpen : Bool
  channel : Channel β
  timer : Timer
  deadline : Int
  spawned : List Coroutine
  clock : Int

variable {β : Type*} [Inhabited β]

/-- `buffer.resize (n)` of a vector -/
def resize (n : Nat) (buffer : List β) : List β :=
  buffer.take n ++ List.replicate (n - buffer.length) default

theorem resize_length (n : Nat) (b : List β) : (resize n b).length = n := by
  simp [resize]
  omega

theorem resize_take {n : Nat} {b : List β} (h : n ≤ b.length) : resize n b = b.take n := by
  simp [resize, h]

/-- What a call does. -/
def State.call (s : State β) : Call → State β
  | .receive => { s with channel := s.channel.start .receive }
  | .write bytes =>
    { s with channel := s.channel.start (.write (min bytes s.channel.buffer.length)) }
  | .writeBuffer => { s with channel := s.channel.start (.write s.channel.buffer.length) }
  | .resize n => { s with channel := { s.channel with buffer := resize n s.channel.buffer } }
  | .setDeadline t => { s with deadline := t }
  | .expiresAt t => { s with timer := s.timer.expiresAt t }
  | .asyncWait => { s with timer := s.timer.asyncWait }
  | .cancel => { s with timer := s.timer.cancel }
  | .close => { s with isOpen := false }
  | .spawn c => { s with spawned := s.spawned ++ [c] }

/-- Code that runs to its end at the clock reading `now`. -/
def Code.run (now : Int) : Code → State β → State β
  | .done, s => s
  | .call c k, s => k.run now (s.call c)
  | .now k, s => (k now).run now s
  | .deadline k, s => (k s.deadline).run now s

/-- The first call of code. -/
def Code.step (now : Int) : Code → State β → Code × State β
  | .done, s => (.done, s)
  | .call c k, s => (k, s.call c)
  | .now k, s => (k now, s)
  | .deadline k, s => (k s.deadline, s)

/-! ## Programs -/

/-- The code of a session. `size`: the size of `buffer_` in a new session. -/
structure Program where
  size : Nat
  /-- `start (..)`, up to its first clock reading and after it -/
  start₁ : Code
  start₂ : Code
  /-- what a coroutine does until it suspends -/
  begin : Coroutine → Code
  /-- what follows the completion of an operation or of a wait -/
  receive : Result → Code
  write : Result → Code
  wait : Option Error → Code

def Program.handle (p : Program) : Io → Result → Code
  | .receive => p.receive
  | .write _ => p.write

/-- The bytes that a completion hands over. -/
def handed (io : Io) (r : Result) (buffer : List β) : List β :=
  match io, r with
  | .receive, .ok n => buffer.take n
  | _, _ => []

/-- The steps of a session, with the readings of the clock and, for a completed receive, the data
handed over. -/
inductive Label (β : Type*)
  | start (now₁ now₂ : Int)
  | begin (c : Coroutine) (now : Int)
  | io (e : Asio.Event β)
  | handle (io : Io) (r : Result) (data : List β) (now : Int)
  | expire (now : Int)
  | handleWait (error : Option Error) (now : Int)

/-- The steps of a session. Its code runs to the end of a handler, or to where the coroutine
suspends; in between operations go on and complete, and timers expire. -/
inductive Step (p : Program) (s : State β) : Label β → State β → Prop
  | start {now₁ now₂ : Int} : s.started = false → s.clock ≤ now₁ → now₁ ≤ now₂ →
      Step p s (.start now₁ now₂)
        { p.start₂.run now₂ (p.start₁.run now₁ { s with started := true }) with clock := now₂ }
  | begin {l₁ l₂ : List Coroutine} {c : Coroutine} {now : Int} : s.spawned = l₁ ++ c :: l₂ →
      s.clock ≤ now →
      Step p s (.begin c now)
        { (p.begin c).run now { s with spawned := l₁ ++ l₂ } with clock := now }
  | io {e : Asio.Event β} {c : Channel β} :
      s.channel.Step s.channel.buffer.length s.isOpen s.isOpen e c →
      Step p s (.io e) { s with channel := c }
  | handle {c : Channel β} {io : Io} {r : Result} {now : Int} : s.channel.Takes io r c →
      s.clock ≤ now →
      Step p s (.handle io r (handed io r s.channel.buffer) now)
        { (p.handle io r).run now { s with channel := c } with clock := now }
  | expire {t : Timer} {now : Int} : s.timer.Fires now t → s.clock ≤ now →
      Step p s (.expire now) { s with timer := t, clock := now }
  | handleWait {t : Timer} {error : Option Error} {now : Int} : s.timer.Takes error t →
      s.clock ≤ now →
      Step p s (.handleWait error now)
        { (p.wait error).run now { s with timer := t } with clock := now }

/-- A session before `start (..)`; the buffer holds anything. -/
structure Initial (p : Program) (s : State β) : Prop where
  started : s.started = false
  isOpen : s.isOpen = true
  buffer : s.channel.buffer.length = p.size
  ops : s.channel.ops = []
  timer : s.timer = ⟨0, []⟩
  deadline : s.deadline = 0
  spawned : s.spawned = []

def session (β : Type*) [Inhabited β] (p : Program) : System (State β) (Label β) where
  init := Initial p
  step := Step p

/-! ## What a run transfers -/

/-- The bytes that a step takes from the socket. -/
def Label.drawn : Label β → List β
  | .io (.deliver chunk) => chunk
  | _ => []

/-- The bytes that a step writes to the socket. -/
def Label.put : Label β → List β
  | .io (.send piece) => piece
  | _ => []

/-- The bytes that the session was given, in the order of the completions handled. -/
def received (ls : List (Label β)) : List β :=
  ls.flatMap fun
    | .handle .receive (.ok _) data _ => data
    | _ => []

/-- The bytes written to the peer. -/
def sent (ls : List (Label β)) : List β :=
  ls.flatMap fun
    | .io (.send piece) => piece
    | _ => []

end Echo
