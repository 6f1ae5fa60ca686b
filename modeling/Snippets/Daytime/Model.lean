import Snippets.Asio.Channel
import Mathlib.Logic.Function.Basic

/-!
# The coroutine daytime server

`asio/socket/03/co.cc`: the coroutine of `tcp_server` makes a connection, accepts a client into it,
starts it and lets go of it; `tcp_connection::start` spawns a coroutine that writes the daytime
string to the client. Connections and their coroutines are numbered by the loop's iterations. A
coroutine keeps alive what its function object captured by value: what `start` captures is a
parameter of the model, `this` in `co.cc`. An object is destroyed with its last owner, and its
socket cancels what is outstanding.

One thread runs the coroutines: while the loop is between `start` and the end of its iteration no
other coroutine resumes, but the one that it spawned may begin. Where a coroutine would use a
connection that is gone, the behaviour is undefined and the model has no step.
-/

namespace Daytime

open Lts Asio

/-- What the function object that `tcp_connection::start` spawns captures. -/
inductive Capture
  /-- `this`, as in `co.cc` -/
  | this
  /-- `self = shared_from_this ()`, as the handler in `main.cc` -/
  | self
  deriving DecidableEq

/-- The `shared_ptr`s among the captures. -/
def Capture.pointers : Capture → Nat
  | .this => 0
  | .self => 1

/-- Where the coroutine of `tcp_server` is. -/
inductive Loop
  /-- `acceptor_.async_accept (conn->socket_, yield);` is outstanding. -/
  | accepting
  | accepted (error : Option Error)
  /-- after `conn->start (yield.get_executor ());` -/
  | ending
  /-- left by an exception -/
  | ended
  deriving DecidableEq

/-- Where the coroutine of a connection is. `sent`: what `async_write` has written of `msg`. -/
inductive Coroutine
  | unspawned
  | spawned
  /-- an `async_write_some` of the rest of `msg` is outstanding -/
  | writing (msg sent : List Char)
  /-- it completed, and its handler is to go on or to resume the coroutine -/
  | wrote (msg sent : List Char) (error : Option Error)
  | returned (msg sent : List Char) (error : Option Error)
  deriving DecidableEq

/-- The socket of the connection is destroyed. -/
def Coroutine.cancel : Coroutine → Coroutine
  | .writing msg sent => .wrote msg sent (some .aborted)
  | c => c

/-- The server: where its loop is, in which iteration, and the coroutines of all iterations so far.
Connections and coroutines have the number of the iteration that makes them. -/
structure State where
  iteration : Nat
  loop : Loop
  /-- the use count of each connection -/
  owners : Nat → Nat
  coroutine : Nat → Coroutine

def State.setCoroutine (s : State) (k : Nat) (c : Coroutine) : State :=
  { s with coroutine := Function.update s.coroutine k c }

/-- `conn = tcp_connection::make (io_context_)` -/
def State.make (s : State) : State :=
  { s with owners := Function.update s.owners s.iteration 1 }

/-- `n` pointers to the connection `k` are copied. -/
def State.acquire (s : State) (k n : Nat) : State :=
  { s with owners := Function.update s.owners k (s.owners k + n) }

/-- `n` pointers to the connection `k` are destroyed. -/
def State.release (s : State) (k n : Nat) : State :=
  { s with
    owners := Function.update s.owners k (s.owners k - n)
    coroutine :=
      if s.owners k ≤ n then Function.update s.coroutine k (s.coroutine k).cancel
      else s.coroutine }

variable (capture : Capture)

/-- `conn->start (yield.get_executor ())` -/
def State.start (s : State) : State :=
  (s.acquire s.iteration capture.pointers).setCoroutine s.iteration .spawned

/-- The end of an iteration: `conn` goes out of scope, and the next iteration makes its own. -/
def State.next (s : State) : State :=
  State.make { s.release s.iteration 1 with iteration := s.iteration + 1, loop := .accepting }

/-- The coroutine `k` returns, and its function object is destroyed. -/
def State.ret (s : State) (k : Nat) (msg sent : List Char) (error : Option Error) : State :=
  (s.setCoroutine k (.returned msg sent error)).release k capture.pointers

/-- What the program does, or Boost.Asio to its operations. -/
inductive Label
  | accept (error : Option Error)
  /-- `start`, after an accept -/
  | start
  /-- the `system_error` of an accept that failed -/
  | throw
  /-- the end of an iteration -/
  | next
  /-- a coroutine from its beginning to `async_write`, at the clock reading `now` -/
  | begin (k : Nat) (now : Int)
  | write (k : Nat) (piece : List Char)
  /-- the peer fails -/
  | fail (k : Nat) (e : Error)
  /-- the handler of an `async_write_some` -/
  | resume (k : Nat)
  deriving DecidableEq

/-- `make_daytime_string` is `ctime` of the time. -/
def makeDaytimeString (ctime : Int → List Char) (now : Int) : List Char := ctime now

/-- The steps of the loop and of the coroutines. To begin and to write on, a coroutine uses its
connection, which has to exist. -/
inductive Step (ctime : Int → List Char) (s : State) : Label → State → Prop
  | accept {error : Option Error} : s.loop = .accepting →
      Step ctime s (.accept error) { s with loop := .accepted error }
  | start : s.loop = .accepted none →
      Step ctime s .start { s.start capture with loop := .ending }
  | throw {e : Error} : s.loop = .accepted (some e) →
      Step ctime s .throw { s.release s.iteration 1 with loop := .ended }
  | next : s.loop = .ending → Step ctime s .next s.next
  | begin {k : Nat} {now : Int} : s.coroutine k = .spawned → 0 < s.owners k →
      (s.loop = .ending → k = s.iteration) →
      Step ctime s (.begin k now) (s.setCoroutine k (.writing (makeDaytimeString ctime now) []))
  | write {k : Nat} {msg sent piece : List Char} : s.coroutine k = .writing msg sent →
      piece ≠ [] → sent ++ piece <+: msg →
      Step ctime s (.write k piece) (s.setCoroutine k (.wrote msg (sent ++ piece) none))
  | fail {k : Nat} {msg sent : List Char} {e : Error} : s.coroutine k = .writing msg sent →
      e ≠ .aborted → Step ctime s (.fail k e) (s.setCoroutine k (.wrote msg sent (some e)))
  /-- Some of `msg` is left: the next `async_write_some`. -/
  | more {k : Nat} {msg sent : List Char} : s.coroutine k = .wrote msg sent none → sent ≠ msg →
      0 < s.owners k → s.loop ≠ .ending →
      Step ctime s (.resume k) (s.setCoroutine k (.writing msg sent))
  /-- `async_write` is done: the coroutine resumes, and returns. -/
  | ret {k : Nat} {msg sent : List Char} {error : Option Error} :
      s.coroutine k = .wrote msg sent error → (error = none → sent = msg) → s.loop ≠ .ending →
      Step ctime s (.resume k) (s.ret capture k msg sent error)

/-- The server, from the first `async_accept` on. -/
def server (ctime : Int → List Char) : System State Label where
  init s := s.iteration = 0 ∧ s.loop = .accepting ∧ s.owners = Function.update (fun _ => 0) 0 1 ∧
    s.coroutine = fun _ => .unspawned
  step := Step capture ctime

/-! ## Lifetimes -/

/-- The coroutine is about to begin or to resume, or its write is outstanding. -/
def Coroutine.Pending : Coroutine → Prop
  | .unspawned | .returned .. => False
  | _ => True

/-- A connection is owned as long as its coroutine is pending. -/
def State.Owned (s : State) : Prop :=
  ∀ k, (s.coroutine k).Pending → 0 < s.owners k

/-- What has been written when the coroutine returns, unless the peer failed. -/
def Coroutine.Complete : Coroutine → Prop
  | .returned msg sent error => (∀ e, error = some e → e = .aborted) → sent = msg
  | _ => True

/-- Clients are sent all of the string unless they fail. -/
def State.Complete (s : State) : Prop := ∀ k, (s.coroutine k).Complete

end Daytime
