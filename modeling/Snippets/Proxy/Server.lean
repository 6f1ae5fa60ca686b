import Snippets.Lib.Family
import Snippets.Proxy.Model

/-!
# The proxy server

`server` and `main` of `asio/proxy/server.cc`: one `async_accept` at a time, whose handler makes a
session for the client, starts it and accepts again, unless it is given an error. One thread runs
the handlers of the acceptor and of all sessions, so the sessions share one clock. The sessions are
numbered in the order in which they are made.
-/

namespace Proxy

open Lts Asio

/-- The `async_accept`: outstanding, completed, or not started again. -/
inductive Accept
  | outstanding
  | completed (error : Option Error)
  | ended
  deriving DecidableEq

/-- `server`: its accept, the sessions that it has made, and the time. -/
structure Server (β : Type*) where
  accept : Accept
  sessions : List (State β)
  clock : Int

variable {β : Type*}

/-- The first reading of the clock in a step of a session. -/
def Label.reading : Label β → Option Int
  | .connect _ | .io _ _ => none
  | .handleConnect _ now _ _ _ | .handle _ _ _ now | .expire _ now | .handleWait _ _ now => some now

/-- The accept completes or is handled, or session `k` makes a step. -/
inductive Server.Label (β : Type*)
  | accept (error : Option Error)
  | handleAccept (error : Option Error)
  | session (k : Nat) (l : Proxy.Label β)

/-- The steps of the server and of its sessions, on one clock. -/
inductive Server.Step (timeout : Int) (s : Server β) : Server.Label β → Server β → Prop
  | accept {error : Option Error} : s.accept = .outstanding →
      Step timeout s (.accept error) { s with accept := .completed error }
  /-- `if (error) return;` -/
  | refuse {e : Error} : s.accept = .completed (some e) →
      Step timeout s (.handleAccept (some e)) { s with accept := .ended }
  /-- `auto sess = session::make (std::move (sock)); sess->start (target_); start ();` -/
  | make {sess : State β} : s.accept = .completed none → Initial sess → sess.clock = s.clock →
      Step timeout s (.handleAccept none)
        { s with accept := .outstanding, sessions := s.sessions ++ [sess] }
  | session {l₁ l₂ : List (State β)} {x x' : State β} {l : Proxy.Label β} :
      s.sessions = l₁ ++ x :: l₂ → Proxy.Step timeout x l x' →
      (∀ now, l.reading = some now → s.clock ≤ now) →
      Step timeout s (.session l₁.length l)
        { s with sessions := l₁ ++ x' :: l₂, clock := max s.clock x'.clock }

/-- The server after `start (target)`, until `io_context.run ()` returns. -/
def server (β : Type*) (timeout : Int) : System (Server β) (Server.Label β) where
  init s := s.accept = .outstanding ∧ s.sessions = []
  step := Server.Step timeout

/-- What a step of the server is for the family of its sessions. -/
def Server.Label.event : Server.Label β → List (Family.Label (Proxy.Label β))
  | .accept _ | .handleAccept (some _) => []
  | .handleAccept none => [.make]
  | .session k l => [.step k l]

/-- The steps of session `k`. -/
def own (k : Nat) (ls : List (Server.Label β)) : List (Label β) :=
  Family.own k (ls.flatMap Server.Label.event)

end Proxy
