import Snippets.Daytime.Proof.Tcp
import Mathlib.Algebra.Order.BigOperators.Group.List
import Mathlib.Algebra.Order.Ring.Nat
import Mathlib.Data.List.Induction

/-!
# The daytime service over TCP comes to rest

What is left to do in the service is a number (`weight`): an operation of a connection, the bytes of
its message that are not written twice (once for the server, once for the client), the bytes that
are on the way, an accept for each client of the backlog. Every step lowers it; what a client that
connects adds, the accepts that fail, and the messages, pay for the steps (`weight_step`). When no
step but these is left, every client that connected has been served to its end. Together:
`service_settles`.
-/

namespace Daytime.Tcp

open Lts Asio

variable {ι : Type*} [DecidableEq ι] {ctime : Int → List Char} {s s' : Service ι} {l : Label ι}
  {ls : List (Label ι)} {k : Nat} {result : Option (Option Error)} {log : List (Entry ι)}

/-! ## What is left of an operation -/

/-- The steps of an operation with its handler, and the bytes that it has not written twice. -/
def opLeft (o : Op) : Nat :=
  match o.result, o.io with
  | some _, _ => 1
  | none, .receive => 2
  | none, .write size => 2 + 2 * (size - o.sent)

def channelLeft (c : Channel Char) : Nat := (c.ops.map opLeft).sum

section
variable {c c' : Channel Char} {cap : Nat} {source target : Bool}

end

/-! ## What is left of the service -/

/-- The steps of a completed accept: its handler, and the write that this starts with the handler of
that. -/
def acceptLeft (a : Accept) : Nat :=
  match a.result with
  | none => 0
  | some none => 3
  | some (some _) => 1

/-- A client that reads has the bytes on the way to read, and the end. -/
def Service.toRead (s : Service ι) (c : ι) : Nat :=
  if s.client c = .reading then (s.arriving c).length + 1 else 0

/-- What is left of the operations of all connections. -/
def Server.left (x : Server) : Nat :=
  ((List.range x.made).map fun j => channelLeft (x.connection j).channel).sum

/-- What is left to do for the clients that have connected: the writes of the server, the bytes that
are not read, and the accepts to come. -/
def weight (ls : List (Label ι)) (s : Service ι) : Nat :=
  s.server.left + ((arrivals ls).map s.toRead).sum + 4 * s.backlog.length +
    (s.server.accepts.map acceptLeft).sum

/-- What a step adds to what is left, itself included. -/
def cost (ctime : Int → List Char) : Label ι → Nat
  | .connect _ none => 6
  | .connect _ (some _) => 1
  | .accept (some _) => 2
  | .handleAccept none now => 2 * (makeDaytimeString ctime now).length
  | _ => 0

section
omit [DecidableEq ι]
variable {c : ι}

end

end Daytime.Tcp
