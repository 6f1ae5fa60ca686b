import Snippets.Echo.Server
import Snippets.Load.Session

/-!
# A client and a server

One session of `asio/echo/client.cc` and the echo session of `asio/echo/server.cc` that it is
connected to, with the bytes on the way between them. `async_write` writes its bytes in pieces and
`async_read` reads until its buffer is full; a receive of the server takes any part of the bytes
that have come. The operations of the client succeed; the server's may do anything but fail, and its
session is not stopped.
-/

namespace Load

open Lts

/-- The bytes of `"Hello world!"`. -/
def message : List UInt8 := "Hello world!".toList.map fun c => UInt8.ofNat c.toNat

/-- The session of the client. `transferred`: the bytes that its operation has written or read;
`rounds`: how often `handle_read` was called. -/
structure Peer where
  sendBuffer : List UInt8
  recvBuffer : List UInt8
  op : Op
  transferred : Nat
  completed : Bool
  counters : Counter → Int
  rounds : Nat

/-- An operation is started, the write by `start ()`. -/
def Peer.begin (c : Peer) (op : Op) : Peer :=
  match op with
  | .write => { c with
      sendBuffer := message
      recvBuffer := Echo.resize message.length c.recvBuffer
      op := .write
      transferred := 0
      completed := false }
  | op => { c with op := op, transferred := 0, completed := false }

/-- The handler of the operation that completed. -/
def Peer.handle (c : Peer) : Peer :=
  let handler := Client.program.handle false (c.recvBuffer == c.sendBuffer) c.op
  let c := { c with
    counters := handler.updates.foldl (fun counters u => u.apply counters) c.counters
    rounds := if c.op = .read then c.rounds + 1 else c.rounds }
  match handler.next with
  | some op => c.begin op
  | none => c

/-- `toServer`, `toClient`: the bytes written by one side and not read by the other. -/
structure Pair where
  client : Peer
  server : Echo.State UInt8
  toServer : List UInt8
  toClient : List UInt8

/-- What happens to the operation of the client, its handlers, and the steps of the server. -/
inductive Pair.Label
  /-- `async_write` of the client writes more of its bytes -/
  | send (piece : List UInt8)
  /-- `async_read` of the client reads more bytes -/
  | recv (piece : List UInt8)
  /-- the operation of the client completes -/
  | complete
  | handle
  | server (l : Echo.Label UInt8)

/-- The steps of the two. The bytes on the way are read in any pieces, and no operation fails. -/
inductive Pair.Step (timeout : Int) (withTimeout : Bool) (s : Pair) : Pair.Label → Pair → Prop
  | send {piece : List UInt8} : s.client.op = .write → s.client.completed = false → piece ≠ [] →
      piece <+: s.client.sendBuffer.drop s.client.transferred →
      Step timeout withTimeout s (.send piece) { s with
        client := { s.client with transferred := s.client.transferred + piece.length }
        toServer := s.toServer ++ piece }
  | recv {piece rest : List UInt8} : s.client.op = .read → s.client.completed = false →
      piece ≠ [] → s.client.transferred + piece.length ≤ s.client.recvBuffer.length →
      s.toClient = piece ++ rest →
      Step timeout withTimeout s (.recv piece) { s with
        client := { s.client with
          recvBuffer := s.client.recvBuffer.take s.client.transferred ++ piece ++
            s.client.recvBuffer.drop (s.client.transferred + piece.length)
          transferred := s.client.transferred + piece.length }
        toClient := rest }
  | complete : s.client.completed = false →
      (s.client.op = .write → s.client.transferred = s.client.sendBuffer.length) →
      (s.client.op = .read → s.client.transferred = s.client.recvBuffer.length) →
      Step timeout withTimeout s .complete { s with client := { s.client with completed := true } }
  | handle : s.client.completed = true →
      Step timeout withTimeout s .handle { s with client := s.client.handle }
  | server {l : Echo.Label UInt8} {server : Echo.State UInt8} {rest : List UInt8} :
      Echo.Step (Echo.Server.program timeout withTimeout) s.server l server →
      server.isOpen = true → (∀ io e, l ≠ .io (.fail io e)) → s.toServer = l.drawn ++ rest →
      Step timeout withTimeout s (.server l) { s with
        server := server
        toServer := rest
        toClient := s.toClient ++ l.put }

/-- The client connects, and the server accepts it. -/
structure Pair.Initial (timeout : Int) (withTimeout : Bool) (s : Pair) : Prop where
  op : s.client.op = .connect
  completed : s.client.completed = false
  counters : s.client.counters .echoes = 0
  rounds : s.client.rounds = 0
  server : Echo.Initial (Echo.Server.program timeout withTimeout) s.server
  toServer : s.toServer = []
  toClient : s.toClient = []

/-- A client and the session that serves it. -/
def pair (timeout : Int) (withTimeout : Bool) : System Pair Pair.Label where
  init := Pair.Initial timeout withTimeout
  step := Pair.Step timeout withTimeout

end Load
