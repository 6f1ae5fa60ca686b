import Snippets.Daytime.Model

/-!
# The daytime service over UDP

`udp_server` of `asio/socket/06/main.cc` and of `asio/socket/07/main.cc`, and its clients,
`asio/socket/04/main.cc`. The server has one `m_endpoint`, into which every receive writes the
sender; a send takes its destination from there when it is started, and its handler holds a pointer
to the message. One thread runs the handlers. The network loses, duplicates and reorders datagrams;
a datagram to the server is given by its sender, as the server does not look at its byte.

A message is destroyed with its last pointer. Where a send would use a message that is gone, the
behaviour is undefined and the model has no step.
-/

namespace Daytime.Udp

open Lts Asio

/-! ## The server -/

/-- The `std::string` that a `message` points to. -/
structure Message where
  /-- the use count -/
  owners : Nat
  text : List Char

/-- An `async_receive_from`. -/
inductive Receive
  | outstanding
  | completed (error : Option Error)
  deriving DecidableEq

/-- An `async_send_to`: the message that its handler holds, and whether it has completed. -/
structure Send (ι : Type*) where
  dest : Option ι
  message : Nat
  completed : Bool

/-- The sender of the last request, the messages by number, and the operations that are outstanding
or completed. -/
structure Server (ι : Type*) where
  /-- `m_endpoint` -/
  endpoint : Option ι
  /-- how many messages have been made -/
  made : Nat
  message : Nat → Message
  receives : List Receive
  sends : List (Send ι)

variable {ι : Type*}

def Server.set (s : Server ι) (k : Nat) (m : Message) : Server ι :=
  { s with message := Function.update s.message k m }

/-- A pointer to the message is copied. -/
def Server.acquire (s : Server ι) (k : Nat) : Server ι :=
  s.set k { s.message k with owners := (s.message k).owners + 1 }

/-- A pointer to the message is destroyed. -/
def Server.release (s : Server ι) (k : Nat) : Server ι :=
  s.set k { s.message k with owners := (s.message k).owners - 1 }

/-- `std::make_shared<std::string> (make_daytime_string ())` -/
def Server.makeMessage (s : Server ι) (text : List Char) : Server ι :=
  { s.set s.made ⟨1, text⟩ with made := s.made + 1 }

def Server.startReceive (s : Server ι) : Server ι :=
  { s with receives := s.receives ++ [.outstanding] }

/-- `m_socket.async_send_to (asio::buffer (*message), m_endpoint, ..)` -/
def Server.asyncSendTo (s : Server ι) (message : Nat) : Server ι :=
  { s.acquire message with sends := s.sends ++ [⟨s.endpoint, message, false⟩] }

/-- `handle_receive`: a message is made and sent, unless there is an error, and then `start_receive
()`. -/
def Server.handleReceive (s : Server ι) (error : Option Error) (text : List Char) : Server ι :=
  if error = none then (((s.makeMessage text).asyncSendTo s.made).release s.made).startReceive
  else s.startReceive

/-- The handler of a send passes its pointer by value to `handle_send`, which does nothing. -/
def Server.onSend (s : Server ι) (message : Nat) : Server ι :=
  ((s.acquire message).release message).release message

/-! ## The exchange -/

/-- Where the `main` of a client is. -/
inductive Client
  /-- before `socket.send_to (..)` returns -/
  | sending
  /-- in `socket.receive_from (..)` -/
  | waiting
  /-- with what it has written to `std::cout` -/
  | ended (output : List Char)
  /-- an exception -/
  | thrown
  deriving DecidableEq

/-- The size of `recv_buff`. -/
def recvBuffSize : Nat := 128

/-- The server, the clients, and the datagrams between them. -/
structure Exchange (ι : Type*) where
  server : Server ι
  client : ι → Client
  /-- the requests on the way, by their senders -/
  requests : List ι
  /-- the replies on the way, with their destinations -/
  replies : List (ι × List Char)

/-- What a client does, the server, the network, or Boost.Asio to the server's operations. -/
inductive Label (ι : Type*)
  | send (c : ι) (error : Option Error)
  /-- a receive completes with the datagram of `c`, or with an error -/
  | receive (c : ι)
  | receiveFail (e : Error)
  /-- at the time `now` -/
  | handleReceive (error : Option Error) (now : Int)
  /-- a send completes with success, or with an error -/
  | put (dest : Option ι) (text : List Char)
  | putFail (dest : Option ι) (e : Error)
  | handleSend (message : Nat)
  /-- `receive_from` returns, and what it received is printed -/
  | read (c : ι) (text : List Char)
  | readFail (c : ι)
  | loseRequest (c : ι)
  | loseReply (c : ι) (text : List Char)
  | duplicateRequest (c : ι)
  | duplicateReply (c : ι) (text : List Char)

variable [DecidableEq ι]

def Exchange.setClient (s : Exchange ι) (c : ι) (x : Client) : Exchange ι :=
  { s with client := Function.update s.client c x }

/-- The steps of the clients, of the server and of the network, which may lose, duplicate and
reorder datagrams. -/
inductive Step (ctime : Int → List Char) (s : Exchange ι) : Label ι → Exchange ι → Prop
  | send {c : ι} : s.client c = .sending →
      Step ctime s (.send c none) { s.setClient c .waiting with requests := c :: s.requests }
  | refuse {c : ι} {e : Error} : s.client c = .sending →
      Step ctime s (.send c (some e)) (s.setClient c .thrown)
  | receive {l₁ l₂ : List Receive} {cs₁ cs₂ : List ι} {c : ι} :
      s.server.receives = l₁ ++ .outstanding :: l₂ → s.requests = cs₁ ++ c :: cs₂ →
      Step ctime s (.receive c) { s with
        server := { s.server with
          receives := l₁ ++ .completed none :: l₂
          endpoint := some c }
        requests := cs₁ ++ cs₂ }
  | receiveFail {l₁ l₂ : List Receive} {e : Error} :
      s.server.receives = l₁ ++ .outstanding :: l₂ →
      Step ctime s (.receiveFail e) { s with
        server := { s.server with receives := l₁ ++ .completed (some e) :: l₂ } }
  | handleReceive {l₁ l₂ : List Receive} {error : Option Error} {now : Int} :
      s.server.receives = l₁ ++ .completed error :: l₂ →
      Step ctime s (.handleReceive error now) { s with
        server := { s.server with receives := l₁ ++ l₂ }.handleReceive error
          (makeDaytimeString ctime now) }
  | put {l₁ l₂ : List (Send ι)} {dest : Option ι} {k : Nat} :
      s.server.sends = l₁ ++ ⟨dest, k, false⟩ :: l₂ → 0 < (s.server.message k).owners →
      Step ctime s (.put dest (s.server.message k).text) { s with
        server := { s.server with sends := l₁ ++ ⟨dest, k, true⟩ :: l₂ }
        replies := dest.toList.map (·, (s.server.message k).text) ++ s.replies }
  | putFail {l₁ l₂ : List (Send ι)} {dest : Option ι} {k : Nat} {e : Error} :
      s.server.sends = l₁ ++ ⟨dest, k, false⟩ :: l₂ →
      Step ctime s (.putFail dest e) { s with
        server := { s.server with sends := l₁ ++ ⟨dest, k, true⟩ :: l₂ } }
  | handleSend {l₁ l₂ : List (Send ι)} {dest : Option ι} {k : Nat} :
      s.server.sends = l₁ ++ ⟨dest, k, true⟩ :: l₂ →
      Step ctime s (.handleSend k) { s with
        server := { s.server with sends := l₁ ++ l₂ }.onSend k }
  | read {c : ι} {text : List Char} {l₁ l₂ : List (ι × List Char)} : s.client c = .waiting →
      s.replies = l₁ ++ (c, text) :: l₂ →
      Step ctime s (.read c text)
        { s.setClient c (.ended (text.take recvBuffSize)) with replies := l₁ ++ l₂ }
  | readFail {c : ι} : s.client c = .waiting → Step ctime s (.readFail c) (s.setClient c .thrown)
  | loseRequest {cs₁ cs₂ : List ι} {c : ι} : s.requests = cs₁ ++ c :: cs₂ →
      Step ctime s (.loseRequest c) { s with requests := cs₁ ++ cs₂ }
  | loseReply {c : ι} {text : List Char} {l₁ l₂ : List (ι × List Char)} :
      s.replies = l₁ ++ (c, text) :: l₂ →
      Step ctime s (.loseReply c text) { s with replies := l₁ ++ l₂ }
  | duplicateRequest {c : ι} : c ∈ s.requests →
      Step ctime s (.duplicateRequest c) { s with requests := c :: s.requests }
  | duplicateReply {c : ι} {text : List Char} : (c, text) ∈ s.replies →
      Step ctime s (.duplicateReply c text) { s with replies := (c, text) :: s.replies }

section
variable {ctime : Int → List Char} {s : Exchange ι} {rs : List Receive}

end

/-- The server after its constructor, and clients that have not sent. -/
def exchange (ι : Type*) [DecidableEq ι] (ctime : Int → List Char) :
    System (Exchange ι) (Label ι) where
  init s := s.server = Server.startReceive ⟨none, 0, fun _ => ⟨0, []⟩, [], []⟩ ∧
    (∀ c, s.client c = .sending) ∧ s.requests = [] ∧ s.replies = []
  step := Step ctime

/-! ## What has happened -/

/-- The senders of the requests that the server received, in order. -/
def received (ls : List (Label ι)) : List ι :=
  ls.filterMap fun
    | .receive c => some c
    | _ => none

/-- When the server handled them, in order. -/
def answered (ls : List (Label ι)) : List Int :=
  ls.filterMap fun
    | .handleReceive none now => some now
    | _ => none

/-- The replies to `c` that the server put on the network, or failed to. -/
def repliesTo (c : ι) (ls : List (Label ι)) : Nat :=
  ls.countP fun
    | .put dest _ | .putFail dest _ => dest = some c
    | _ => false

/-- A request of `c`, or a reply to it, did not get through. -/
def Lost (c : ι) (ls : List (Label ι)) : Prop :=
  ∃ l ∈ ls, l = .loseRequest c ∨ (∃ text, l = .loseReply c text) ∨ ∃ e, l = .putFail (some c) e

/-- Steps of the server, with its operations, and of clients that receive. -/
def Label.Own : Label ι → Prop
  | .receive _ | .handleReceive .. | .put .. | .handleSend _ | .read .. => True
  | _ => False

/-- How many steps another step may lead to, itself included. -/
def Label.cost : Label ι → Nat
  | .send _ none => 6
  | .send _ (some _) => 1
  | .receiveFail _ => 2
  | .readFail _ => 1
  | .duplicateRequest _ => 6
  | .duplicateReply .. => 2
  | _ => 0

/-- Neither the server nor a client that receives can make a step. -/
def Resting (ctime : Int → List Char) (s : Exchange ι) : Prop :=
  ∀ l s', Step ctime s l s' → ¬l.Own

end Daytime.Udp
