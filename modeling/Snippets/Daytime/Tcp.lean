import Snippets.Daytime.Model

/-!
# The daytime service over TCP

The server with handlers, `tcp_connection` and `tcp_server` of `asio/socket/03/main.cc` and of
`asio/socket/07/main.cc`, and its clients, `asio/socket/01/main.cc`. Connections are numbered in the
order in which `tcp_connection::create` makes them. The handler of an operation holds a pointer to
its connection, and goes when it has run; a connection is destroyed with its last pointer, which
closes its socket. One thread runs the handlers. Clients that have connected wait in the backlog of
the acceptor in the order in which they came; what the server writes to one is on the way until the
client reads it.
-/

namespace Daytime.Tcp

open Lts Asio

/-! ## The server -/

/-- A `tcp_connection`. -/
structure Connection where
  /-- the use count -/
  owners : Nat
  /-- `m_message`, and the `async_write`s from it -/
  channel : Channel Char

/-- The socket is a member of the connection, and closed with it. -/
def Connection.isOpen (c : Connection) : Bool := decide (0 < c.owners)

/-- An `async_accept`: the connection that its handler holds, and how it completed. -/
structure Accept where
  conn : Nat
  result : Option (Option Error)

/-- The connections by number, and the accepts that are outstanding or completed. -/
structure Server where
  /-- how many connections have been made -/
  made : Nat
  connection : Nat → Connection
  accepts : List Accept

def Server.set (s : Server) (k : Nat) (c : Connection) : Server :=
  { s with connection := Function.update s.connection k c }

/-- A pointer to the connection is copied. -/
def Server.acquire (s : Server) (k : Nat) : Server :=
  s.set k { s.connection k with owners := (s.connection k).owners + 1 }

/-- A pointer to the connection is destroyed. -/
def Server.release (s : Server) (k : Nat) : Server :=
  s.set k { s.connection k with owners := (s.connection k).owners - 1 }

/-- `tcp_connection::create (m_ctx)` -/
def Server.create (s : Server) : Server :=
  { s.set s.made ⟨1, ⟨[], []⟩⟩ with made := s.made + 1 }

/-- `async_accept (conn->socket (), ..)` -/
def Server.asyncAccept (s : Server) (conn : Nat) : Server :=
  { s with accepts := s.accepts ++ [⟨conn, none⟩] }

/-- The handler copies `conn`, and `conn` goes out of scope. -/
def Server.startAccept (s : Server) : Server :=
  ((s.create.acquire s.made).asyncAccept s.made).release s.made

/-- `tcp_connection::start ()`, with `message` from `make_daytime_string ()` -/
def Server.start (s : Server) (k : Nat) (message : List Char) : Server :=
  (s.acquire k).set k { (s.acquire k).connection k with
    channel := Channel.start ⟨message, (s.connection k).channel.ops⟩ (.write message.length) }

/-- `handle_accept`: `if (!error) conn->start (); start_accept ();` -/
def Server.handleAccept (s : Server) (error : Option Error) (conn : Nat) (message : List Char) :
    Server :=
  if error = none then (s.start conn message).startAccept else s.startAccept

/-- The handler of an accept passes its pointer by value. -/
def Server.onAccept (s : Server) (error : Option Error) (conn : Nat) (message : List Char) :
    Server :=
  (((s.acquire conn).handleAccept error conn message).release conn).release conn

/-- `handle_write` does nothing, and the handler goes. -/
def Server.onWrite (s : Server) (k : Nat) (channel : Channel Char) : Server :=
  (s.set k { s.connection k with channel := channel }).release k

/-! ## The service -/

/-- Where the `main` of a client is. -/
inductive Client
  /-- `resolver.resolve (..)` or `asio::connect (..)` -/
  | connecting
  /-- `for (;;)` with `socket.read_some (asio::buffer (buff), error)` -/
  | reading
  /-- `if (error == asio::error::eof) break;` -/
  | ended
  /-- an exception -/
  | thrown
  deriving DecidableEq

/-- The size of `buff`. -/
def buffSize : Nat := 128

/-- The server, the clients, and what is between them. -/
structure Service (ι : Type*) where
  server : Server
  /-- the clients that have connected and are not accepted -/
  backlog : List ι
  /-- the client at the other end of a connection's socket -/
  peer : Nat → Option ι
  client : ι → Client
  /-- on the way to the client -/
  arriving : ι → List Char
  /-- what the client has written to `std::cout` -/
  output : ι → List Char

/-- What a client does, the server, or Boost.Asio to the server's operations. -/
inductive Label (ι : Type*)
  | connect (c : ι) (error : Option Error)
  | accept (error : Option Error)
  /-- at the time `now` -/
  | handleAccept (error : Option Error) (now : Int)
  | write (k : Nat) (e : Event Char)
  | handleWrite (k : Nat) (r : Result)
  /-- `read_some` returns bytes, which are printed -/
  | read (c : ι) (chunk : List Char)
  | eof (c : ι)
  /-- `throw sys::system_error (error);` -/
  | throw (c : ι)

variable {ι : Type*} [DecidableEq ι]

/-- What an event of a connection's socket sends to its client. -/
def Service.deliver (s : Service ι) (k : Nat) (e : Event Char) : ι → List Char :=
  match s.peer k with
  | some c => Function.update s.arriving c (s.arriving c ++ Relay.given e.relay)
  | none => s.arriving

def Service.setClient (s : Service ι) (c : ι) (x : Client) : Service ι :=
  { s with client := Function.update s.client c x }

/-- The steps of the clients and of the server. The connections that wait to be accepted are
accepted in the order in which they were made. -/
inductive Step (ctime : Int → List Char) (s : Service ι) : Label ι → Service ι → Prop
  | connect {c : ι} : s.client c = .connecting →
      Step ctime s (.connect c none) { s.setClient c .reading with backlog := s.backlog ++ [c] }
  | refuse {c : ι} {e : Error} : s.client c = .connecting →
      Step ctime s (.connect c (some e)) (s.setClient c .thrown)
  | accept {l₁ l₂ : List Accept} {k : Nat} {c : ι} {cs : List ι} :
      s.server.accepts = l₁ ++ ⟨k, none⟩ :: l₂ → s.backlog = c :: cs →
      Step ctime s (.accept none) { s with
        server := { s.server with accepts := l₁ ++ ⟨k, some none⟩ :: l₂ }
        backlog := cs
        peer := Function.update s.peer k (some c) }
  | fail {l₁ l₂ : List Accept} {k : Nat} {e : Error} :
      s.server.accepts = l₁ ++ ⟨k, none⟩ :: l₂ →
      Step ctime s (.accept (some e)) { s with
        server := { s.server with accepts := l₁ ++ ⟨k, some (some e)⟩ :: l₂ } }
  | handleAccept {l₁ l₂ : List Accept} {k : Nat} {error : Option Error} {now : Int} :
      s.server.accepts = l₁ ++ ⟨k, some error⟩ :: l₂ →
      Step ctime s (.handleAccept error now) { s with
        server := { s.server with accepts := l₁ ++ l₂ }.onAccept error k
          (makeDaytimeString ctime now) }
  | write {k : Nat} {e : Event Char} {channel : Channel Char} :
      (s.server.connection k).channel.Step 0 (s.server.connection k).isOpen
        (s.server.connection k).isOpen e channel →
      Step ctime s (.write k e) { s with
        server := s.server.set k { s.server.connection k with channel := channel }
        arriving := s.deliver k e }
  | handleWrite {k size : Nat} {r : Result} {channel : Channel Char} :
      (s.server.connection k).channel.Takes (.write size) r channel →
      Step ctime s (.handleWrite k r) { s with server := s.server.onWrite k channel }
  | read {c : ι} {chunk rest : List Char} : s.client c = .reading → chunk ≠ [] →
      chunk.length ≤ buffSize → s.arriving c = chunk ++ rest →
      Step ctime s (.read c chunk) { s with
        arriving := Function.update s.arriving c rest
        output := Function.update s.output c (s.output c ++ chunk) }
  /-- The socket at the other end is closed. -/
  | eof {c : ι} {k : Nat} : s.client c = .reading → s.arriving c = [] → s.peer k = some c →
      (s.server.connection k).isOpen = false → Step ctime s (.eof c) (s.setClient c .ended)
  | throw {c : ι} : s.client c = .reading → Step ctime s (.throw c) (s.setClient c .thrown)

section
variable {ctime : Int → List Char} {s : Service ι} {k : Nat} {as : List Accept}

/-- The first accept completes, or its handler runs. -/
theorem Step.accept_head {c : ι} {cs : List ι} (h : s.server.accepts = ⟨k, none⟩ :: as)
    (hb : s.backlog = c :: cs) : Step ctime s (.accept none) { s with
      server := { s.server with accepts := ⟨k, some none⟩ :: as }
      backlog := cs
      peer := Function.update s.peer k (some c) } :=
  @Step.accept _ _ _ _ [] _ _ _ _ h hb

theorem Step.fail_head (h : s.server.accepts = ⟨k, none⟩ :: as) (e : Error) :
    Step ctime s (.accept (some e)) { s with
      server := { s.server with accepts := ⟨k, some (some e)⟩ :: as } } :=
  @Step.fail _ _ _ _ [] _ _ _ h

theorem Step.handleAccept_head {error : Option Error}
    (h : s.server.accepts = ⟨k, some error⟩ :: as) (now : Int) :
    Step ctime s (.handleAccept error now) { s with
      server := { s.server with accepts := as }.onAccept error k
        (makeDaytimeString ctime now) } :=
  @Step.handleAccept _ _ _ _ [] _ _ _ _ h

end

/-- The server after its constructor, and clients that have not connected. -/
def service (ι : Type*) [DecidableEq ι] (ctime : Int → List Char) :
    System (Service ι) (Label ι) where
  init s := s.server = Server.startAccept ⟨0, fun _ => ⟨0, ⟨[], []⟩⟩, []⟩ ∧ s.backlog = [] ∧
    (∀ k, s.peer k = none) ∧ (∀ c, s.client c = .connecting) ∧ (∀ c, s.arriving c = []) ∧
    ∀ c, s.output c = []
  step := Step ctime

/-! ## What has happened -/

/-- The clients that have connected, in order. -/
def arrivals (ls : List (Label ι)) : List ι :=
  ls.filterMap fun
    | .connect c none => some c
    | _ => none

/-- When the connections were started, in order. -/
def served (ls : List (Label ι)) : List Int :=
  ls.filterMap fun
    | .handleAccept none now => some now
    | _ => none

/-- The write of the connection failed. -/
def Failed (ls : List (Label ι)) (k : Nat) : Prop :=
  ∃ io e, Label.write k (.fail io e) ∈ ls

/-- No step is left but that a client connects and that an accept fails. -/
def Resting (ctime : Int → List Char) (s : Service ι) : Prop :=
  ∀ l s', Step ctime s l s' →
    (∃ c error, l = .connect c error) ∨ ∃ e, l = .accept (some e)

end Daytime.Tcp
