import Snippets.Echo.Proof.Serving
import Snippets.Load.Pair

/-!
# Rounds of the client with the server

Where the bytes of a round are: those that the client has read, those on the way (to the client, in
the server's buffer, to the server) and those that it has still to write are the message, in this
order (`Flow`). So when the read completes the client has read the message, and as long as it has
not, there are bytes on the way and some side can go on (`Flowing.exists_step`).
-/

namespace Load

open Lts

variable {timeout : Int} {withTimeout : Bool} {s s' : Pair} {l : Pair.Label}
  {ls : List Pair.Label} {c : Peer} {path held piece rest : List UInt8}

/-! ## Where the bytes of a round are -/

/-- The buffers of a client in a round, and how much of its operation is done. -/
structure Peer.Ready (c : Peer) : Prop where
  send : c.sendBuffer = message
  recv : c.recvBuffer.length = message.length
  bound : c.transferred ≤ message.length
  all : c.completed = true → c.transferred = message.length

/-- `path`: the bytes on the way. -/
inductive Flow (c : Peer) (path : List UInt8) : Prop
  | idle : c.op = .connect ∨ c.op = .wait → path = [] → Flow c path
  | write : c.op = .write → c.Ready → path = message.take c.transferred → Flow c path
  | read : c.op = .read → c.Ready → c.recvBuffer.take c.transferred ++ path = message →
      Flow c path

theorem Flow.writing (hf : Flow c path) (hop : c.op = .write) :
    c.Ready ∧ path = message.take c.transferred := by
  cases hf with
  | idle hidle => rcases hidle with h | h <;> rw [hop] at h <;> cases h
  | write _ hr hpath => exact ⟨hr, hpath⟩
  | read h => rw [hop] at h; cases h

theorem Flow.reading (hf : Flow c path) (hop : c.op = .read) :
    c.Ready ∧ c.recvBuffer.take c.transferred ++ path = message := by
  cases hf with
  | idle hidle => rcases hidle with h | h <;> rw [hop] at h <;> cases h
  | write h => rw [hop] at h; cases h
  | read _ hr hpath => exact ⟨hr, hpath⟩

theorem take_append_piece {α : Type*} {l piece : List α} {n : Nat} (hn : n ≤ l.length)
    (h : piece <+: l.drop n) :
    l.take n ++ piece = l.take (n + piece.length) ∧ n + piece.length ≤ l.length := by
  obtain ⟨rest, hrest⟩ := h
  have hlen := congrArg List.length hrest
  rw [List.length_append, List.length_drop] at hlen
  refine ⟨?_, by omega⟩
  rw [List.take_add, ← hrest, List.take_left]

theorem Flow.send (hf : Flow c path) (hop : c.op = .write) (hnew : c.completed = false)
    (hpiece : piece <+: c.sendBuffer.drop c.transferred) :
    Flow { c with transferred := c.transferred + piece.length } (path ++ piece) := by
  obtain ⟨hr, hpath⟩ := hf.writing hop
  rw [hr.send] at hpiece
  obtain ⟨htake, hle⟩ := take_append_piece hr.bound hpiece
  refine .write hop ⟨hr.send, hr.recv, hle, fun h => absurd (hnew.symm.trans h) nofun⟩ ?_
  rw [hpath, htake]

theorem Flow.recv (hf : Flow c (piece ++ rest)) (hop : c.op = .read) (hnew : c.completed = false)
    (hle : c.transferred + piece.length ≤ c.recvBuffer.length) :
    Flow { c with
      recvBuffer := c.recvBuffer.take c.transferred ++ piece ++
        c.recvBuffer.drop (c.transferred + piece.length)
      transferred := c.transferred + piece.length } rest := by
  obtain ⟨hr, hpath⟩ := hf.reading hop
  have hlen : (c.recvBuffer.take c.transferred ++ piece).length =
      c.transferred + piece.length := by
    rw [List.length_append, List.length_take]
    omega
  refine .read hop ⟨hr.send, ?_, hr.recv ▸ hle, fun h => absurd (hnew.symm.trans h) nofun⟩ ?_
  · change (c.recvBuffer.take c.transferred ++ piece ++ _).length = _
    rw [List.length_append, hlen, List.length_drop, ← hr.recv]
    omega
  · change (c.recvBuffer.take c.transferred ++ piece ++ _).take (c.transferred + piece.length) ++
      rest = message
    rw [← hlen, List.take_left, List.append_assoc]
    exact hpath

theorem Flow.complete (hf : Flow c path)
    (hwrite : c.op = .write → c.transferred = c.sendBuffer.length)
    (hread : c.op = .read → c.transferred = c.recvBuffer.length) :
    Flow { c with completed := true } path := by
  cases hf with
  | idle hidle hpath => exact .idle hidle hpath
  | write hop hr hpath =>
    exact .write hop ⟨hr.send, hr.recv, hr.bound, fun _ => hr.send ▸ hwrite hop⟩ hpath
  | read hop hr hpath =>
    exact .read hop ⟨hr.send, hr.recv, hr.bound, fun _ => hr.recv ▸ hread hop⟩ hpath

theorem Flow.read_eq (hf : Flow c path) (hop : c.op = .read) (hdone : c.completed = true) :
    c.recvBuffer = c.sendBuffer ∧ path = [] := by
  obtain ⟨hr, hpath⟩ := hf.reading hop
  rw [hr.all hdone, ← hr.recv, List.take_length] at hpath
  have hlen := congrArg List.length hpath
  rw [List.length_append, hr.recv] at hlen
  obtain rfl : path = [] := List.eq_nil_of_length_eq_zero (by omega)
  exact ⟨by rw [hr.send, ← hpath, List.append_nil], rfl⟩

theorem Flow.start (h : c.op = .write) (hsend : c.sendBuffer = message)
    (hrecv : c.recvBuffer.length = message.length) (ht : c.transferred = 0)
    (hnew : c.completed = false) : Flow c [] := by
  refine .write h ⟨hsend, hrecv, ?_, fun h => absurd (hnew.symm.trans h) nofun⟩ ?_
  · rw [ht]
    exact Nat.zero_le _
  · rw [ht]
    rfl

theorem handle_read (hop : c.op = .read) (heq : c.recvBuffer = c.sendBuffer) : c.handle = { c with
    op := .wait
    transferred := 0
    completed := false
    counters := (Update.inc .echoes).apply c.counters
    rounds := c.rounds + 1 } := by
  simp [Peer.handle, Program.handle, Client.program, Client.handleRead, Peer.begin, hop, heq]

/-- The handlers count an echo for each round. -/
theorem Flow.handle (hf : Flow c path) (hdone : c.completed = true)
    (hcount : c.counters .echoes = c.rounds) :
    Flow c.handle path ∧ c.handle.counters .echoes = c.handle.rounds := by
  have hread := hf.read_eq
  obtain ⟨sendBuffer, recvBuffer, op, transferred, completed, counters, rounds⟩ := c
  cases hf with
  | idle hidle hpath =>
    subst hpath
    rcases hidle with h | h <;> obtain rfl : op = _ := h
    · exact ⟨.start rfl rfl (Echo.resize_length ..) rfl rfl, hcount⟩
    · exact ⟨.start rfl rfl (Echo.resize_length ..) rfl rfl, hcount⟩
  | write h hr hpath =>
    obtain rfl : op = _ := h
    refine ⟨.read rfl ⟨hr.send, hr.recv, Nat.zero_le _, nofun⟩ ?_, hcount⟩
    change [] ++ path = message
    rw [List.nil_append, hpath, hr.all hdone, List.take_length]
  | read h =>
    obtain rfl : op = _ := h
    obtain ⟨heq, hpath⟩ := hread rfl hdone
    rw [handle_read rfl heq]
    refine ⟨.idle (.inr rfl) hpath, ?_⟩
    have hcount' : counters .echoes = (rounds : Int) := hcount
    change counters .echoes + 1 = ((rounds + 1 : Nat) : Int)
    omega

/-! ## The invariant -/

theorem taken_moves (l : Echo.Label UInt8) : Relay.taken (Echo.Server.moves l) = l.drawn := by
  rcases l with _ | _ | e | _ | _ | _ <;> try rfl
  cases e <;> simp [Echo.Server.moves, Asio.Event.relay, Relay.taken, Echo.Label.drawn]

theorem given_moves (l : Echo.Label UInt8) : Relay.given (Echo.Server.moves l) = l.put := by
  rcases l with _ | _ | e | _ | _ | _ <;> try rfl
  cases e <;> simp [Echo.Server.moves, Asio.Event.relay, Relay.given, Echo.Label.put]

/-- `held`: the bytes in the server's buffer. -/
structure Flowing (s : Pair) (held : List UInt8) : Prop where
  serving : Echo.Server.Serving s.server held
  flow : Flow s.client (s.toClient ++ held ++ s.toServer)
  count : s.client.counters .echoes = s.client.rounds

theorem Flowing.step (hi : Flowing s held) (h : Pair.Step timeout withTimeout s l s') :
    ∃ held', Flowing s' held' := by
  cases h with
  | send hop hnew _ hpiece =>
    refine ⟨held, hi.serving, ?_, hi.count⟩
    have hf := hi.flow.send hop hnew hpiece
    rwa [List.append_assoc _ s.toServer] at hf
  | @recv piece rest hop hnew _ hle hbytes =>
    refine ⟨held, hi.serving, ?_, hi.count⟩
    have hf := hi.flow
    rw [hbytes, List.append_assoc, List.append_assoc] at hf
    have hf' := hf.recv hop hnew hle
    rwa [← List.append_assoc] at hf'
  | complete _ hwrite hread =>
    exact ⟨held, hi.serving, hi.flow.complete hwrite hread, hi.count⟩
  | handle hdone =>
    obtain ⟨hf, hcount⟩ := hi.flow.handle hdone hi.count
    exact ⟨held, hi.serving, hf, hcount⟩
  | @server l server rest hs hopen hfail hbytes =>
    obtain ⟨held', hrun, hserving⟩ := hi.serving.step hs hopen hfail
    refine ⟨held', hserving, ?_, hi.count⟩
    have hmoved := Relay.run_taken_eq hrun
    rw [taken_moves, given_moves] at hmoved
    have hf := hi.flow
    rw [hbytes, List.append_assoc, ← List.append_assoc held, hmoved] at hf
    simpa using hf

theorem pair_flowing (h : Exec (pair timeout withTimeout) ls s) : ∃ held, Flowing s held := by
  refine h.invariant (I := fun s => ∃ held, Flowing s held)
    (fun s (h0 : Pair.Initial _ _ s) => ⟨[], ?_, ?_, ?_⟩) fun s l s' ⟨held, hi⟩ hs => hi.step hs
  · refine ⟨h0.server.isOpen, h0.server.buffer, fun _ => ⟨h0.server.ops, rfl⟩, fun h => ?_⟩
    rw [h0.server.started] at h
    cases h
  · rw [h0.toClient, h0.toServer]
    exact .idle (.inl h0.op) rfl
  · rw [h0.counters, h0.rounds]
    rfl

/-! ## Going on -/

/-- The step is not one of the server's timer. -/
def Pair.Label.Advances : Pair.Label → Prop
  | .server l => Echo.Server.Advances l
  | _ => True

theorem exists_server {l : Echo.Label UInt8} {server : Echo.State UInt8}
    (h : Echo.Server.Goes timeout withTimeout s.server l server)
    (hbytes : s.toServer = l.drawn ++ rest) :
    ∃ l s', Pair.Step timeout withTimeout s l s' ∧ l.Advances :=
  ⟨_, _, .server h.step h.isOpen h.fails hbytes, h.advances⟩

theorem Flowing.exists_step_of_bytes (hi : Flowing s held) (hpos : 0 < timeout)
    (hop : s.client.op = .read) (hnew : s.client.completed = false)
    (hlt : s.client.transferred < s.client.recvBuffer.length)
    (hbytes : s.toClient ++ held ++ s.toServer ≠ []) :
    ∃ l s', Pair.Step timeout withTimeout s l s' ∧ l.Advances := by
  cases hclient : s.toClient with
  | cons x rest =>
    have hs : Pair.Step timeout withTimeout s (.recv [x]) _ :=
      .recv hop hnew nofun hlt hclient
    exact ⟨_, _, hs, trivial⟩
  | nil =>
    rcases hi.serving.exists_step withTimeout hpos with
      ⟨l, server, hgoes, hdrawn⟩ | ⟨rfl, hdeliver⟩
    · exact exists_server hgoes (by rw [hdrawn]; rfl)
    · rw [hclient] at hbytes
      cases hserver : s.toServer with
      | nil => exact absurd hserver hbytes
      | cons b rest =>
        obtain ⟨server, hgoes⟩ := hdeliver b
        exact exists_server hgoes hserver

theorem Flowing.exists_step (hi : Flowing s held) (hpos : 0 < timeout) :
    ∃ l s', Pair.Step timeout withTimeout s l s' ∧ l.Advances := by
  cases hdone : s.client.completed with
  | true => exact ⟨_, _, .handle hdone, trivial⟩
  | false =>
    cases hi.flow with
    | idle hidle =>
      have hother : ∀ op, op ≠ .connect → op ≠ .wait → s.client.op ≠ op := by
        rintro op h₁ h₂ rfl
        exact hidle.elim h₁ h₂
      exact ⟨_, _, .complete hdone (absurd · (hother _ nofun nofun))
        (absurd · (hother _ nofun nofun)), trivial⟩
    | write hop hr =>
      cases hrest : s.client.sendBuffer.drop s.client.transferred with
      | nil =>
        have hle := List.drop_eq_nil_iff.1 hrest
        have hall : s.client.transferred = s.client.sendBuffer.length :=
          Nat.le_antisymm (hr.send ▸ hr.bound) hle
        have hread : s.client.op ≠ .read := hop ▸ nofun
        exact ⟨_, _, .complete hdone (fun _ => hall) (absurd · hread), trivial⟩
      | cons x rest =>
        have hpiece : [x] <+: s.client.sendBuffer.drop s.client.transferred := ⟨rest, hrest.symm⟩
        have hs : Pair.Step timeout withTimeout s (.send [x]) _ := .send hop hdone nofun hpiece
        exact ⟨_, _, hs, trivial⟩
    | read hop hr hpath =>
      by_cases hlt : s.client.transferred < s.client.recvBuffer.length
      · refine hi.exists_step_of_bytes hpos hop hdone hlt fun hnil => ?_
        have hlen := congrArg List.length hpath
        rw [hnil, List.append_nil, List.length_take, ← hr.recv] at hlen
        omega
      · have hall : s.client.transferred = s.client.recvBuffer.length :=
          Nat.le_antisymm (hr.recv ▸ hr.bound) (Nat.le_of_not_lt hlt)
        have hwrite : s.client.op ≠ .write := hop ▸ nofun
        exact ⟨_, _, .complete hdone (absurd · hwrite) fun _ => hall, trivial⟩

/-! ## The result -/

/-- **The client and the server echo.** Whenever `handle_read` of the client is called it finds the
message in `recv_buffer_`, so there are as many echoes as rounds. While the client waits in
`async_read`, the bytes of the round that it has not read are on the way to it, in the server's
buffer, received and not written, or on the way to the server. Some side can always go on. -/
theorem rounds_echo (h : Exec (pair timeout withTimeout) ls s) :
    (s.client.op = .read → s.client.completed = true →
      s.client.recvBuffer = s.client.sendBuffer) ∧
    s.client.counters .echoes = s.client.rounds ∧
    (s.client.op = .read → s.client.completed = false →
      s.client.recvBuffer.take s.client.transferred ++
        (s.toClient ++ s.server.channel.unwritten ++ s.toServer) = s.client.sendBuffer) ∧
    (0 < timeout → ∃ l s', Pair.Step timeout withTimeout s l s' ∧ l.Advances) := by
  obtain ⟨held, hi⟩ := pair_flowing h
  refine ⟨fun hop hdone => (hi.flow.read_eq hop hdone).1, hi.count, fun hop _ => ?_,
    hi.exists_step⟩
  obtain ⟨hr, hpath⟩ := hi.flow.reading hop
  rw [hi.serving.unwritten_eq, hr.send, hpath]

/-- A client that has written its message, and a server that has received some of it. -/
theorem rounds_echo_partial : ∃ (ls : List Pair.Label) (s : Pair),
    Exec (pair 5 false) ls s ∧ s.client.recvBuffer.take s.client.transferred ++
      (s.toClient ++ s.server.channel.unwritten ++ s.toServer) = message ∧
      s.toServer = message.drop 2 := by
  have hnow : (0 : Int) ≤ 0 := Int.le_refl 0
  have hchunk : message.take 2 ≠ [] := by decide
  have hmessage : message ≠ [] := by decide
  have hlen : (message.take 2).length ≤ (List.replicate Echo.bufferSize (0 : UInt8)).length := by
    rw [List.length_replicate]
    decide
  have h0 : Exec (pair 5 false) [] ⟨⟨[], [], .connect, 0, false, fun _ => 0, 0⟩,
      ⟨false, true, ⟨List.replicate Echo.bufferSize 0, []⟩, ⟨0, []⟩, 0, [], 0⟩, [], []⟩ :=
    .init ⟨rfl, rfl, rfl, rfl, ⟨rfl, rfl, List.length_replicate, rfl, rfl, rfl, rfl⟩, rfl, rfl⟩
  have h1 := h0.snoc (.complete rfl nofun nofun)
  have h2 := h1.snoc (.handle rfl)
  have h3 := h2.snoc (.send rfl rfl hmessage (List.prefix_refl _))
  have h4 := h3.snoc (.complete rfl (fun _ => rfl) nofun)
  have h5 := h4.snoc (.handle rfl)
  have h6 := h5.snoc (.server (.start rfl hnow hnow) rfl nofun rfl)
  have h7 := h6.snoc (.server (.io (.deliver_head rfl rfl hchunk hlen)) rfl nofun
    (List.take_append_drop 2 message).symm)
  exact ⟨_, _, h7, (rounds_echo h7).2.2.1 rfl rfl, rfl⟩

end Load
