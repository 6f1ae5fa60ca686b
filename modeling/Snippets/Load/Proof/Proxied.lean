import Snippets.Echo.Proof.Due
import Snippets.Load.Proof.Rounds
import Snippets.Load.Proxied
import Snippets.Proxy.Proof.Arrival

/-!
# Rounds through proxies

The steps of the client and the server at the ends of a path are steps of the pair that has all
bytes of the path between them, and those of the proxies are none (`Proxied.Step.direct`). So a
client cannot tell the proxies: what holds of the pair holds with any number of them
(`proxied_echo`). Each round costs a bounded number of steps, which is linear in the number of
proxies, and some side or some proxy can always go on (`proxied_rounds`).
-/

namespace Load

open Lts

variable {timeout timeout' : Int} {withTimeout : Bool} {n : Nat} {s s' : Proxied} {p t : Pair}
  {l : Pair.Label} {a : Proxied.Label} {ls : List Proxied.Label} {held : List UInt8}

/-! ## The ends of the path -/

/-- More bytes behind those that the client has written, and behind those that it reads next. -/
theorem Pair.Step.near (h : Pair.Step timeout withTimeout p l t) (hl : ¬l.OfServer)
    (up down : List UInt8) : Pair.Step timeout withTimeout
      { p with toServer := up ++ p.toServer, toClient := p.toClient ++ down } l
      { p with
        client := t.client
        toServer := up ++ t.toServer
        toClient := t.toClient ++ down } := by
  cases h with
  | send hop hnew hne hpiece =>
    rw [← List.append_assoc]
    exact .send hop hnew hne hpiece
  | recv hop hnew hne hle hbytes =>
    exact .recv hop hnew hne hle (by rw [hbytes, List.append_assoc])
  | complete hnew hwrite hread => exact .complete hnew hwrite hread
  | handle hdone => exact .handle hdone
  | server => exact absurd trivial hl

theorem Pair.Step.far (h : Pair.Step timeout withTimeout p l t) (hl : l.OfServer)
    (up down : List UInt8) : Pair.Step timeout withTimeout
      { p with toServer := p.toServer ++ up, toClient := down ++ p.toClient } l
      { p with
        server := t.server
        toServer := t.toServer ++ up
        toClient := down ++ t.toClient } := by
  cases h with
  | server hs hopen hfail hbytes =>
    rw [← List.append_assoc]
    exact .server hs hopen hfail (by rw [hbytes, List.append_assoc])
  | send | recv | complete | handle => exact hl.elim

/-! ## The refinement -/

theorem Proxied.Step.direct (h : Proxied.Step timeout withTimeout timeout' s a s')
    (hok : s.path.Ok) :
    Run (pair timeout withTimeout) s.direct a.direct.toList s'.direct ∧ s'.path.Ok := by
  cases h with
  | @client l t hl hs =>
    obtain ⟨x, y, hfirst⟩ := s.path.exists_first
    have hlink := hfirst s.path.first
    have hlink' := hfirst ⟨t.toServer, t.toClient⟩
    simp only [Proxy.Path.setFirst_first, Proxy.Path.link, Duplex.Link.mk.injEq] at hlink hlink'
    refine ⟨.single ?_, by simpa using hok⟩
    simp only [Proxied.direct, hlink, hlink']
    exact hs.near hl x y
  | @server l t hl hs =>
    obtain ⟨x, y, hlast⟩ := s.path.exists_last
    have hlink := hlast s.path.last
    have hlink' := hlast ⟨t.toServer, t.toClient⟩
    simp only [Proxy.Path.setLast_last, Proxy.Path.link, Duplex.Link.mk.injEq] at hlink hlink'
    refine ⟨.single ?_, by simpa using hok⟩
    simp only [Proxied.direct, hlink, hlink']
    exact hs.far hl x y
  | proxy hs =>
    obtain ⟨hlink, hok'⟩ := hs.link hok
    simp only [Proxy.Path.link, Duplex.Link.mk.injEq] at hlink
    refine ⟨?_, hok'⟩
    simp only [Proxied.direct, hlink]
    exact .nil _

theorem proxied_refines (h : Exec (proxied timeout withTimeout timeout' n) ls s) :
    Exec (pair timeout withTimeout) (ls.flatMap fun a => a.direct.toList) s.direct ∧
      s.path.Ok := by
  obtain ⟨_, hexec, rfl, hok⟩ := h.simulate (A := pair timeout withTimeout)
    (R := fun s p => s.direct = p ∧ s.path.Ok)
    (fun s (h0 : Proxied.Initial _ _ _ s) => by
      have hlink := h0.path.link_eq
      simp only [Proxy.Path.link, Duplex.Link.mk.injEq] at hlink
      refine ⟨_, h0.pair, ?_, h0.path.ok⟩
      rw [Proxied.direct, hlink.1, hlink.2])
    (fun s a s' p ⟨hp, hok⟩ hs => by
      obtain ⟨hrun, hok'⟩ := Proxied.Step.direct hs hok
      exact ⟨_, hp ▸ hrun, rfl, hok'⟩)
  exact ⟨hexec, hok⟩

theorem proxied_flowing (h : Exec (proxied timeout withTimeout timeout' n) ls s) :
    ∃ held, Flowing s.direct held :=
  pair_flowing (proxied_refines h).1

/-! ## What is left of a round -/

/-- The steps of the client until its read is handled, and `k` steps for each byte that it has
still to write. -/
def Peer.due (k : Nat) (c : Peer) : Nat :=
  match c.op with
  | .connect | .wait => 6 - c.completed.toNat + k * message.length
  | .write => 4 - c.completed.toNat + k * (message.length - c.transferred)
  | .read => 2 - c.completed.toNat

/-- The steps for a byte of a message: `5 * n` each way in the proxies, five in the server, and one
each of the client to write and to read it. -/
def price (n : Nat) : Nat := 10 * n + 7

/-- The steps of a round. -/
def perRound (n : Nat) : Nat := 6 + price n * message.length

/-- What all have still to do in the round. -/
def Proxied.weight (s : Proxied) : Nat :=
  s.client.due (price s.path.hops) + (5 * s.path.hops + 6) * s.path.up.length + s.path.weight 0 +
    Echo.Server.due s.server + (5 * s.path.hops + 2) * s.server.channel.unwritten.length +
      s.path.down.length

/-- 1 unless the step is one of a timer. -/
def Proxied.Label.advance : Proxied.Label → Nat
  | .pair (.server l) => Echo.Server.advance l
  | .pair _ => 1
  | .proxy _ l => l.advance

theorem Flow.due_handle {c : Peer} {path : List UInt8} (hf : Flow c path)
    (hdone : c.completed = true) (n : Nat) : c.handle.due (price n) + perRound n * c.rounds + 1 ≤
      c.due (price n) + perRound n * c.handle.rounds := by
  have hread := hf.read_eq
  obtain ⟨sendBuffer, recvBuffer, op, transferred, completed, counters, rounds⟩ := c
  obtain rfl : completed = true := hdone
  cases op with
  | connect | wait =>
    change 4 - 0 + price n * message.length + perRound n * rounds + 1 ≤
      6 - 1 + price n * message.length + perRound n * rounds
    omega
  | write =>
    change 2 - 0 + perRound n * rounds + 1 ≤
      4 - 1 + price n * (message.length - transferred) + perRound n * rounds
    omega
  | read =>
    obtain ⟨heq, -⟩ := hread rfl rfl
    rw [handle_read rfl heq]
    simp [Peer.due, perRound, Nat.mul_add]
    omega

theorem due_complete {c : Peer} (hnew : c.completed = false) (k : Nat) :
    Peer.due k { c with completed := true } + 1 = c.due k := by
  simp only [Peer.due, hnew]
  cases c.op <;> simp <;> omega

theorem due_recv {c : Peer} (hop : c.op = .read) (b : List UInt8) (m k : Nat) :
    Peer.due k { c with recvBuffer := b, transferred := m } = c.due k := by
  simp only [Peer.due, hop]

theorem Flow.due_send {c : Peer} {path piece : List UInt8} (hf : Flow c path) (hop : c.op = .write)
    (hpiece : piece <+: c.sendBuffer.drop c.transferred) (k : Nat) :
    Peer.due k { c with transferred := c.transferred + piece.length } + k * piece.length =
      c.due k := by
  obtain ⟨hr, -⟩ := hf.writing hop
  rw [hr.send] at hpiece
  have hle := (take_append_piece hr.bound hpiece).2
  have hleft : message.length - c.transferred =
      message.length - (c.transferred + piece.length) + piece.length := by omega
  simp only [Peer.due, hop, hleft, Nat.mul_add]
  omega

/-- Every step but one of a timer is one of the round. -/
theorem Proxied.Step.weight (h : Proxied.Step timeout withTimeout timeout' s a s')
    (hok : s.path.Ok) (hi : Flowing s.direct held) :
    s'.weight + perRound s.path.hops * s.client.rounds + a.advance ≤
      s.weight + perRound s.path.hops * s'.client.rounds ∧ s'.path.hops = s.path.hops := by
  cases h with
  | @client l t hl hs =>
    refine ⟨?_, Proxy.Path.hops_setFirst⟩
    obtain ⟨x, y, hfirst⟩ := s.path.exists_first
    have hlink := hfirst s.path.first
    have hlink' := hfirst ⟨t.toServer, t.toClient⟩
    have hweight := s.path.weight_setFirst 0 ⟨t.toServer, t.toClient⟩
    simp only [Proxy.Path.setFirst_first, Proxy.Path.link, Duplex.Link.mk.injEq] at hlink hlink'
    simp only [Proxied.weight, Proxy.Path.hops_setFirst, hlink, hlink', List.length_append]
    cases hs with
    | @send piece hop _ hne hpiece =>
      have hdue := hi.flow.due_send hop hpiece (price s.path.hops)
      have hpos := List.length_pos_of_ne_nil hne
      simp only [Proxied.near, Proxied.direct, price, List.length_append, Nat.mul_add, Nat.add_mul,
        Nat.mul_assoc, Label.advance] at hdue hweight ⊢
      omega
    | @recv piece rest hop _ hne hle hbytes =>
      have hpos := List.length_pos_of_ne_nil hne
      have hlen : s.path.first.down.length = piece.length + rest.length := by
        rw [← List.length_append, ← hbytes, Proxied.near]
      simp only [due_recv hop]
      simp only [Proxied.near, Label.advance] at hweight ⊢
      omega
    | complete hnew =>
      have hdue := due_complete hnew (price s.path.hops)
      simp only [Proxied.near, Label.advance] at hdue hweight ⊢
      omega
    | handle hdone =>
      have hdue := hi.flow.due_handle hdone s.path.hops
      simp only [Proxied.near, Proxied.direct, Label.advance] at hdue hweight ⊢
      omega
    | server => exact absurd trivial hl
  | @server l t hl hs =>
    refine ⟨?_, Proxy.Path.hops_setLast⟩
    obtain ⟨x, y, hlast⟩ := s.path.exists_last
    have hlink := hlast s.path.last
    have hlink' := hlast ⟨t.toServer, t.toClient⟩
    have hweight := s.path.weight_setLast 0 ⟨t.toServer, t.toClient⟩
    simp only [Proxy.Path.setLast_last, Proxy.Path.link, Duplex.Link.mk.injEq] at hlink hlink'
    simp only [Proxied.weight, Proxy.Path.hops_setLast, hlink, hlink', List.length_append]
    cases hs with
    | @server l server rest hs hopen hfail hbytes =>
      obtain ⟨held', hrun, hserving⟩ := hi.serving.step hs hopen hfail
      have hdue := hi.serving.due hs hfail
      have hmoved := congrArg List.length (Relay.run_taken_eq hrun)
      have hlen := congrArg List.length hbytes
      have hheld : s.server.channel.unwritten = held := hi.serving.unwritten_eq
      rw [taken_moves, given_moves] at hmoved
      simp only [List.length_append] at hmoved hlen
      rw [hserving.unwritten_eq, hheld]
      simp only [Proxied.far, Proxied.direct, List.length_append, Nat.mul_add, Nat.add_mul,
        Nat.mul_assoc, Nat.zero_add, Label.advance] at hdue hmoved hlen hweight ⊢
      have hscale := congrArg (fun x => s.path.hops * x) hmoved
      have hscale' := congrArg (fun x => s.path.hops * x) hlen
      simp only [Nat.mul_add] at hscale hscale'
      omega
    | send | recv | complete | handle => exact hl.elim
  | proxy hs =>
    obtain ⟨hlink, -⟩ := hs.link hok
    obtain ⟨hweight, hhops⟩ := hs.weight hok 0
    simp only [Proxy.Path.link, Duplex.Link.mk.injEq] at hlink
    refine ⟨?_, hhops⟩
    simp only [Proxied.weight, hhops, hlink, Label.advance]
    omega

/-! ## Going on -/

theorem Pair.Step.of_client (h : Pair.Step timeout withTimeout p l t) (hl : ¬l.OfServer)
    (p' : Pair) (hclient : p'.client = p.client) (hbytes : p'.toClient = p.toClient) :
    ∃ t', Pair.Step timeout withTimeout p' l t' := by
  obtain ⟨client, server, toServer, toClient⟩ := p'
  obtain rfl : client = p.client := hclient
  obtain rfl : toClient = p.toClient := hbytes
  cases h with
  | send hop hnew hne hpiece => exact ⟨_, .send hop hnew hne hpiece⟩
  | recv hop hnew hne hle hread => exact ⟨_, .recv hop hnew hne hle hread⟩
  | complete hnew hwrite hread => exact ⟨_, .complete hnew hwrite hread⟩
  | handle hdone => exact ⟨_, .handle hdone⟩
  | server => exact absurd trivial hl

theorem Pair.Step.of_server (h : Pair.Step timeout withTimeout p l t) (hl : l.OfServer)
    (p' : Pair) (hserver : p'.server = p.server) (hbytes : p'.toServer = p.toServer) :
    ∃ t', Pair.Step timeout withTimeout p' l t' := by
  obtain ⟨client, server, toServer, toClient⟩ := p'
  obtain rfl : server = p.server := hserver
  obtain rfl : toServer = p.toServer := hbytes
  cases h with
  | server hs hopen hfail hread => exact ⟨_, .server hs hopen hfail hread⟩
  | send | recv | complete | handle => exact hl.elim

theorem Pair.Label.Advances.advance_eq (h : l.Advances) : (Proxied.Label.pair l).advance = 1 := by
  cases l with
  | server l => exact Echo.Server.Advances.advance_eq h
  | _ => rfl

theorem proxied_exists_step (hok : s.path.Ok) (hi : Flowing s.direct held) (hpos : 0 < timeout)
    (hpos' : 0 < timeout') :
    ∃ a s', Proxied.Step timeout withTimeout timeout' s a s' ∧ a.advance = 1 := by
  by_cases hgo : s.path.CanGo timeout'
  · obtain ⟨n, l, path, hs, ha⟩ := hgo
    exact ⟨_, _, .proxy hs, ha.advance_eq⟩
  · obtain ⟨hup, hdown⟩ := Proxy.Path.arrived hok hpos' hgo
    have hstep : ∃ l t, Pair.Step timeout withTimeout s.direct l t ∧ l.Advances :=
      hi.exists_step hpos
    obtain ⟨l, t, hs, ha⟩ := hstep
    by_cases hl : l.OfServer
    · obtain ⟨t', hs'⟩ := hs.of_server hl s.far rfl hup.symm
      exact ⟨_, _, .server hl hs', ha.advance_eq⟩
    · obtain ⟨t', hs'⟩ := hs.of_client hl s.near rfl hdown.symm
      exact ⟨_, _, .client hl hs', ha.advance_eq⟩

/-! ## The pace -/

theorem Proxied.Initial.weight (h0 : Proxied.Initial timeout withTimeout n s) :
    s.weight = 2 * n + 1 + perRound n ∧ s.path.hops = n ∧ s.client.rounds = 0 := by
  obtain ⟨hweight, hhops⟩ := h0.path.weight 0
  have hlink := h0.path.link_eq
  have hserver : Echo.Initial (Echo.Server.program timeout withTimeout) s.server := h0.pair.server
  have hop : s.client.op = .connect := h0.pair.op
  have hnew : s.client.completed = false := h0.pair.completed
  have hdue := Asio.due_nil hserver.ops
  have hnil := Asio.unwritten_nil hserver.ops
  simp only [Proxy.Path.link, Duplex.Link.mk.injEq] at hlink
  refine ⟨?_, hhops, h0.pair.rounds⟩
  simp [Proxied.weight, hhops, hlink, hweight, Peer.due, hop, hnew, Echo.Server.due,
    hserver.started, hserver.spawned, hdue, hnil, perRound]
  omega

/-! ## The results -/

/-- One proxy between a new client and a new server. -/
def remote : Proxied where
  client := ⟨[], [], .connect, 0, false, fun _ => 0, 0⟩
  path := .via ⟨[], []⟩ ⟨.outstanding, fun _ => true,
    fun _ => ⟨List.replicate Proxy.bufferSize 0, []⟩, fun _ => ⟨⟨0, []⟩, 0⟩, 0⟩ (.wire ⟨[], []⟩)
  server := ⟨false, true, ⟨List.replicate Echo.bufferSize 0, []⟩, ⟨0, []⟩, 0, [], 0⟩

theorem remote_initial : Proxied.Initial 5 false 1 remote where
  pair := ⟨rfl, rfl, rfl, rfl, ⟨rfl, rfl, List.length_replicate, rfl, rfl, rfl, rfl⟩, rfl, rfl⟩
  path := .via ⟨rfl, fun _ => rfl, fun _ => List.length_replicate, fun _ => rfl, fun _ => rfl⟩ .wire

/-- The client has written its message, of which the proxy has received five bytes and written
two. -/
theorem exec_remote : ∃ (ls : List Proxied.Label) (s : Proxied),
    Exec (proxied 5 false 5 1) ls s ∧ s.client.op = .read ∧ s.client.transferred = 0 ∧
      s.path.last.up = message.take 2 ∧ s.path.first.up = message.drop 5 ∧
        (ls.map Proxied.Label.advance).sum = 10 := by
  have hnow : (0 : Int) ≤ 0 := Int.le_refl 0
  have hmessage : message ≠ [] := by decide
  have hchunk : message.take 5 ≠ [] := by decide
  have hpiece : message.take 2 ≠ [] := by decide
  have hopen : ∀ x : Proxy.Side, (fun _ => true : Proxy.Side → Bool) x = true := fun _ => rfl
  have h0 : Exec (proxied 5 false 5 1) [] remote := .init remote_initial
  have h1 := h0.snoc (.client id (.complete rfl nofun nofun))
  have h2 := h1.snoc (.client id (.handle rfl))
  have h3 := h2.snoc (.client id (.send rfl rfl hmessage (List.prefix_refl _)))
  have h4 := h3.snoc (.client id (.complete rfl (fun _ => rfl) nofun))
  have h5 := h4.snoc (.client id (.handle rfl))
  have h6 := h5.snoc (.proxy (.here (.connect (e := none) rfl) ⟨hopen, by simp, by simp⟩ rfl rfl))
  have h7 := h6.snoc (.proxy (.here (.handleConnect rfl hnow hnow hnow hnow)
    ⟨hopen, by simp, by simp⟩ rfl rfl))
  have h8 := h7.snoc (.proxy (.here (.io (d := .client) (.deliver_head rfl rfl hchunk (by decide)))
    ⟨hopen, by simp, by simp⟩ rfl rfl))
  have h9 := h8.snoc (.proxy (.here (.handle (d := .client) (.head rfl) hnow)
    ⟨hopen, by simp, by simp⟩ rfl rfl))
  have h10 := h9.snoc (.proxy (.here (.io (d := .client) (.send_head rfl rfl hpiece
    ⟨(message.take 5).drop 2, rfl⟩)) ⟨hopen, by simp, by simp⟩ rfl rfl))
  exact ⟨_, _, h10, rfl, rfl, rfl, rfl, rfl⟩

/-- **A client cannot tell the proxies.** While no operation or connect fails, and no session of a
proxy or of the server is stopped or timed out, what the client and the server do, with any number
of proxies between them, is a run of the two alone, where all bytes of the path are between them.
So every read of the client finds the message in `recv_buffer_`; and what it has not read of the
message of the round is in the proxies, in the server or between them, in order. -/
theorem proxied_echo (h : Exec (proxied timeout withTimeout timeout' n) ls s) :
    Exec (pair timeout withTimeout) (ls.flatMap fun a => a.direct.toList) s.direct ∧
    (s.client.op = .read → s.client.completed = true →
      s.client.recvBuffer = s.client.sendBuffer) ∧
    s.client.counters .echoes = s.client.rounds ∧
    (s.client.op = .read → s.client.recvBuffer.take s.client.transferred ++
      (s.path.down ++ s.server.channel.unwritten ++ s.path.up) = s.client.sendBuffer) := by
  obtain ⟨held, hi⟩ := proxied_flowing h
  refine ⟨(proxied_refines h).1, fun hop hdone => (hi.flow.read_eq hop hdone).1, hi.count,
    fun hop => ?_⟩
  obtain ⟨hr, hpath⟩ := hi.flow.reading hop
  have hheld : s.server.channel.unwritten = held := hi.serving.unwritten_eq
  rw [hheld]
  exact hpath.trans hr.send.symm

theorem proxied_echo_remote : ∃ (ls : List Proxied.Label) (s : Proxied),
    Exec (proxied 5 false 5 1) ls s ∧ s.path.last.up = message.take 2 ∧
      s.path.first.up = message.drop 5 ∧ s.client.recvBuffer.take s.client.transferred ++
        (s.path.down ++ s.server.channel.unwritten ++ s.path.up) = s.client.sendBuffer := by
  obtain ⟨ls, s, h, hop, -, hlast, hfirst, -⟩ := exec_remote
  exact ⟨ls, s, h, hlast, hfirst, (proxied_echo h).2.2.2 hop⟩

/-- **The rounds go on.** While nothing fails, as in `proxied_echo`, a round through `n` proxies
costs at most `perRound n` steps, beside those of the timers; and some side or some proxy can always
go on. -/
theorem proxied_rounds (h : Exec (proxied timeout withTimeout timeout' n) ls s) :
    (ls.map Proxied.Label.advance).sum ≤ 2 * n + 1 + perRound n * (s.client.rounds + 1) ∧
      (0 < timeout → 0 < timeout' →
        ∃ a s', Proxied.Step timeout withTimeout timeout' s a s' ∧ a.advance = 1) := by
  obtain ⟨held, hi⟩ := proxied_flowing h
  refine ⟨?_, proxied_exists_step (proxied_refines h).2 hi⟩
  have hweight : s.path.hops = n ∧ (ls.map Proxied.Label.advance).sum + s.weight ≤
      2 * n + 1 + perRound n + perRound n * s.client.rounds := by
    refine h.trace_invariant (I := fun ls s => s.path.hops = n ∧
      (ls.map Proxied.Label.advance).sum + s.weight ≤
        2 * n + 1 + perRound n + perRound n * s.client.rounds)
      (fun s h0 => ?_) fun ls s a s' h ⟨hn, hi⟩ hs => ?_
    · obtain ⟨hweight, hhops, hrounds⟩ := Proxied.Initial.weight h0
      exact ⟨hhops, by simp [hweight, hrounds]⟩
    · obtain ⟨held, hflow⟩ := proxied_flowing h
      obtain ⟨hlt, hhops⟩ := Proxied.Step.weight hs (proxied_refines h).2 hflow
      refine ⟨hhops.trans hn, ?_⟩
      rw [hn] at hlt
      simp only [List.map_append, List.map_cons, List.map_nil, List.sum_append, List.sum_singleton]
      omega
  rw [Nat.mul_succ]
  omega

theorem proxied_rounds_remote : ∃ (ls : List Proxied.Label) (s : Proxied),
    Exec (proxied 5 false 5 1) ls s ∧ (ls.map Proxied.Label.advance).sum = 10 ∧
      10 ≤ 3 + perRound 1 * (s.client.rounds + 1) ∧
        ∃ a s', Proxied.Step 5 false 5 s a s' ∧ a.advance = 1 := by
  obtain ⟨ls, s, h, -, -, -, -, hsum⟩ := exec_remote
  obtain ⟨hle, hgo⟩ := proxied_rounds h
  exact ⟨ls, s, h, hsum, hsum ▸ hle, hgo (by decide) (by decide)⟩

end Load
