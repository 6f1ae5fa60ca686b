import Snippets.Daytime.Tcp
import Mathlib.Data.List.Nodup

/-!
# The daytime service over TCP is safe

Whatever the network does, the server has one `async_accept`, outstanding or completed; a connection
is alive as long as it is being accepted or its write is not handled, and no longer. The sessions
that were started are a log (`Entry`) of which the invariant `Inv` says everything: the clients of
the log, the one that is being accepted and the backlog are those that connected, in order, and at
each entry what the client has printed and what is on the way to it is what was written of its
message (`Stage`). Together: `clients_served`.
-/

namespace Daytime.Tcp

open Lts Asio

variable {ι : Type*} [DecidableEq ι] {ctime : Int → List Char} {s s' : Service ι} {l : Label ι}
  {ls : List (Label ι)} {k : Nat} {message sent : List Char} {c : Connection}

/-! ## The functions of the server -/

theorem startAccept_eq (x : Server) : x.startAccept =
    ⟨x.made + 1, Function.update x.connection x.made ⟨1, ⟨[], []⟩⟩,
      x.accepts ++ [⟨x.made, none⟩]⟩ := by
  simp [Server.startAccept, Server.create, Server.acquire, Server.asyncAccept, Server.release,
    Server.set]

/-- The connection after the handler of its accept. -/
def Connection.accepted (c : Connection) (error : Option Error) (message : List Char) :
    Connection :=
  if error = none then ⟨c.owners, Channel.start ⟨message, c.channel.ops⟩ (.write message.length)⟩
  else ⟨c.owners - 1, c.channel⟩

/-- What the handler of the accept of `k`, the last connection, makes of the server `x`: `y`. -/
structure Accepted (x : Server) (k : Nat) (error : Option Error) (message : List Char)
    (y : Server) : Prop where
  made : y.made = k + 1 + 1
  accepts : y.accepts = [⟨k + 1, none⟩]
  next : y.connection (k + 1) = ⟨1, ⟨[], []⟩⟩
  self : y.connection k = (x.connection k).accepted error message
  other : ∀ j, j ≠ k → j ≠ k + 1 → y.connection j = x.connection j

/-- Of the pointers that the handler makes only that of the write is left. -/
theorem onAccept_spec {x : Server} (error : Option Error) (hmade : x.made = k + 1)
    (haccepts : x.accepts = []) :
    Accepted x k error message (x.onAccept error k message) := by
  obtain ⟨made, connection, accepts⟩ := x
  subst hmade haccepts
  unfold Server.onAccept Server.handleAccept
  constructor
  · split <;> simp [startAccept_eq, Server.start, Server.acquire, Server.release, Server.set]
  · split <;> simp [startAccept_eq, Server.start, Server.acquire, Server.release, Server.set]
  · split <;> simp [startAccept_eq, Server.start, Server.acquire, Server.release, Server.set]
  · unfold Connection.accepted
    split <;> simp [startAccept_eq, Server.start, Server.acquire, Server.release, Server.set]
  · intro j hk hnext
    split <;> simp [startAccept_eq, Server.start, Server.acquire, Server.release, Server.set, hk,
      hnext]

/-! ## The write of a connection -/

/-- The connection is written to, or its write has been handled: `sent` of `message` has been put,
and all of it unless the write failed. -/
inductive Stage (message : List Char) (failed : Prop) : Connection → List Char → Prop
  | writing {sent held : List Char} {r : Option Result} : message = sent ++ held →
      (∀ n, r = some (.ok n) → held = []) → (∀ e, r = some (.error e) → failed) →
      Stage message failed ⟨1, ⟨message, [⟨.write message.length, sent.length, r⟩]⟩⟩ sent
  | closed {sent held : List Char} : message = sent ++ held → held = [] ∨ failed →
      Stage message failed ⟨0, ⟨message, []⟩⟩ sent

section
variable {failed failed' : Prop}

theorem Stage.mono (h : Stage message failed c sent) (hf : failed → failed') :
    Stage message failed' c sent := by
  cases h with
  | writing hm hok herror => exact .writing hm hok fun e he => hf (herror e he)
  | closed hm hheld => exact .closed hm (hheld.imp_right hf)

theorem Stage.sent_prefix (h : Stage message failed c sent) : sent <+: message := by
  cases h with
  | writing hm | closed hm => exact ⟨_, hm.symm⟩

theorem Stage.accepted (message : List Char) :
    Stage message failed (Connection.accepted ⟨1, ⟨[], []⟩⟩ none message) [] :=
  .writing (List.nil_append _).symm nofun nofun

theorem Stage.step {e : Event Char} {channel : Channel Char} (h : Stage message failed c sent)
    (hs : c.channel.Step 0 c.isOpen c.isOpen e channel)
    (hfail : ∀ io error, e = .fail io error → failed') :
    Stage message failed' { c with channel := channel } (sent ++ Relay.given e.relay) := by
  cases h with
  | closed => exact absurd rfl hs.ops_ne
  | @writing _ held r hm hok herror =>
    cases hs with
    | deliver _ hops => cases (singleton_ops hops).2.2
    | @send _ _ _ _ piece _ hops _ hpiece =>
      obtain ⟨rfl, rfl, ho⟩ := singleton_ops hops
      cases ho
      rw [List.take_length, hm, List.drop_left] at hpiece
      obtain ⟨rest, rfl⟩ := hpiece
      have hgiven : Relay.given (Event.relay (.send piece)) = piece := List.append_nil piece
      have hstage : Stage message failed' ⟨1, ⟨message,
          [⟨.write message.length, (sent ++ piece).length, none⟩]⟩⟩ (sent ++ piece) :=
        .writing (hm.trans (List.append_assoc ..).symm) nofun nofun
      rw [hgiven]
      simpa using hstage
    | finish hops =>
      obtain ⟨rfl, rfl, ho⟩ := singleton_ops hops
      simp only [Op.mk.injEq, Io.write.injEq] at ho
      obtain ⟨rfl, hlen, rfl⟩ := ho
      have hheld : held = [] := by
        rw [hm, List.length_append] at hlen
        exact List.eq_nil_of_length_eq_zero (by omega)
      have hstage : Stage message failed' ⟨1, ⟨message,
          [⟨.write message.length, sent.length, some (.ok message.length)⟩]⟩⟩ sent :=
        .writing hm (fun _ _ => hheld) fun _ h => by cases h
      rw [← hlen] at hstage
      simpa [Event.relay, Relay.given] using hstage
    | @fail _ _ io n error hops =>
      obtain ⟨rfl, rfl, ho⟩ := singleton_ops hops
      cases ho
      have hstage : Stage message failed' ⟨1, ⟨message,
          [⟨.write message.length, sent.length, some (.error error)⟩]⟩⟩ sent :=
        .writing hm (fun _ h => by cases h) fun _ _ => hfail _ _ rfl
      simpa [Event.relay, Relay.given] using hstage

theorem Stage.takes {size : Nat} {r : Result} {channel : Channel Char}
    (h : Stage message failed c sent) (ht : c.channel.Takes (.write size) r channel) :
    Stage message failed ⟨c.owners - 1, channel⟩ sent := by
  cases h with
  | closed => exact absurd rfl ht.ops_ne
  | @writing _ held _ hm hok herror =>
    cases ht with
    | intro hops =>
      obtain ⟨rfl, rfl, ho⟩ := singleton_ops hops
      simp only [Op.mk.injEq] at ho
      obtain ⟨-, -, rfl⟩ := ho
      refine .closed hm ?_
      cases r with
      | ok n => exact .inl (hok n rfl)
      | error e => exact .inr (herror e rfl)

theorem Stage.ops_nil_iff (h : Stage message failed c sent) :
    c.channel.ops = [] ↔ c.owners = 0 := by
  cases h with
  | writing => simp
  | closed => simp

theorem Stage.closed_of_owners (h : Stage message failed c sent) (ho : c.owners = 0) :
    sent = message ∨ failed := by
  cases h with
  | writing => cases ho
  | closed hm hheld =>
    refine hheld.imp_left fun hnil => ?_
    rw [hm, hnil, List.append_nil]

end

/-! ## What has happened -/

section
omit [DecidableEq ι]

/-- The client that a step lets in. -/
def arrival : Label ι → List ι
  | .connect c none => [c]
  | _ => []

/-- The time at which a step starts a connection. -/
def start : Label ι → List Int
  | .handleAccept none now => [now]
  | _ => []

theorem arrivals_snoc (ls : List (Label ι)) (l : Label ι) :
    arrivals (ls ++ [l]) = arrivals ls ++ arrival l := by
  unfold arrivals
  rw [List.filterMap_append]
  cases l with
  | connect c error => cases error <;> rfl
  | _ => rfl

theorem served_snoc (ls : List (Label ι)) (l : Label ι) :
    served (ls ++ [l]) = served ls ++ start l := by
  unfold served
  rw [List.filterMap_append]
  cases l with
  | handleAccept error now => cases error <;> rfl
  | _ => rfl

theorem Failed.snoc (h : Failed ls k) (l : Label ι) : Failed (ls ++ [l]) k :=
  let ⟨io, e, hmem⟩ := h
  ⟨io, e, List.mem_append_left _ hmem⟩

end

/-! ## The invariant -/

/-- A session that was started. -/
structure Entry (ι : Type*) where
  conn : Nat
  client : ι
  time : Int

/-- The connection `k` is being accepted, `result` says how far, and the sessions of `log` have been
started. -/
structure Inv (ctime : Int → List Char) (ls : List (Label ι)) (s : Service ι) (k : Nat)
    (result : Option (Option Error)) (log : List (Entry ι)) : Prop where
  arrivals : arrivals ls = log.map Entry.client ++ (s.peer k).toList ++ s.backlog
  served : served ls = log.map Entry.time
  nodup : (Tcp.arrivals ls).Nodup
  connected : ∀ c ∈ Tcp.arrivals ls, s.client c ≠ .connecting
  thrown : ∀ c ∈ Tcp.arrivals ls, s.client c = .thrown → .throw c ∈ ls
  reading : ∀ c, s.client c = .reading → c ∈ Tcp.arrivals ls
  accepts : s.server.accepts = [⟨k, result⟩]
  made : s.server.made = k + 1
  accepting : s.server.connection k = ⟨1, ⟨[], []⟩⟩
  accepted : (s.peer k).isSome ↔ result = some none
  conns : (log.map Entry.conn).Nodup
  lt : ∀ e ∈ log, e.conn < k
  peer : ∀ e ∈ log, s.peer e.conn = some e.client
  idle : ∀ j, j ≠ k → (∀ e ∈ log, e.conn ≠ j) →
    s.peer j = none ∧ (s.server.connection j).owners = 0 ∧
      (s.server.connection j).channel.ops = []
  stage : ∀ e ∈ log, Stage (makeDaytimeString ctime e.time) (Failed ls e.conn)
    (s.server.connection e.conn) (s.output e.client ++ s.arriving e.client)
  waiting : ∀ c, (∀ e ∈ log, e.client ≠ c) → s.output c = [] ∧ s.arriving c = []
  ended : ∀ c, s.client c = .ended → ∃ e ∈ log, e.client = c ∧
    (s.server.connection e.conn).owners = 0 ∧ s.arriving c = []

section
omit [DecidableEq ι]
variable {log : List (Entry ι)} {result : Option (Option Error)} {e e' : Entry ι}

theorem Inv.clients_nodup (hi : Inv ctime ls s k result log) : (log.map Entry.client).Nodup := by
  have hnodup := hi.nodup
  rw [hi.arrivals, List.append_assoc] at hnodup
  exact (List.nodup_append.1 hnodup).1

theorem Inv.client_inj (hi : Inv ctime ls s k result log) (he : e ∈ log) (he' : e' ∈ log)
    (h : e.client = e'.client) : e = e' :=
  List.inj_on_of_nodup_map hi.clients_nodup he he' h

theorem Inv.conn_inj (hi : Inv ctime ls s k result log) (he : e ∈ log) (he' : e' ∈ log)
    (h : e.conn = e'.conn) : e = e' :=
  List.inj_on_of_nodup_map hi.conns he he' h

theorem Inv.entry_of_ops (hi : Inv ctime ls s k result log) {j : Nat}
    (h : (s.server.connection j).channel.ops ≠ []) : ∃ e ∈ log, e.conn = j := by
  by_contra hnone
  by_cases hj : j = k
  · rw [hj, hi.accepting] at h
    exact h rfl
  · exact h (hi.idle j hj fun e he hconn => hnone ⟨e, he, hconn⟩).2.2

theorem Inv.entry_of_peer (hi : Inv ctime ls s k result log) {j : Nat} {c : ι}
    (hj : s.peer j = some c) (hk : j ≠ k) : ∃ e ∈ log, e.conn = j ∧ e.client = c := by
  by_contra hnone
  have hidle := hi.idle j hk fun e he hconn => hnone ⟨e, he, hconn, by
    have hpeer := hi.peer e he
    rw [hconn, hj] at hpeer
    exact (Option.some.inj hpeer).symm⟩
  rw [hidle.1] at hj
  cases hj

theorem Inv.accepts_eq (hi : Inv ctime ls s k result log) {l₁ l₂ : List Accept} {a : Accept}
    (ha : s.server.accepts = l₁ ++ a :: l₂) : l₁ = [] ∧ l₂ = [] ∧ a = ⟨k, result⟩ := by
  rw [hi.accepts] at ha
  cases l₁ with
  | nil =>
    simp only [List.nil_append, List.cons.injEq] at ha
    exact ⟨rfl, ha.2.symm, ha.1.symm⟩
  | cons => simp at ha

theorem Inv.onAccept (hi : Inv ctime ls s k result log) (error : Option Error)
    (message : List Char) : Accepted s.server k error message
      ({ s.server with accepts := [] }.onAccept error k message) :=
  have hy : Accepted { s.server with accepts := [] } k error message _ :=
    onAccept_spec error hi.made rfl
  ⟨hy.made, hy.accepts, hy.next, hy.self, hy.other⟩

end

theorem Inv.init (h0 : (service ι ctime).init s) : Inv ctime [] s 0 none [] := by
  obtain ⟨hserver, hbacklog, hpeer, hclient, harriving, houtput⟩ := h0
  rw [startAccept_eq] at hserver
  constructor <;> simp_all [Tcp.arrivals, Tcp.served]

/-! ## Steps -/

section
variable {log : List (Entry ι)} {result : Option (Option Error)} {c : ι} {error : Error}

theorem Inv.connect (hi : Inv ctime ls s k result log) (hc : s.client c = .connecting) :
    Inv ctime (ls ++ [.connect c none])
      { s.setClient c .reading with backlog := s.backlog ++ [c] } k result log := by
  have hnew : c ∉ Tcp.arrivals ls := fun hmem => hi.connected c hmem hc
  have harrivals := arrivals_snoc ls (.connect c none)
  have hclient : ∀ c', c' ≠ c → Function.update s.client c .reading c' = s.client c' :=
    fun c' hne => Function.update_of_ne hne ..
  refine ⟨?_, ?_, ?_, fun c' hc' => ?_, fun c' hc' hthrown => ?_, fun c' hreading => ?_,
    hi.accepts, hi.made, hi.accepting, hi.accepted, hi.conns, hi.lt, hi.peer, hi.idle,
    fun e he => (hi.stage e he).mono (Failed.snoc · _), hi.waiting, fun c' hended => ?_⟩
  · rw [harrivals, hi.arrivals, List.append_assoc]
    rfl
  · rw [served_snoc, hi.served]
    exact List.append_nil _
  · rw [harrivals]
    exact List.nodup_append.2 ⟨hi.nodup, List.nodup_singleton c, fun a ha b hb =>
      fun hab => hnew (List.mem_singleton.1 hb ▸ hab ▸ ha)⟩
  · change Function.update s.client c .reading c' ≠ .connecting
    by_cases hne : c' = c
    · simp [hne]
    · rw [hclient c' hne]
      rw [harrivals] at hc'
      exact hi.connected c' ((List.mem_append.1 hc').resolve_right fun h =>
        hne (List.mem_singleton.1 h))
  · change Function.update s.client c .reading c' = .thrown at hthrown
    by_cases hne : c' = c
    · simp [hne] at hthrown
    · rw [hclient c' hne] at hthrown
      rw [harrivals] at hc'
      exact List.mem_append_left _ (hi.thrown c' ((List.mem_append.1 hc').resolve_right fun h =>
        hne (List.mem_singleton.1 h)) hthrown)
  · change Function.update s.client c .reading c' = .reading at hreading
    rw [harrivals]
    by_cases hne : c' = c
    · exact List.mem_append_right _ (List.mem_singleton.2 hne)
    · rw [hclient c' hne] at hreading
      exact List.mem_append_left _ (hi.reading c' hreading)
  · change Function.update s.client c .reading c' = .ended at hended
    by_cases hne : c' = c
    · simp [hne] at hended
    · rw [hclient c' hne] at hended
      exact hi.ended c' hended

theorem Inv.setClient (hi : Inv ctime ls s k result log) {x : Client} (harrival : arrival l = [])
    (hstart : start l = []) (hconnecting : x ≠ .connecting) (hreading : x ≠ .reading)
    (hthrown : x = .thrown → l = .throw c ∨ c ∉ Tcp.arrivals ls)
    (hended : x = .ended → ∃ e ∈ log, e.client = c ∧
      (s.server.connection e.conn).owners = 0 ∧ s.arriving c = []) :
    Inv ctime (ls ++ [l]) (s.setClient c x) k result log := by
  have harrivals : Tcp.arrivals (ls ++ [l]) = Tcp.arrivals ls := by
    rw [arrivals_snoc, harrival, List.append_nil]
  have hserved : Tcp.served (ls ++ [l]) = Tcp.served ls := by
    rw [served_snoc, hstart, List.append_nil]
  have hclient : ∀ c', c' ≠ c → (s.setClient c x).client c' = s.client c' :=
    fun c' hne => Function.update_of_ne hne ..
  have hself : (s.setClient c x).client c = x := Function.update_self ..
  refine ⟨harrivals ▸ hi.arrivals, hserved ▸ hi.served, harrivals ▸ hi.nodup, fun c' hc' => ?_,
    fun c' hc' h => ?_, fun c' h => ?_, hi.accepts, hi.made, hi.accepting, hi.accepted, hi.conns,
    hi.lt, hi.peer, hi.idle, fun e he => (hi.stage e he).mono (Failed.snoc · _), hi.waiting,
    fun c' h => ?_⟩
  · by_cases hne : c' = c
    · rwa [hne, hself]
    · rw [hclient c' hne]
      exact hi.connected c' (harrivals ▸ hc')
  · by_cases hne : c' = c
    · subst hne
      rcases hthrown (hself.symm.trans h) with rfl | hnot
      · exact List.mem_append_right _ (List.mem_singleton_self _)
      · exact absurd (harrivals ▸ hc') hnot
    · rw [hclient c' hne] at h
      exact List.mem_append_left _ (hi.thrown c' (harrivals ▸ hc') h)
  · by_cases hne : c' = c
    · subst hne
      exact absurd (hself.symm.trans h) hreading
    · rw [hclient c' hne] at h
      exact harrivals ▸ hi.reading c' h
  · by_cases hne : c' = c
    · subst hne
      exact hended (hself.symm.trans h)
    · rw [hclient c' hne] at h
      exact hi.ended c' h

end

section
omit [DecidableEq ι]
variable {log : List (Entry ι)} {result : Option (Option Error)} {c : ι} {error : Error}

theorem Inv.accept (hi : Inv ctime ls s k none log) {cs : List ι} (hb : s.backlog = c :: cs) :
    Inv ctime (ls ++ [.accept none]) { s with
      server := { s.server with accepts := [⟨k, some none⟩] }
      backlog := cs
      peer := Function.update s.peer k (some c) } k (some none) log := by
  have hnone : s.peer k = none := by
    have haccepted := hi.accepted
    simpa using haccepted
  have hself : Function.update s.peer k (some c) k = some c := Function.update_self ..
  have hother : ∀ j, j ≠ k → Function.update s.peer k (some c) j = s.peer j :=
    fun j hj => Function.update_of_ne hj ..
  have harrivals : Tcp.arrivals (ls ++ [.accept none]) = Tcp.arrivals ls := by
    rw [arrivals_snoc]
    exact List.append_nil _
  refine ⟨?_, ?_, harrivals ▸ hi.nodup, harrivals ▸ hi.connected,
    fun c' hc' h => List.mem_append_left _ (hi.thrown c' (harrivals ▸ hc') h),
    harrivals ▸ hi.reading, rfl, hi.made,
    hi.accepting, ?_, hi.conns, hi.lt, fun e he => ?_, fun j hj hlog => ?_,
    fun e he => (hi.stage e he).mono (Failed.snoc · _), hi.waiting, hi.ended⟩
  · rw [harrivals, hi.arrivals, hb, hnone]
    simp
  · rw [served_snoc, hi.served]
    exact List.append_nil _
  · simp
  · exact (hother e.conn (Nat.ne_of_lt (hi.lt e he))).trans (hi.peer e he)
  · obtain ⟨hpeer, hidle⟩ := hi.idle j hj hlog
    exact ⟨(hother j hj).trans hpeer, hidle⟩

theorem Inv.fail (hi : Inv ctime ls s k none log) (e : Error) :
    Inv ctime (ls ++ [.accept (some e)]) { s with
      server := { s.server with accepts := [⟨k, some (some e)⟩] } } k (some (some e)) log := by
  have harrivals : Tcp.arrivals (ls ++ [.accept (some e)]) = Tcp.arrivals ls := by
    rw [arrivals_snoc]
    exact List.append_nil _
  refine ⟨harrivals ▸ hi.arrivals, ?_, harrivals ▸ hi.nodup, harrivals ▸ hi.connected,
    fun c' hc' h => List.mem_append_left _ (hi.thrown c' (harrivals ▸ hc') h),
    harrivals ▸ hi.reading, rfl, hi.made,
    hi.accepting, ?_, hi.conns, hi.lt, hi.peer, hi.idle,
    fun e he => (hi.stage e he).mono (Failed.snoc · _), hi.waiting, hi.ended⟩
  · rw [served_snoc, hi.served]
    exact List.append_nil _
  · have haccepted := hi.accepted
    simpa using haccepted

/-- No client has been accepted into the connection that is made next. -/
theorem Inv.fresh (hi : Inv ctime ls s k result log) : s.peer (k + 1) = none :=
  (hi.idle (k + 1) (by omega) fun e he hconn => by have := hi.lt e he; omega).1

theorem Inv.start (hi : Inv ctime ls s k (some none) log) {now : Int} {y : Server}
    (hy : Accepted s.server k none (makeDaytimeString ctime now) y) (hc : s.peer k = some c) :
    Inv ctime (ls ++ [.handleAccept none now]) { s with server := y } (k + 1) none
      (log ++ [⟨k, c, now⟩]) := by
  have harrivals : Tcp.arrivals (ls ++ [.handleAccept none now]) = Tcp.arrivals ls := by
    rw [arrivals_snoc]
    exact List.append_nil _
  have hlog : ∀ e ∈ log, y.connection e.conn = s.server.connection e.conn := fun e he =>
    have hlt := hi.lt e he
    hy.other e.conn (by omega) (by omega)
  have hnew : ∀ e ∈ log, e.client ≠ c := by
    intro e he
    have hnodup := hi.nodup
    rw [hi.arrivals, hc, List.append_assoc] at hnodup
    exact (List.nodup_append.1 hnodup).2.2 e.client (List.mem_map_of_mem he) c (by simp)
  refine ⟨?_, ?_, harrivals ▸ hi.nodup, harrivals ▸ hi.connected,
    fun c' hc' h => List.mem_append_left _ (hi.thrown c' (harrivals ▸ hc') h),
    harrivals ▸ hi.reading, hy.accepts,
    hy.made, hy.next, ?_, ?_, ?_, ?_, ?_, ?_, ?_, ?_⟩
  · rw [harrivals, hi.arrivals, hc]
    change _ = (log ++ [(⟨k, c, now⟩ : Entry ι)]).map Entry.client ++ (s.peer (k + 1)).toList ++
      s.backlog
    rw [hi.fresh]
    simp
  · rw [served_snoc, hi.served]
    simp [Tcp.start]
  · simp [hi.fresh]
  · rw [List.map_append]
    refine List.nodup_append.2 ⟨hi.conns, List.nodup_singleton k, fun a ha b hb hab => ?_⟩
    obtain ⟨e, he, rfl⟩ := List.mem_map.1 ha
    have hlt := hi.lt e he
    rw [hab, List.mem_singleton.1 hb] at hlt
    exact absurd hlt (Nat.lt_irrefl _)
  · intro e he
    rcases List.mem_append.1 he with he | he
    · exact Nat.lt_succ_of_lt (hi.lt e he)
    · rw [List.mem_singleton.1 he]
      exact Nat.lt_succ_self k
  · intro e he
    rcases List.mem_append.1 he with he | he
    · exact hi.peer e he
    · rw [List.mem_singleton.1 he]
      exact hc
  · intro j hj hnot
    have hjk : j ≠ k := fun hjk => hnot ⟨k, c, now⟩ (by simp) hjk.symm
    obtain ⟨hpeer, hidle⟩ := hi.idle j hjk fun e he => hnot e (List.mem_append_left _ he)
    refine ⟨hpeer, ?_⟩
    change (y.connection j).owners = 0 ∧ (y.connection j).channel.ops = []
    rw [hy.other j hjk hj]
    exact hidle
  · intro e he
    change Stage _ _ (y.connection e.conn) (s.output e.client ++ s.arriving e.client)
    rcases List.mem_append.1 he with he | he
    · rw [hlog e he]
      exact (hi.stage e he).mono (Failed.snoc · _)
    · obtain ⟨hout, harr⟩ := hi.waiting c hnew
      rw [List.mem_singleton.1 he, hy.self, hi.accepting, hout, harr]
      exact .accepted _
  · intro c' hnot
    exact hi.waiting c' fun e he => hnot e (List.mem_append_left _ he)
  · intro c' hended
    obtain ⟨e, he, hec, howners, harr⟩ := hi.ended c' hended
    refine ⟨e, List.mem_append_left _ he, hec, ?_, harr⟩
    change (y.connection e.conn).owners = 0
    rw [hlog e he]
    exact howners

theorem Inv.refused (hi : Inv ctime ls s k (some (some error)) log) {now : Int} {y : Server}
    (hy : Accepted s.server k (some error) (makeDaytimeString ctime now) y) :
    Inv ctime (ls ++ [.handleAccept (some error) now]) { s with server := y } (k + 1) none
      log := by
  have harrivals : Tcp.arrivals (ls ++ [.handleAccept (some error) now]) = Tcp.arrivals ls := by
    rw [arrivals_snoc]
    exact List.append_nil _
  have hlog : ∀ e ∈ log, y.connection e.conn = s.server.connection e.conn := fun e he =>
    have hlt := hi.lt e he
    hy.other e.conn (by omega) (by omega)
  have hnone : s.peer k = none := by
    have haccepted := hi.accepted
    simpa using haccepted
  refine ⟨?_, ?_, harrivals ▸ hi.nodup, harrivals ▸ hi.connected,
    fun c' hc' h => List.mem_append_left _ (hi.thrown c' (harrivals ▸ hc') h),
    harrivals ▸ hi.reading, hy.accepts,
    hy.made, hy.next, ?_, hi.conns, fun e he => Nat.lt_succ_of_lt (hi.lt e he), hi.peer, ?_, ?_,
    hi.waiting, ?_⟩
  · rw [harrivals, hi.arrivals, hnone]
    change _ = log.map Entry.client ++ (s.peer (k + 1)).toList ++ s.backlog
    rw [hi.fresh]
  · rw [served_snoc, hi.served]
    exact List.append_nil _
  · simp [hi.fresh]
  · intro j hj hnot
    change _ ∧ (y.connection j).owners = 0 ∧ (y.connection j).channel.ops = []
    by_cases hjk : j = k
    · subst hjk
      rw [hy.self, hi.accepting]
      exact ⟨hnone, rfl, rfl⟩
    · obtain ⟨hpeer, hidle⟩ := hi.idle j hjk hnot
      rw [hy.other j hjk hj]
      exact ⟨hpeer, hidle⟩
  · intro e he
    change Stage _ _ (y.connection e.conn) (s.output e.client ++ s.arriving e.client)
    rw [hlog e he]
    exact (hi.stage e he).mono (Failed.snoc · _)
  · intro c' hended
    obtain ⟨e, he, hec, howners, harr⟩ := hi.ended c' hended
    refine ⟨e, he, hec, ?_, harr⟩
    change (y.connection e.conn).owners = 0
    rw [hlog e he]
    exact howners

theorem Inv.entry (hi : Inv ctime ls s k result log) {x : Entry ι} (hx : x ∈ log)
    (harrival : arrival l = []) (hstart : Tcp.start l = [])
    (haccepts : s'.server.accepts = s.server.accepts) (hmade : s'.server.made = s.server.made)
    (hbacklog : s'.backlog = s.backlog) (hpeer : s'.peer = s.peer) (hclient : s'.client = s.client)
    (hconn : ∀ j, j ≠ x.conn → s'.server.connection j = s.server.connection j)
    (hlink : ∀ c, c ≠ x.client → s'.output c = s.output c ∧ s'.arriving c = s.arriving c)
    (hstage : Stage (makeDaytimeString ctime x.time) (Failed (ls ++ [l]) x.conn)
      (s'.server.connection x.conn) (s'.output x.client ++ s'.arriving x.client))
    (hended : s.client x.client = .ended → (s.server.connection x.conn).owners = 0 →
      (s'.server.connection x.conn).owners = 0 ∧
        (s.arriving x.client = [] → s'.arriving x.client = [])) :
    Inv ctime (ls ++ [l]) s' k result log := by
  have harrivals : Tcp.arrivals (ls ++ [l]) = Tcp.arrivals ls := by
    rw [arrivals_snoc, harrival, List.append_nil]
  have hlt := hi.lt x hx
  refine ⟨?_, ?_, harrivals ▸ hi.nodup, ?_, fun c' hc' h => ?_, ?_, haccepts ▸ hi.accepts,
    hmade ▸ hi.made, ?_, hpeer ▸ hi.accepted, hi.conns, hi.lt, hpeer ▸ hi.peer,
    fun j hj hnot => ?_, fun e he => ?_, fun c' hnot => ?_, fun c' h => ?_⟩
  · rw [harrivals, hpeer, hbacklog]
    exact hi.arrivals
  · rw [served_snoc, hstart, List.append_nil]
    exact hi.served
  · rw [harrivals, hclient]
    exact hi.connected
  · rw [hclient] at h
    exact List.mem_append_left _ (hi.thrown c' (harrivals ▸ hc') h)
  · rw [harrivals, hclient]
    exact hi.reading
  · rw [hconn k (by omega)]
    exact hi.accepting
  · rw [hpeer, hconn j fun h => hnot x hx h.symm]
    exact hi.idle j hj hnot
  · by_cases hex : e = x
    · rwa [hex]
    · obtain ⟨hout, harr⟩ := hlink e.client fun h => hex (hi.client_inj he hx h)
      rw [hout, harr, hconn e.conn fun h => hex (hi.conn_inj he hx h)]
      exact (hi.stage e he).mono (Failed.snoc · _)
  · obtain ⟨hout, harr⟩ := hlink c' fun h => hnot x hx h.symm
    rw [hout, harr]
    exact hi.waiting c' hnot
  · rw [hclient] at h
    obtain ⟨e, he, hec, howners, harr⟩ := hi.ended c' h
    refine ⟨e, he, hec, ?_⟩
    by_cases hex : e = x
    · subst hex hec
      obtain ⟨howners', harr'⟩ := hended h howners
      exact ⟨howners', harr' harr⟩
    · rw [hconn e.conn fun h => hex (hi.conn_inj he hx h),
        (hlink c' fun h => hex (hi.client_inj he hx (hec.trans h))).2]
      exact ⟨howners, harr⟩

theorem Inv.handleWrite (hi : Inv ctime ls s k result log) {j size : Nat} {r : Result}
    {channel : Channel Char}
    (ht : (s.server.connection j).channel.Takes (.write size) r channel) :
    Inv ctime (ls ++ [.handleWrite j r]) { s with server := s.server.onWrite j channel } k result
      log := by
  obtain ⟨x, hx, rfl⟩ := hi.entry_of_ops ht.ops_ne
  have hself : (s.server.onWrite x.conn channel).connection x.conn =
      ⟨(s.server.connection x.conn).owners - 1, channel⟩ := by
    simp [Server.onWrite, Server.release, Server.set]
  refine hi.entry hx rfl rfl rfl rfl rfl rfl rfl (fun j hj => ?_) (fun _ _ => ⟨rfl, rfl⟩) ?_
    fun _ howners => ⟨?_, id⟩
  · simp [Server.onWrite, Server.release, Server.set, hj]
  · change Stage _ _ ((s.server.onWrite x.conn channel).connection x.conn) _
    rw [hself]
    exact ((hi.stage x hx).takes ht).mono (Failed.snoc · _)
  · change ((s.server.onWrite x.conn channel).connection x.conn).owners = 0
    rw [hself, howners]

end

section
variable {log : List (Entry ι)} {result : Option (Option Error)} {c : ι}

theorem Inv.write (hi : Inv ctime ls s k result log) {j : Nat} {e : Event Char}
    {channel : Channel Char}
    (hs : (s.server.connection j).channel.Step 0 (s.server.connection j).isOpen
      (s.server.connection j).isOpen e channel) :
    Inv ctime (ls ++ [.write j e]) { s with
      server := s.server.set j { s.server.connection j with channel := channel }
      arriving := s.deliver j e } k result log := by
  obtain ⟨x, hx, rfl⟩ := hi.entry_of_ops hs.ops_ne
  have hdeliver : s.deliver x.conn e =
      Function.update s.arriving x.client (s.arriving x.client ++ Relay.given e.relay) := by
    rw [Service.deliver, hi.peer x hx]
  rw [hdeliver]
  refine hi.entry hx rfl rfl rfl rfl rfl rfl rfl (fun j hj => Function.update_of_ne hj ..)
    (fun c hc => ⟨rfl, Function.update_of_ne hc ..⟩) ?_ fun _ howners => ?_
  · change Stage _ _ (Function.update s.server.connection x.conn _ x.conn)
      (s.output x.client ++ Function.update s.arriving x.client _ x.client)
    rw [Function.update_self, Function.update_self, ← List.append_assoc]
    refine (hi.stage x hx).step hs fun io error he => ⟨io, error, ?_⟩
    rw [he]
    exact List.mem_append_right _ (List.mem_singleton_self _)
  · exact absurd ((hi.stage x hx).ops_nil_iff.2 howners) hs.ops_ne

theorem Inv.read (hi : Inv ctime ls s k result log) {chunk rest : List Char}
    (hne : chunk ≠ []) (harr : s.arriving c = chunk ++ rest) (hc : s.client c = .reading) :
    Inv ctime (ls ++ [.read c chunk]) { s with
      arriving := Function.update s.arriving c rest
      output := Function.update s.output c (s.output c ++ chunk) } k result log := by
  have hin : ∃ x ∈ log, x.client = c := by
    by_contra hnone
    have hnil := (hi.waiting c fun e he hec => hnone ⟨e, he, hec⟩).2
    rw [harr] at hnil
    exact hne (List.append_eq_nil_iff.1 hnil).1
  obtain ⟨x, hx, rfl⟩ := hin
  refine hi.entry hx rfl rfl rfl rfl rfl rfl rfl (fun _ _ => rfl)
    (fun c' hc' => ⟨Function.update_of_ne hc' .., Function.update_of_ne hc' ..⟩) ?_ fun hended => ?_
  · change Stage _ _ _ (Function.update s.output x.client _ x.client ++
      Function.update s.arriving x.client _ x.client)
    rw [Function.update_self, Function.update_self, List.append_assoc, ← harr]
    exact (hi.stage x hx).mono (Failed.snoc · _)
  · rw [hc] at hended
    cases hended

theorem Inv.eof (hi : Inv ctime ls s k result log) {j : Nat} (harr : s.arriving c = [])
    (hpeer : s.peer j = some c) (hclosed : (s.server.connection j).isOpen = false) :
    Inv ctime (ls ++ [.eof c]) (s.setClient c .ended) k result log := by
  have hj : j ≠ k := by
    intro hj
    rw [hj, hi.accepting] at hclosed
    cases hclosed
  obtain ⟨x, hx, rfl, hxc⟩ := hi.entry_of_peer hpeer hj
  refine hi.setClient rfl rfl nofun nofun nofun fun _ => ⟨x, hx, hxc, ?_, harr⟩
  simpa [Connection.isOpen] using hclosed

/-- **Every step keeps the invariant.** -/
theorem Inv.step (hi : Inv ctime ls s k result log) (h : Step ctime s l s') :
    ∃ k' result' log', Inv ctime (ls ++ [l]) s' k' result' log' := by
  cases h with
  | connect hc => exact ⟨_, _, _, hi.connect hc⟩
  | @refuse c e hc =>
    exact ⟨_, _, _, hi.setClient (l := Label.connect c (some e)) rfl rfl nofun nofun
      (fun _ => .inr fun hmem => hi.connected c hmem hc) nofun⟩
  | accept ha hb =>
    obtain ⟨rfl, rfl, heq⟩ := hi.accepts_eq ha
    cases heq
    exact ⟨_, _, _, hi.accept hb⟩
  | @fail _ _ _ e ha =>
    obtain ⟨rfl, rfl, heq⟩ := hi.accepts_eq ha
    cases heq
    exact ⟨_, _, _, hi.fail e⟩
  | @handleAccept l₁ l₂ j error now ha =>
    obtain ⟨rfl, rfl, heq⟩ := hi.accepts_eq ha
    cases heq
    have hy := hi.onAccept error (makeDaytimeString ctime now)
    cases error with
    | none =>
      obtain ⟨c, hc⟩ := Option.isSome_iff_exists.1 (hi.accepted.2 rfl)
      exact ⟨_, _, _, hi.start hy hc⟩
    | some e => exact ⟨_, _, _, hi.refused hy⟩
  | write hs => exact ⟨_, _, _, hi.write hs⟩
  | handleWrite ht => exact ⟨_, _, _, hi.handleWrite ht⟩
  | read hc hne _ harr => exact ⟨_, _, _, hi.read hne harr hc⟩
  | eof _ harr hpeer hclosed => exact ⟨_, _, _, hi.eof harr hpeer hclosed⟩
  | throw hc => exact ⟨_, _, _, hi.setClient rfl rfl nofun nofun (fun _ => .inl rfl) nofun⟩

theorem service_inv (h : Exec (service ι ctime) ls s) :
    ∃ k result log, Inv ctime ls s k result log := by
  refine h.trace_invariant (I := fun ls s => ∃ k result log, Inv ctime ls s k result log)
    (fun s h0 => ⟨0, none, [], .init h0⟩) fun ls s l s' _ hi hs => ?_
  obtain ⟨k, result, log, hi⟩ := hi
  exact hi.step hs

/-! ## The result -/

omit [DecidableEq ι] in
/-- The session of a client, by its place among the arrivals. -/
theorem Inv.entry_of_place (hi : Inv ctime ls s k result log) {i : Nat}
    (hc : (Tcp.arrivals ls)[i]? = some c) :
    (∃ e, log[i]? = some e ∧ e ∈ log ∧ e.client = c ∧ (Tcp.served ls)[i]? = some e.time) ∨
      ((Tcp.served ls)[i]? = none ∧ ∀ e ∈ log, e.client ≠ c) := by
  have hserved := hi.served
  have harrivals := hi.arrivals
  rw [List.append_assoc] at harrivals
  cases hlog : log[i]? with
  | some e =>
    obtain ⟨hlt, -⟩ := List.getElem?_eq_some_iff.1 hlog
    refine .inl ⟨e, rfl, List.mem_of_getElem? hlog, ?_, ?_⟩
    · rw [harrivals, List.getElem?_append_left (by simpa using hlt), List.getElem?_map, hlog] at hc
      exact Option.some.inj hc
    · rw [hserved, List.getElem?_map, hlog]
      rfl
  | none =>
    refine .inr ⟨?_, fun e he hec => ?_⟩
    · rw [hserved, List.getElem?_map, hlog]
      rfl
    · have hnodup := hi.nodup
      rw [harrivals] at hnodup hc
      rw [List.getElem?_append_right (by simpa using hlog)] at hc
      exact (List.nodup_append.1 hnodup).2.2 e.client (List.mem_map_of_mem he) c
        (List.mem_of_getElem? hc) hec

omit [DecidableEq ι] in
/-- A connection is alive as long as it is being accepted or its write is not handled. -/
theorem Inv.owners (hi : Inv ctime ls s k result log) (j : Nat) :
    (s.server.connection j).owners ≤ 1 ∧ (0 < (s.server.connection j).owners ↔
      j = k ∨ (s.server.connection j).channel.ops ≠ []) := by
  by_cases hj : j = k
  · simp [hj, hi.accepting]
  by_cases hlog : ∃ e ∈ log, e.conn = j
  · obtain ⟨e, he, rfl⟩ := hlog
    have hstage := hi.stage e he
    generalize s.server.connection e.conn = c at hstage ⊢
    cases hstage <;> simp [hj]
  · obtain ⟨-, howners, hops⟩ := hi.idle j hj fun e he hconn => hlog ⟨e, he, hconn⟩
    simp [hj, howners, hops]

/-- **The daytime service over TCP is safe.** In every run, whatever fails: the server has one
`async_accept`, and of the connections exactly those are alive, with one owner, that are being
accepted or whose write has not been handled. Clients are served in the order in which they
connected: what the `i`-th has printed is a prefix of the daytime string of the time at which the
`i`-th session was started, and all of it if the client has come to the end, unless the write to it
failed. -/
theorem clients_served (h : Exec (service ι ctime) ls s) :
    (∃ k r, s.server.accepts = [⟨k, r⟩] ∧ ∀ j, (s.server.connection j).owners ≤ 1 ∧
      (0 < (s.server.connection j).owners ↔
        j = k ∨ (s.server.connection j).channel.ops ≠ [])) ∧
    ∀ (i : Nat) c, (arrivals ls)[i]? = some c →
      ((served ls)[i]? = none → s.output c = []) ∧
      (∀ t, (served ls)[i]? = some t → s.output c <+: makeDaytimeString ctime t) ∧
      (s.client c = .ended → ∃ t, (served ls)[i]? = some t ∧
        (s.output c = makeDaytimeString ctime t ∨ ∃ j, s.peer j = some c ∧ Failed ls j)) := by
  obtain ⟨k, result, log, hi⟩ := service_inv h
  refine ⟨⟨k, result, hi.accepts, hi.owners⟩, fun i c hc => ?_⟩
  rcases hi.entry_of_place hc with ⟨e, -, he, rfl, htime⟩ | ⟨hnone, hnot⟩
  · have hstage := hi.stage e he
    refine ⟨fun hnone => ?_, fun t ht => ?_, fun hended => ⟨e.time, htime, ?_⟩⟩
    · rw [htime] at hnone
      cases hnone
    · rw [htime] at ht
      cases ht
      exact (List.prefix_append ..).trans hstage.sent_prefix
    · obtain ⟨e', he', hec, howners, harr⟩ := hi.ended _ hended
      obtain rfl := hi.client_inj he' he hec
      rw [harr, List.append_nil] at hstage
      exact (hstage.closed_of_owners howners).imp_right fun hfailed => ⟨_, hi.peer _ he, hfailed⟩
  · refine ⟨fun _ => (hi.waiting c hnot).1, fun t ht => ?_, fun hended => ?_⟩
    · rw [hnone] at ht
      cases ht
    · obtain ⟨e, he, hec, -⟩ := hi.ended c hended
      exact absurd hec (hnot e he)

/-- The server before its first client. -/
def fresh : Service Bool where
  server := Server.startAccept ⟨0, fun _ => ⟨0, ⟨[], []⟩⟩, []⟩
  backlog := []
  peer _ := none
  client _ := .connecting
  arriving _ := []
  output _ := []

/-- Two clients connect; the first one has read all of its string, and the accept of the second one
fails once. -/
theorem clients_served_two : ∃ (ls : List (Label Bool)) (s : Service Bool),
    Exec (service Bool fun _ => ['x', 'y']) ls s ∧ arrivals ls = [true, false] ∧
      served ls = [7] ∧ s.client true = .ended ∧ s.output true = ['x', 'y'] ∧
      s.output false = [] := by
  have h0 : Exec (service Bool fun _ => ['x', 'y']) [] fresh :=
    .init ⟨rfl, rfl, fun _ => rfl, fun _ => rfl, fun _ => rfl, fun _ => rfl⟩
  have h1 := h0.snoc (.connect (c := true) rfl)
  have h2 := h1.snoc (.connect (c := false) rfl)
  have h3 := h2.snoc (.accept_head rfl rfl)
  have h4 := h3.snoc (.handleAccept_head rfl 7)
  have hpiece : ['x', 'y'] ≠ [] := nofun
  have h5 := h4.snoc (.write (k := 0) (.send_head rfl rfl hpiece ⟨[], rfl⟩))
  have h6 := h5.snoc (.fail_head rfl .other)
  have h7 := h6.snoc (.write (k := 0) (.finish_head rfl))
  have h8 := h7.snoc (.handleWrite (k := 0) (.head rfl))
  have h9 := h8.snoc (.read (c := true) rfl hpiece (by decide) rfl)
  have h10 := h9.snoc (.eof (c := true) (k := 0) rfl rfl rfl rfl)
  obtain ⟨-, hserved⟩ := clients_served h10
  obtain ⟨t, -, hout⟩ := (hserved 0 true rfl).2.2 rfl
  have hfalse := (hserved 1 false rfl).1 rfl
  refine ⟨_, _, h10, rfl, rfl, rfl, hout.resolve_right ?_, hfalse⟩
  rintro ⟨j, -, io, e, hmem⟩
  simp at hmem

end

end Daytime.Tcp
