import Snippets.Proxy.Proof.Stopped
import Snippets.Proxy.Server

/-!
# The proxy server serves

The sessions of a server are a family of proxy sessions (`server_family`), so each of them relays
the bytes of its own client and target. The server accepts clients until an accept fails, and never
again. `io_context.run ()` then returns when nothing is outstanding in any session (`Idle`), and
where all sessions are over (`Over`) it does so after at most 20 steps for each. Together:
`server_serves`.
-/

namespace Proxy

open Lts Asio

variable {β : Type*} {timeout : Int} {s s' : Server β} {x x' : State β} {l : Label β}

/-! ## Sessions -/

/-- Nothing of the session is outstanding or queued. -/
def Idle (x : State β) : Prop :=
  (∃ error, x.connect = .handled error) ∧
    ∀ d, (x.channel d).ops = [] ∧ (x.watchdog d).timer.waits = []

/-- The session was stopped, or did not connect. -/
def Over (x : State β) : Prop := Closed x ∨ ∃ e, x.connect = .handled (some e)

theorem not_step_of_refused {ls : List (Label β)} (h : Exec (session β timeout) ls x) {e : Error}
    (hc : x.connect = .handled (some e)) : ¬Step timeout x l x' := by
  have hdown : x.connect ≠ .handled none := by
    rw [hc]
    exact nofun
  intro hs
  cases hs with
  | connect hc' | handleConnect hc' => rw [hc] at hc'; cases hc'
  | io hs => exact hdown ((session_stage h _).running_of_ne hs.ops_ne).1
  | handle ht => exact hdown ((session_stage h _).running_of_ne ht.ops_ne).1
  | expire ht => exact ht.waits_ne ((session_watched h _).idle hdown)
  | handleWait ht => exact ht.waits_ne ((session_watched h _).idle hdown)

/-- A session that is over stays so, and comes nearer to its end. -/
theorem Over.step (hover : Over x) {ls : List (Label β)} (h : Exec (session β timeout) ls x)
    (hs : Step timeout x l x') : Over x' ∧ x'.total + 1 ≤ x.total := by
  rcases hover with hc | ⟨e, hc⟩
  · refine ⟨.inl (hs.closed hc).1, ?_⟩
    exact hs.weight hc (closed_connected h hc) fun d => session_nonempty h d
  · exact absurd hs (not_step_of_refused h hc)

/-- A session with something outstanding can go on, however late. -/
theorem exists_step (timeout : Int) (hidle : ¬Idle x) {now : Int} (hclock : x.clock ≤ now) :
    ∃ l x', Step timeout x l x' ∧ ∀ t, l.reading = some t → now ≤ t := by
  have hnow := Int.le_refl now
  have hhead : ∀ t, some now = some t → now ≤ t := fun t ht => Int.le_of_eq (Option.some.inj ht)
  cases hc : x.connect with
  | outstanding => exact ⟨.connect none, _, .connect hc, nofun⟩
  | completed error =>
    exact ⟨.handleConnect error now now now now, _, .handleConnect hc hclock hnow hnow hnow, hhead⟩
  | handled error =>
    by_cases hops : ∀ d, (x.channel d).ops = []
    · have hwaits : ¬∀ d, (x.watchdog d).timer.waits = [] := fun hw =>
        hidle ⟨⟨error, hc⟩, fun d => ⟨hops d, hw d⟩⟩
      obtain ⟨d, hd⟩ := not_forall.1 hwaits
      match hw : (x.watchdog d).timer.waits with
      | [] => exact absurd hw hd
      | .outstanding :: ws =>
        refine ⟨.expire d (max now (x.watchdog d).timer.expiry), _, .expire (.head hw ?_) ?_, ?_⟩
        · exact Int.le_max_right ..
        · exact Int.le_trans hclock (Int.le_max_left ..)
        · rintro t ⟨⟩
          exact Int.le_max_left ..
      | .completed e :: ws =>
        exact ⟨.handleWait d e now, _, .handleWait (.head hw) hclock, hhead⟩
    · obtain ⟨d, hd⟩ := not_forall.1 hops
      match ho : (x.channel d).ops with
      | [] => exact absurd ho hd
      | ⟨io, sent, none⟩ :: ops =>
        exact ⟨.io d (.fail io .other), _, .io (.fail_head ho .other), nofun⟩
      | ⟨io, sent, some r⟩ :: ops =>
        exact ⟨.handle d io r now, _, .handle (.head ho) hclock, hhead⟩

theorem Idle.not_step (hidle : Idle x) : ¬Step timeout x l x' := by
  obtain ⟨⟨error, hc⟩, hnone⟩ := hidle
  intro hs
  cases hs with
  | connect hc' | handleConnect hc' => rw [hc] at hc'; cases hc'
  | io hs => exact hs.ops_ne (hnone _).1
  | handle ht => exact ht.ops_ne (hnone _).1
  | expire ht => exact ht.waits_ne (hnone _).2
  | handleWait ht => exact ht.waits_ne (hnone _).2

/-! ## The server -/

variable {ls : List (Server.Label β)} {l : Server.Label β}

/-- The sessions are a family of proxy sessions. -/
theorem server_family (h : Exec (server β timeout) ls s) :
    Exec (family (session β timeout)) (ls.flatMap Server.Label.event) s.sessions := by
  refine h.project (f := Server.sessions) (fun s h0 => ?_) fun s l s' hs => ?_
  · exact h0.2
  · cases hs with
    | accept | refuse => exact .nil _
    | make _ h0 => exact .single (.make h0)
    | session hx hs =>
      rw [hx]
      exact .single (.step hs)

theorem server_clock (h : Exec (server β timeout) ls s) : ∀ x ∈ s.sessions, x.clock ≤ s.clock := by
  refine h.invariant (I := fun s => ∀ x ∈ s.sessions, x.clock ≤ s.clock) (fun s h0 x hx => ?_)
    fun s l s' hi hs => ?_
  · rw [h0.2] at hx
    cases hx
  · cases hs with
    | accept | refuse => exact hi
    | make _ _ hclock =>
      intro x hx
      rcases List.mem_append.1 hx with hx | hx
      · exact hi x hx
      · rw [List.mem_singleton.1 hx]
        exact Int.le_of_eq hclock
    | session hxs hs =>
      intro x hx
      rcases List.mem_append.1 hx with hx | hx
      · exact Int.le_trans (hi x (by rw [hxs]; simp [hx])) (Int.le_max_left ..)
      · rcases List.mem_cons.1 hx with rfl | hx
        · exact Int.le_max_right ..
        · exact Int.le_trans (hi x (by rw [hxs]; simp [hx])) (Int.le_max_left ..)

/-- A client was accepted. -/
def Server.Label.makes : Server.Label β → Bool
  | .handleAccept none => true
  | _ => false

theorem server_makes (h : Exec (server β timeout) ls s) :
    s.sessions.length = ls.countP Server.Label.makes := by
  refine h.trace_invariant (I := fun ls s => s.sessions.length = ls.countP Server.Label.makes)
    (fun s h0 => ?_) fun ls s l s' _ hi hs => ?_
  · rw [h0.2]
    rfl
  · rw [List.countP_append, List.countP_singleton, ← hi]
    cases hs with
    | accept | refuse => rfl
    | make => exact List.length_append
    | session hx => rw [hx, List.length_append, List.length_append]; rfl

theorem server_accepts (h : Exec (server β timeout) ls s) :
    s.accept = .ended ↔ ∃ e, .handleAccept (some e) ∈ ls := by
  refine h.trace_invariant (I := fun ls s => s.accept = .ended ↔ ∃ e, .handleAccept (some e) ∈ ls)
    (fun s h0 => ?_) fun ls s l s' _ hi hs => ?_
  · rw [h0.1]
    simp
  · cases hs with
    | accept hout =>
      rw [hout] at hi
      simpa using hi
    | refuse => simp
    | make hout =>
      rw [hout] at hi
      simpa using hi
    | session => simpa using hi

theorem exec_own (h : Exec (server β timeout) ls s) {k : Nat} (hx : s.sessions[k]? = some x) :
    Exec (session β timeout) (own k ls) x :=
  Family.exec_member (server_family h) hx

theorem exists_exec (h : Exec (server β timeout) ls s) (hx : x ∈ s.sessions) :
    ∃ ls, Exec (session β timeout) ls x := by
  obtain ⟨k, hk⟩ := List.getElem?_of_mem hx
  exact ⟨_, exec_own h hk⟩

theorem exists_initial (β : Type*) [Inhabited β] (clock : Int) :
    ∃ sess : State β, Initial sess ∧ sess.clock = clock :=
  ⟨⟨.outstanding, fun _ => true, fun _ => ⟨List.replicate bufferSize default, []⟩,
    fun _ => ⟨⟨0, []⟩, 0⟩, clock⟩,
    ⟨rfl, fun _ => rfl, fun _ => List.length_replicate, fun _ => rfl, fun _ => rfl⟩, rfl⟩

/-- `io_context.run ()` returns when there is no work. -/
theorem stuck_iff [Inhabited β] (h : Exec (server β timeout) ls s) :
    (∀ l s', ¬Server.Step timeout s l s') ↔ s.accept = .ended ∧ ∀ x ∈ s.sessions, Idle x := by
  constructor
  · intro hstuck
    constructor
    · match ha : s.accept with
      | .outstanding => exact absurd (.accept ha) (hstuck (.accept (some .other)) _)
      | .completed (some e) => exact absurd (.refuse ha) (hstuck (.handleAccept (some e)) _)
      | .completed none =>
        obtain ⟨sess, h0, hclock⟩ := exists_initial β s.clock
        exact absurd (.make ha h0 hclock) (hstuck (.handleAccept none) _)
      | .ended => rfl
    · intro x hx
      by_contra hidle
      obtain ⟨l, x', hs, hnow⟩ := exists_step timeout hidle (server_clock h x hx)
      obtain ⟨l₁, l₂, hsplit⟩ := List.append_of_mem hx
      exact hstuck _ _ (.session hsplit hs hnow)
  · rintro ⟨ha, hidle⟩ l s' hs
    cases hs with
    | accept hout | refuse hout | make hout => rw [ha] at hout; cases hout
    | session hx hs => exact (hidle _ (by rw [hx]; simp)).not_step hs

/-- A server whose sessions are all over. -/
structure Ending (timeout : Int) (s : Server β) : Prop where
  accept : s.accept = .ended
  sessions : ∀ x ∈ s.sessions, (∃ ls, Exec (session β timeout) ls x) ∧ Over x

theorem Ending.step (hi : Ending timeout s) (hs : Server.Step timeout s l s') :
    Ending timeout s' ∧
      (s'.sessions.map State.total).sum + 1 ≤ (s.sessions.map State.total).sum := by
  cases hs with
  | accept hout | refuse hout | make hout => rw [hi.accept] at hout; cases hout
  | @session l₁ l₂ x x' l hx hs =>
    have hlt := Family.Step.sum_lt (m := State.total)
      (I := fun x => (∃ ls, Exec (session β timeout) ls x) ∧ Over x)
      (fun x l x' hx hs => ?_) (Family.Step.step (M := session β timeout) hs) (hx ▸ hi.sessions)
    · rw [hx]
      exact ⟨⟨hi.accept, hlt.1⟩, hlt.2⟩
    · obtain ⟨⟨ls, h⟩, hover⟩ := hx
      obtain ⟨hover', hle⟩ := hover.step h hs
      exact ⟨⟨⟨_, h.snoc hs⟩, hover'⟩, hle⟩

/-- **The proxy server serves.** It has made one session for each client that it accepted, and
accepts no more exactly when an accept has failed. The run of each session is a run of the proxy
session, which writes, in either direction, a prefix of the bytes that it received, at most
`bufferSize` behind. `io_context.run ()` returns exactly when an accept has failed and no session
has anything outstanding; where an accept has failed and all sessions are over, it does so after at
most 20 more steps for each session. -/
theorem server_serves [Inhabited β] (h : Exec (server β timeout) ls s) :
    s.sessions.length = ls.countP Server.Label.makes ∧
      (s.accept = .ended ↔ ∃ e, .handleAccept (some e) ∈ ls) ∧
      (∀ k x, s.sessions[k]? = some x → Exec (session β timeout) (own k ls) x ∧
        ∀ d, written d (own k ls) <+: received d (own k ls) ∧
          (received d (own k ls)).length ≤ (written d (own k ls)).length + bufferSize) ∧
      ((∀ l s', ¬Server.Step timeout s l s') ↔ s.accept = .ended ∧ ∀ x ∈ s.sessions, Idle x) ∧
      (s.accept = .ended → (∀ x ∈ s.sessions, Over x) → ∀ ls' s',
        Run (server β timeout) s ls' s' → ls'.length ≤ 20 * s.sessions.length) := by
  refine ⟨server_makes h, server_accepts h, fun k x hx => ⟨exec_own h hx, fun d => ?_⟩, stuck_iff h,
    fun ha hover ls' s' hrun => ?_⟩
  · obtain ⟨held, hrelay, -⟩ := session_relays (exec_own h hx) d
    have hpre := Relay.given_prefix hrelay
    have hlag := Relay.taken_length_le hrelay
    rw [given_events, taken_events] at hpre hlag
    exact ⟨hpre, hlag⟩
  · have hi : Ending timeout s := ⟨ha, fun x hx => ⟨exists_exec h hx, hover x hx⟩⟩
    have hlen := (hrun.length_le (I := Ending timeout)
      (m := fun s => (s.sessions.map State.total).sum) (fun s l s' hi hs => hi.step hs) hi).2
    have hsum : (s.sessions.map State.total).sum ≤ 20 * s.sessions.length := by
      apply sum_map_le
      intro x hx
      obtain ⟨ls, h⟩ := exists_exec h hx
      exact total_le h
    exact Nat.le_trans (Nat.le_of_add_right_le hlen) hsum

theorem first_session {l₂ : List (State β)} {l : Label β} (hx : s.sessions = x :: l₂)
    (hs : Proxy.Step timeout x l x') (hnow : ∀ now, l.reading = some now → s.clock ≤ now) :
    Server.Step timeout s (.session 0 l)
      { s with sessions := x' :: l₂, clock := max s.clock x'.clock } :=
  @Server.Step.session _ _ _ [] _ _ _ _ hx hs hnow

/-- The session of the first client relays a byte, then the client's stream ends and the next accept
fails. At most 20 steps are left; after four of them `run ()` returns. -/
theorem server_serves_relayed : ∃ (ls : List (Server.Label Nat)) (s s' : Server Nat)
    (x : State Nat),
    Exec (server Nat 5) ls s ∧ s.sessions = [x] ∧ Exec (session Nat 5) (own 0 ls) x ∧
      received .client (own 0 ls) = [7] ∧ written .client (own 0 ls) = [7] ∧ s.accept = .ended ∧
      (∀ ls' s', Run (server Nat 5) s ls' s' → ls'.length ≤ 20) ∧
      (∃ ls', Run (server Nat 5) s ls' s' ∧ ls'.length = 4) ∧ ∀ l s'', ¬Server.Step 5 s' l s'' := by
  have hnow : (0 : Int) ≤ 0 := Int.le_refl 0
  have hread : ∀ now, some 0 = some now → (0 : Int) ≤ now :=
    fun now h => Int.le_of_eq (Option.some.inj h)
  have hpiece : [7] ≠ [] := by decide
  have h0 : Exec (server Nat 5) [] ⟨.outstanding, [], 0⟩ := .init ⟨rfl, rfl⟩
  have h1 := h0.snoc (l := Server.Label.accept none) (.accept rfl)
  have h2 := h1.snoc (.make rfl start_initial rfl)
  have h3 := h2.snoc (first_session rfl (.connect (e := none) rfl) nofun)
  have h4 := h3.snoc (first_session rfl (.handleConnect rfl hnow hnow hnow hnow) hread)
  have h5 := h4.snoc (first_session rfl
    (.io (d := .client) (.deliver_head rfl rfl hpiece (by decide))) nofun)
  have h6 := h5.snoc (first_session rfl (.handle (d := .client) (.head rfl) hnow) hread)
  have h7 := h6.snoc (first_session rfl
    (.io (d := .client) (.send_head rfl rfl hpiece ⟨[], rfl⟩)) nofun)
  have h8 := h7.snoc (first_session rfl (.io (d := .client) (.finish_head rfl)) nofun)
  have h9 := h8.snoc (first_session rfl (.handle (d := .client) (.head rfl) hnow) hread)
  have h10 := h9.snoc (first_session rfl (.io (d := .client) (.fail_head rfl .eof)) nofun)
  have h11 := h10.snoc (first_session rfl (.handle (d := .client) (.head rfl) hnow) hread)
  have h12 := h11.snoc (l := Server.Label.accept (some .other)) (.accept rfl)
  have h13 := h12.snoc (.refuse rfl)
  -- `stop ()` has aborted the receive from the target and both waits
  have hnil : ∀ {ls s}, Exec (server Nat 5) ls s → Run (server Nat 5) s [] s := fun _ => .nil _
  have hr1 := (hnil h13).snoc
    (first_session rfl (.io (d := .server) (.fail_head rfl .aborted)) nofun)
  have hr2 := hr1.snoc (first_session rfl (.handle (d := .server) (.head rfl) hnow) hread)
  have hr3 := hr2.snoc (first_session rfl (.handleWait (d := .client) (.head rfl) hnow) hread)
  have hr4 := hr3.snoc (first_session rfl (.handleWait (d := .server) (.head rfl) hnow) hread)
  obtain ⟨-, -, hown, -, hends⟩ := server_serves h13
  refine ⟨_, _, _, _, h13, rfl, (hown 0 _ rfl).1, rfl, rfl, rfl, hends rfl fun x hx => ?_,
    ⟨_, hr4, rfl⟩, (server_serves (h13.append hr4)).2.2.2.1.2 ⟨rfl, fun x hx => ?_⟩⟩
  · rw [List.mem_singleton.1 hx]
    exact .inl fun d => by cases d <;> rfl
  · rw [List.mem_singleton.1 hx]
    exact ⟨⟨_, rfl⟩, fun d => by cases d <;> exact ⟨rfl, rfl⟩⟩

end Proxy
