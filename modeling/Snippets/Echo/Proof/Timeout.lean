import Snippets.Echo.Proof.Faithful

/-!
# Timeouts of the callback session

When a timer handler of `server.cc` stops a session, its operation should have been started at least
`timeout` before (`Punctual`). A watchdog compares the clock with `deadline_` when it is handled, so
it is always punctual. A timeout trusts the completion of its wait: `cancel ()` and a new expiry do
not take back one that is queued, which then stops the next operation. The session is punctual
exactly as long as no handler goes on to the next operation while such a completion is queued
(`punctual_iff`).
-/

namespace Echo.Server

open Lts Asio

variable {β : Type*} [Inhabited β] {timeout : Int} {withTimeout : Bool} {s s' : State β}
  {l : Label β} {ls : List (Label β)} {t now : Int}

/-! ## The property and the condition -/

/-- The step starts an operation; the clock reading is the one after it. -/
def startedAt : Label β → Option Int
  | .start now₁ _ => some now₁
  | .handle _ (.ok _) _ now => some now
  | _ => none

/-- If a timer handler is the first to stop the session, an operation is outstanding or not handled
yet, and it was started at least `timeout` ago. -/
def Punctual (timeout : Int) (withTimeout : Bool) (ls : List (Label β)) (s : State β) : Prop :=
  ∀ now s', s.isOpen = true → Step (program timeout withTimeout) s (.handleWait none now) s' →
    s'.isOpen = false →
      (∃ o, s.channel.ops = [o]) ∧ ∃ t, latest startedAt ls = some t ∧ t + timeout ≤ now

/-- No handler goes on to the next operation of an open session while a wait that ended with success
is queued, with timeouts. -/
def NoneQueued (withTimeout : Bool) (s : State β) (l : Label β) : Prop :=
  withTimeout = true → s.isOpen = true → (∃ io n data now, l = .handle io (.ok n) data now) →
    .completed none ∉ s.timer.waits

/-! ## What the handlers do -/

omit [Inhabited β] in
theorem mem_cancel {timer : Timer} : .completed none ∈ timer.cancel.waits ↔
    .completed none ∈ timer.waits := by
  simp only [Timer.cancel, List.mem_map]
  constructor
  · rintro ⟨w, hw, ha⟩
    cases w with
    | outstanding => cases ha
    | completed e => exact ha ▸ hw
  · exact fun hw => ⟨_, hw, rfl⟩

theorem handle_ok_withTimeout (timeout now : Int) (io : Io) (n : Nat) (s : State β) :
    ∃ c o, c.ops = s.channel.ops ++ [o] ∧ ((program timeout true).handle io (.ok n)).run now s =
      { s with
        channel := c
        timer := (s.timer.cancel.expiresAt (now + timeout)).asyncWait } := by
  cases io <;> exact ⟨_, _, rfl, rfl⟩

theorem handle_ok_withWatchdog (timeout now : Int) (io : Io) (n : Nat) (s : State β) :
    ∃ c o, c.ops = s.channel.ops ++ [o] ∧ ((program timeout false).handle io (.ok n)).run now s =
      { s with channel := c, deadline := now + timeout } := by
  cases io <;> exact ⟨_, _, rfl, rfl⟩

theorem handle_error_isOpen (io : Io) (e : Error) (s : State β) :
    (((program timeout withTimeout).handle io (.error e)).run now s).isOpen = false := by
  cases withTimeout <;> cases io <;> rfl

theorem startWatchdog_run (s : State β) : startWatchdog.run now s =
    if now ≥ s.deadline then { s with isOpen := false, timer := s.timer.cancel }
    else { s with timer := (s.timer.expiresAt s.deadline).asyncWait } := by
  simp only [startWatchdog, Code.run]
  split <;> rfl

/-! ## The invariant -/

/-- The timer of a session whose latest operation was started at `t`. -/
structure Aimed (timeout : Int) (withTimeout : Bool) (s : State β) (t : Int) : Prop where
  since : t ≤ s.clock
  deadline : withTimeout = false → s.deadline = t + timeout
  outstanding : withTimeout = true → .outstanding ∈ s.timer.waits → s.timer.expiry = t + timeout
  queued : withTimeout = true → .completed none ∈ s.timer.waits → t + timeout ≤ s.clock

/-- `open`: an open session has one operation, and its timer is aimed at it. -/
structure Timed (timeout : Int) (withTimeout : Bool) (ls : List (Label β)) (s : State β) :
    Prop where
  idle : s.started = false → s.channel.ops = [] ∧ s.timer.waits = []
  running : s.started = true → s.isOpen = true → (∃ o, s.channel.ops = [o]) ∧
    ∃ t, latest startedAt ls = some t ∧ Aimed timeout withTimeout s t

omit [Inhabited β] in
/-- Waits that are dispatched or aborted, or that expired, are aimed as before. -/
theorem Aimed.timer {timer : Timer} (ha : Aimed timeout withTimeout s t)
    (hexpiry : timer.expiry = s.timer.expiry)
    (hout : .outstanding ∈ timer.waits → .outstanding ∈ s.timer.waits)
    (hqueued : .completed none ∈ timer.waits →
      .completed none ∈ s.timer.waits ∨ (.outstanding ∈ s.timer.waits ∧ s.timer.expiry ≤ now))
    (hclock : s.clock ≤ now) :
    Aimed timeout withTimeout { s with timer := timer, clock := now } t := by
  refine ⟨Int.le_trans ha.since hclock, ha.deadline, fun hw ho => ?_, fun hw hq => ?_⟩
  · exact hexpiry.trans (ha.outstanding hw (hout ho))
  · change t + timeout ≤ now
    rcases hqueued hq with hq | ⟨ho, hnow⟩
    · have := ha.queued hw hq
      omega
    · have := ha.outstanding hw ho
      omega

omit [Inhabited β] in
theorem takes_subset {timer timer' : Timer} {e : Option Error} (ht : timer.Takes e timer') :
    ∀ w ∈ timer'.waits, w ∈ timer.waits := by
  cases ht with
  | intro hw =>
    intro w hm
    rw [hw]
    rcases List.mem_append.1 hm with hm | hm
    · exact List.mem_append_left _ hm
    · exact List.mem_append_right _ (List.mem_cons_of_mem _ hm)

omit [Inhabited β] in
theorem aimed_armed {timer : Timer} {c : Channel β} (hnone : .completed none ∉ timer.waits) :
    Aimed timeout true { s with
      channel := c
      timer := (timer.cancel.expiresAt (now + timeout)).asyncWait
      clock := now } now := by
  refine ⟨Int.le_refl _, nofun, fun _ _ => rfl, fun _ hq => absurd hq ?_⟩
  intro hq
  rcases List.mem_append.1 hq with hq | hq
  · exact hnone (mem_cancel.1 (mem_cancel.1 hq))
  · cases List.mem_singleton.1 hq

theorem Timed.handle {io : Io} {r : Result} {c : Channel β}
    (hi : Timed timeout withTimeout ls s) (ht : s.channel.Takes io r c)
    (hn : NoneQueued withTimeout s (.handle io r (handed io r s.channel.buffer) now)) :
    Timed timeout withTimeout (ls ++ [.handle io r (handed io r s.channel.buffer) now])
      { ((program timeout withTimeout).handle io r).run now { s with channel := c } with
        clock := now } := by
  have hstarted : s.started = true := by
    by_contra hs
    exact ht.ops_ne (hi.idle (Bool.eq_false_iff.2 hs)).1
  cases r with
  | error e =>
    refine ⟨fun h => ?_, fun _ hopen => ?_⟩
    · have hsame : (((program timeout withTimeout).handle io (.error e)).run now
          { s with channel := c }).started = s.started := by
        cases withTimeout <;> cases io <;> rfl
      change (((program timeout withTimeout).handle io (.error e)).run now
        { s with channel := c }).started = false at h
      rw [hsame, hstarted] at h
      cases h
    · change (((program timeout withTimeout).handle io (.error e)).run now
        { s with channel := c }).isOpen = true at hopen
      rw [handle_error_isOpen] at hopen
      cases hopen
  | ok n =>
    have hlatest : latest startedAt (ls ++
        [.handle io (.ok n) (handed io (.ok n) s.channel.buffer) now]) = some now :=
      latest_of_some rfl
    have hone : s.isOpen = true → c.ops = [] := by
      intro hopen
      obtain ⟨⟨o, ho⟩, -⟩ := hi.running hstarted hopen
      have hlen := ht.ops_length
      rw [ho, List.length_singleton] at hlen
      exact List.eq_nil_of_length_eq_zero (by omega)
    cases withTimeout with
    | true =>
      obtain ⟨c', o, hops, hrun⟩ := handle_ok_withTimeout timeout now io n
        { s with channel := c }
      rw [hrun]
      refine ⟨fun h => absurd (hstarted.symm.trans h) nofun, fun _ hopen => ⟨⟨o, ?_⟩, now, hlatest,
        aimed_armed (hn rfl hopen ⟨_, _, _, _, rfl⟩)⟩⟩
      rw [hops]
      change c.ops ++ [o] = [o]
      rw [hone hopen, List.nil_append]
    | false =>
      obtain ⟨c', o, hops, hrun⟩ := handle_ok_withWatchdog timeout now io n
        { s with channel := c }
      rw [hrun]
      refine ⟨fun h => absurd (hstarted.symm.trans h) nofun, fun _ hopen => ⟨⟨o, ?_⟩, now, hlatest,
        ⟨Int.le_refl _, fun _ => rfl, nofun, nofun⟩⟩⟩
      rw [hops]
      change c.ops ++ [o] = [o]
      rw [hone hopen, List.nil_append]

theorem Timed.start {now₁ now₂ : Int} (hi : Timed timeout withTimeout ls s)
    (hstarted : s.started = false) (hnow : now₁ ≤ now₂) :
    Timed timeout withTimeout (ls ++ [.start now₁ now₂])
      { (program timeout withTimeout).start₂.run now₂
          ((program timeout withTimeout).start₁.run now₁ { s with started := true }) with
        clock := now₂ } := by
  obtain ⟨hops, hwaits⟩ := hi.idle hstarted
  have hlatest : latest startedAt (ls ++ [.start now₁ now₂]) = some now₁ := latest_of_some rfl
  have hone : ∃ o, (s.channel.start .receive).ops = [o] :=
    ⟨⟨.receive, 0, none⟩, by rw [Channel.start, hops]; rfl⟩
  have hne : ∀ {p : Prop}, true = false → p := fun h => absurd h (by decide)
  cases withTimeout with
  | true =>
    refine ⟨hne, fun _ _ => ⟨hone, now₁, hlatest, hnow, hne, fun _ _ => rfl, fun _ hq => ?_⟩⟩
    change .completed none ∈ (s.timer.expiresAt (now₁ + timeout)).asyncWait.waits at hq
    simp [Timer.asyncWait, Timer.expiresAt, Timer.cancel, hwaits] at hq
  | false =>
    change Timed timeout false _ { startWatchdog.run now₂ { s with
      started := true
      channel := s.channel.start .receive
      deadline := now₁ + timeout } with clock := now₂ }
    rw [startWatchdog_run]
    split
    · exact ⟨hne, fun _ h => hne h.symm⟩
    · exact ⟨hne, fun _ _ => ⟨hone, now₁, hlatest, hnow, fun _ => rfl, fun h => hne h.symm,
        fun h => hne h.symm⟩⟩

theorem Timed.handleWait {timer : Timer} {error : Option Error}
    (hi : Timed timeout withTimeout ls s) (ht : s.timer.Takes error timer)
    (hclock : s.clock ≤ now) :
    Timed timeout withTimeout (ls ++ [.handleWait error now])
      { ((program timeout withTimeout).wait error).run now { s with timer := timer } with
        clock := now } := by
  have hlatest : latest startedAt (ls ++ [.handleWait error now]) = latest startedAt ls :=
    latest_of_none rfl
  have hstarted : s.started = true := by
    by_contra hs
    exact ht.waits_ne (hi.idle (Bool.eq_false_iff.2 hs)).2
  have hkeep : Timed timeout withTimeout (ls ++ [.handleWait error now])
      { s with timer := timer, clock := now } := by
    refine ⟨fun h => absurd (hstarted.symm.trans h) nofun, fun _ hopen => ?_⟩
    obtain ⟨hone, t, ht', ha⟩ := hi.running hstarted hopen
    exact ⟨hone, t, hlatest.trans ht', ha.timer ht.expiry_eq (takes_subset ht _)
      (fun hq => .inl (takes_subset ht _ hq)) hclock⟩
  cases error with
  | some e => exact hkeep
  | none =>
    cases withTimeout with
    | true => exact ⟨fun h => absurd (hstarted.symm.trans h) nofun, nofun⟩
    | false =>
      change Timed timeout false _ { startWatchdog.run now { s with timer := timer } with
        clock := now }
      rw [startWatchdog_run]
      split
      · exact ⟨fun h => absurd (hstarted.symm.trans h) nofun, nofun⟩
      · refine ⟨fun h => absurd (hstarted.symm.trans h) nofun, fun _ hopen => ?_⟩
        obtain ⟨hone, t, ht', ha⟩ := hkeep.running hstarted hopen
        exact ⟨hone, t, ht', ha.since, ha.deadline, nofun, nofun⟩

theorem Timed.step (hi : Timed timeout withTimeout ls s)
    (h : Step (program timeout withTimeout) s l s') (hn : NoneQueued withTimeout s l) :
    Timed timeout withTimeout (ls ++ [l]) s' := by
  cases h with
  | start hstarted _ hnow => exact hi.start hstarted hnow
  | begin _ hclock =>
    refine ⟨hi.idle, fun hstarted hopen => ?_⟩
    obtain ⟨hone, t, ht, ha⟩ := hi.running hstarted hopen
    exact ⟨hone, t, (latest_of_none rfl).trans ht, Int.le_trans ha.since hclock, ha.deadline,
      ha.outstanding, fun hw hq => Int.le_trans (ha.queued hw hq) hclock⟩
  | io hs =>
    refine ⟨fun hstarted => absurd (hi.idle hstarted).1 hs.ops_ne, fun hstarted hopen => ?_⟩
    obtain ⟨⟨o, ho⟩, t, ht, ha⟩ := hi.running hstarted hopen
    exact ⟨List.length_eq_one_iff.1 (hs.ops_length.trans (by rw [ho]; rfl)), t,
      (latest_of_none rfl).trans ht, ha.since, ha.deadline, ha.outstanding, ha.queued⟩
  | handle ht _ => exact hi.handle ht hn
  | expire hf hclock =>
    refine ⟨fun hstarted => absurd (hi.idle hstarted).2 hf.waits_ne, fun hstarted hopen => ?_⟩
    obtain ⟨hone, t, ht, ha⟩ := hi.running hstarted hopen
    refine ⟨hone, t, (latest_of_none rfl).trans ht, ha.timer hf.expiry_eq ?_ ?_ hclock⟩
    · cases hf with
      | intro hw => rw [hw]; simp
    · cases hf with
      | intro hw hexpiry =>
        intro _
        exact .inr ⟨by rw [hw]; simp, hexpiry⟩
  | handleWait ht hclock => exact hi.handleWait ht hclock

theorem session_timed (h : Exec ((session β (program timeout withTimeout)).restrict
    (NoneQueued withTimeout)) ls s) : Timed timeout withTimeout ls s := by
  refine h.trace_invariant (I := Timed timeout withTimeout) (fun s (h0 : Initial _ s) => ?_)
    fun ls s l s' _ hi (hs : Step _ s l s' ∧ NoneQueued _ s l) => hi.step hs.1 hs.2
  refine ⟨fun _ => ⟨h0.ops, by rw [h0.timer]⟩, fun hstarted => ?_⟩
  rw [h0.started] at hstarted
  cases hstarted

/-! ## The result -/

theorem Timed.punctual (hi : Timed timeout withTimeout ls s) :
    Punctual timeout withTimeout ls s := by
  intro now s' hopen hs hclosed
  cases hs with
  | @handleWait timer _ _ ht hclock =>
    have hstarted : s.started = true := by
      by_contra hs
      exact ht.waits_ne (hi.idle (Bool.eq_false_iff.2 hs)).2
    obtain ⟨hone, t, hlatest, ha⟩ := hi.running hstarted hopen
    refine ⟨hone, t, hlatest, ?_⟩
    cases withTimeout with
    | true =>
      have hmem : .completed none ∈ s.timer.waits := by
        cases ht with
        | intro hw => rw [hw]; simp
      exact Int.le_trans (ha.queued rfl hmem) hclock
    | false =>
      change (startWatchdog.run now { s with timer := timer }).isOpen = false at hclosed
      rw [startWatchdog_run] at hclosed
      split at hclosed
      · rename_i hdead
        exact ha.deadline rfl ▸ hdead
      · exact absurd (hopen.symm.trans hclosed) nofun

/-- A completion that was queued before the operation was started stops the session. -/
theorem not_punctual (hpos : 0 < timeout) (hs : Step (program timeout withTimeout) s l s')
    (hn : ¬NoneQueued withTimeout s l) : ¬Punctual timeout withTimeout (ls ++ [l]) s' := by
  simp only [NoneQueued, Classical.not_imp, not_not] at hn
  obtain ⟨rfl, hopen, ⟨io, n, data, now, rfl⟩, hq⟩ := hn
  cases hs with
  | @handle c _ _ _ ht hclock =>
    obtain ⟨c', o, -, hrun⟩ := handle_ok_withTimeout timeout now io n
      { s with channel := c }
    rw [hrun]
    intro hp
    have hq' : .completed none ∈
        (s.timer.cancel.expiresAt (now + timeout)).asyncWait.waits :=
      List.mem_append_left _ (mem_cancel.2 (mem_cancel.2 hq))
    obtain ⟨l₁, l₂, hw⟩ := List.append_of_mem hq'
    obtain ⟨-, t, hlatest, hle⟩ := hp now _ hopen (.handleWait (.intro hw) (Int.le_refl _)) rfl
    rw [latest_of_some (f := startedAt) rfl, Option.some.injEq] at hlatest
    omega

/-- **When the echo server is punctual.** In every run in which no handler goes on to the next
operation while a wait that ended with success is queued, a timer handler that is the first to stop
the session does so at least `timeout` after the start of the operation. A step that does otherwise
leads to a state where the next timer handler stops a session too early. With a watchdog every step
meets the condition. -/
theorem punctual_iff (hpos : 0 < timeout)
    (h : Exec ((session β (program timeout withTimeout)).restrict (NoneQueued withTimeout)) ls s) :
    Punctual timeout withTimeout ls s ∧
      ∀ l s', Step (program timeout withTimeout) s l s' →
        (Punctual timeout withTimeout (ls ++ [l]) s' ↔ NoneQueued withTimeout s l) := by
  have hi := session_timed h
  refine ⟨hi.punctual, fun l s' hs => ⟨fun hp => ?_, fun hn => (hi.step hs hn).punctual⟩⟩
  by_contra hn
  exact not_punctual hpos hs hn hp

/-- A session with a timeout that expires: it is stopped in time. -/
theorem punctual_iff_expired : ∃ (ls : List (Label Nat)) (s : State Nat),
    Exec ((session Nat (program 5 true)).restrict (NoneQueued true)) ls s ∧
      Punctual 5 true ls s ∧ ∃ s', Step (program 5 true) s (.handleWait none 6) s' ∧
        s'.isOpen = false := by
  have hn : ∀ (s : State Nat) now₁ now₂, NoneQueued true s (.start now₁ now₂) :=
    fun _ _ _ _ _ ⟨_, _, _, _, he⟩ => by cases he
  have hn' : ∀ (s : State Nat) now, NoneQueued true s (.expire now) :=
    fun _ _ _ _ ⟨_, _, _, _, he⟩ => by cases he
  have hnow : (0 : Int) ≤ 0 := Int.le_refl 0
  have hlater : (0 : Int) ≤ 5 := by decide
  have hexpiry : (5 : Int) ≤ 5 := Int.le_refl 5
  have h0 : Exec ((session Nat (program 5 true)).restrict (NoneQueued true)) [] fresh :=
    .init (fresh_initial 5 true)
  have h1 := h0.snoc ⟨.start rfl hnow hnow, hn _ _ _⟩
  have h2 := h1.snoc ⟨.expire (.head rfl hexpiry) hlater, hn' _ _⟩
  exact ⟨_, _, h2, (punctual_iff (by decide) h2).1, _,
    .handleWait (.head rfl) (by decide), rfl⟩

/-- The timeout of a receive expires while its completion is queued: it stops the session just when
the write has been started. -/
theorem stale_timeout_stops : ∃ s s' : State Nat,
    Exec (session Nat (program 5 true)) [.start 0 0, .expire 5, .io (.deliver [7]),
      .handle .receive (.ok 1) [7] 5] s ∧ s.isOpen = true ∧
    (∃ size, s.channel.ops = [⟨.write size, 0, none⟩]) ∧
    Step (program 5 true) s (.handleWait none 5) s' ∧ s'.isOpen = false ∧
    ¬Punctual 5 true [.start 0 0, .expire 5, .io (.deliver [7]),
      .handle .receive (.ok 1) [7] 5] s := by
  have hchunk : [7] ≠ [] := nofun
  have hlen : [7].length ≤ (List.replicate bufferSize 0).length := by
    rw [List.length_replicate]
    decide
  have hnow : (0 : Int) ≤ 0 := Int.le_refl 0
  have hlater : (0 : Int) ≤ 5 := by decide
  have hexpiry : (5 : Int) ≤ 5 := Int.le_refl 5
  have h0 : Exec (session Nat (program 5 true)) [] fresh := .init (fresh_initial 5 true)
  have h1 := h0.snoc (.start rfl hnow hnow)
  have h2 := h1.snoc (.expire (.head rfl hexpiry) hlater)
  have h3 := h2.snoc (.io (.deliver_head rfl rfl hchunk hlen))
  have h4 := h3.snoc (.handle (.head rfl) hexpiry)
  refine ⟨_, _, h4, rfl, ⟨_, rfl⟩, .handleWait (.head rfl) (by decide), rfl,
    fun hp => ?_⟩
  obtain ⟨-, t, ht, hle⟩ := hp 5 _ rfl (.handleWait (.head rfl) (by decide)) rfl
  obtain rfl : 5 = t := Option.some.inj ht
  exact absurd hle (by decide)

end Echo.Server
