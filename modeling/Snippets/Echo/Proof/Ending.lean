import Snippets.Asio.Closing
import Snippets.Echo.Proof.Faithful

/-!
# Echo sessions that have ended die out

A session has ended (`Ended`) when its socket is closed, or its `echo` coroutine has returned. Then
a success that was queued before may still start an operation, move the deadline or arm the timer,
and a coroutine that was spawned may still begin. `State.weight` bounds what is to come, for all
four sessions: every step of a session that has ended lowers it (`Step.weight`). A session in which
no step is possible has nothing outstanding, so that no handler and no coroutine is left to own it.
Together: `ended_dies_out`.
-/

namespace Echo

open Lts Asio

variable {β : Type*} [Inhabited β] {src : Source} {timeout : Int} {withTimeout : Bool}
  {s s' : State β} {l : Label β} {ls : List (Label β)} {now : Int} {held : List β}

/-! ## What is to come -/

/-- What may still start an operation: one that ends in success, or an `echo` that has not begun. -/
def State.movers (s : State β) : Nat := s.channel.succeeds + s.spawned.count .echo

/-- The steps that a wait takes if its handler starts nothing. -/
def waitSteps : Wait → Nat
  | .outstanding => 2
  | .completed _ => 1

/-- A timeout starts no other wait; a watchdog may. -/
def waiting (withTimeout : Bool) (movers : Nat) (t : Timer) (deadline clock : Int) : Nat :=
  if withTimeout then (t.waits.map waitSteps).sum + 3 * movers else t.weight deadline clock movers

/-- The steps of a coroutine that has not begun, with those of the wait that it starts. -/
def Coroutine.weight (withTimeout : Bool) (movers : Nat) : Coroutine → Nat
  | .echo => 3
  | _ => if withTimeout then 3 else 2 * movers + 5

/-- The steps of the coroutines and of the waits. -/
def State.pending (withTimeout : Bool) (movers : Nat) (s : State β) : Nat :=
  (s.spawned.map (Coroutine.weight withTimeout movers)).sum +
    waiting withTimeout movers s.timer s.deadline s.clock

/-- The steps that a session that has ended makes at most. -/
def State.weight (withTimeout : Bool) (s : State β) : Nat :=
  s.channel.weight + s.pending withTimeout s.movers

/-- The socket is closed, or no operation is outstanding or to be started. -/
def State.Ended (s : State β) : Prop :=
  s.started = true ∧ (s.isOpen = false ∨ (s.channel.ops = [] ∧ s.spawned.count .echo = 0))

section
omit [Inhabited β]
variable {t t' : Timer} {deadline clock : Int} {movers movers' : Nat}

theorem waitSteps_le (w : Wait) : waitSteps w ≤ 2 := by
  unfold waitSteps
  split <;> omega

theorem waitSteps_cancel (ws : List Wait) :
    ((ws.map Wait.abort).map waitSteps).sum ≤ (ws.map waitSteps).sum := by
  rw [List.map_map]
  refine List.sum_le_sum fun w _ => ?_
  cases w with
  | outstanding => exact Nat.le_succ 1
  | completed => exact Nat.le_refl 1

theorem waitSteps_fires (h : t.Fires now t') :
    (t'.waits.map waitSteps).sum + 1 = (t.waits.map waitSteps).sum := by
  cases h with
  | intro hw =>
    simp only [hw, List.map_append, List.map_cons, List.sum_append, List.sum_cons, waitSteps]
    omega

theorem waitSteps_takes {e : Option Error} (h : t.Takes e t') :
    (t'.waits.map waitSteps).sum + 1 = (t.waits.map waitSteps).sum := by
  cases h with
  | intro hw =>
    simp only [hw, List.map_append, List.map_cons, List.sum_append, List.sum_cons, waitSteps]
    omega

theorem waitSteps_arm (t : Timer) (expiry : Int) :
    (((t.expiresAt expiry).asyncWait).waits.map waitSteps).sum ≤
      (t.waits.map waitSteps).sum + 2 := by
  have hcancel := waitSteps_cancel t.waits
  change ((t.waits.map Wait.abort ++ [Wait.outstanding]).map waitSteps).sum ≤ _
  rw [List.map_append, List.sum_append]
  exact Nat.add_le_add_right hcancel 2

theorem weight_arm_at (t : Timer) (expiry deadline clock : Int) (movers : Nat) :
    ((t.expiresAt expiry).asyncWait).weight deadline clock movers ≤
      t.weight deadline clock movers + (2 * movers + 4) := by
  have hcancel : ((t.waits.map Wait.abort).map (Wait.weight expiry deadline clock movers)).sum ≤
      t.weight deadline clock movers := by
    rw [List.map_map]
    exact List.sum_le_sum fun _ _ => Wait.weight_abort _
  have hnew : Wait.outstanding.weight expiry deadline clock movers ≤ 2 * movers + 4 :=
    Wait.weight_le
  change ((t.waits.map Wait.abort ++ [Wait.outstanding]).map
    (Wait.weight expiry deadline clock movers)).sum ≤ _
  rw [List.map_append, List.sum_append]
  exact Nat.add_le_add hcancel hnew

theorem beginning_mono (cs : List Coroutine) (h : movers' ≤ movers) :
    (cs.map (Coroutine.weight withTimeout movers')).sum ≤
      (cs.map (Coroutine.weight withTimeout movers)).sum := by
  refine List.sum_le_sum fun c _ => ?_
  cases c with
  | echo => exact Nat.le_refl 3
  | wait | watch =>
    unfold Coroutine.weight
    cases withTimeout with
    | true => exact Nat.le_refl 3
    | false => exact Nat.add_le_add_right (Nat.mul_le_mul_left 2 h) 5

theorem waiting_mono (t : Timer) (deadline : Int) (hclock : clock ≤ now) (h : movers' ≤ movers) :
    waiting withTimeout movers' t deadline now ≤ waiting withTimeout movers t deadline clock := by
  unfold waiting
  cases withTimeout with
  | true => exact Nat.add_le_add_left (Nat.mul_le_mul_left 3 h) _
  | false => exact Timer.weight_mono t deadline hclock h

theorem waiting_cancel (t : Timer) (deadline clock : Int) (movers : Nat) :
    waiting withTimeout movers t.cancel deadline clock ≤
      waiting withTimeout movers t deadline clock := by
  unfold waiting
  cases withTimeout with
  | true => exact Nat.add_le_add_right (waitSteps_cancel t.waits) _
  | false => exact Timer.weight_cancel t deadline clock movers

theorem waiting_fires (withTimeout : Bool) (h : t.Fires now t') (deadline : Int)
    (hclock : clock ≤ now) (movers : Nat) : waiting withTimeout movers t' deadline now + 1 ≤
      waiting withTimeout movers t deadline clock := by
  unfold waiting
  cases withTimeout with
  | true =>
    rw [if_pos rfl, if_pos rfl, ← waitSteps_fires h]
    omega
  | false => exact h.weight deadline movers hclock

theorem waiting_takes {e : Option Error} (h : t.Takes e t') (deadline : Int)
    (hclock : clock ≤ now) (movers : Nat) : waiting withTimeout movers t' deadline now + 1 ≤
      waiting withTimeout movers t deadline clock := by
  unfold waiting
  cases withTimeout with
  | true =>
    rw [if_pos rfl, if_pos rfl, ← waitSteps_takes h]
    omega
  | false =>
    have hpos : 1 ≤ Wait.weight t.expiry deadline clock movers (.completed e) := by
      cases e with
      | none => exact Nat.le_add_left ..
      | some => exact Nat.le_refl 1
    exact Nat.le_trans (Nat.add_le_add_left hpos _) (h.weight deadline movers hclock)

/-! ## What code leaves to come -/

theorem pending_stop (hspawned : s'.spawned = s.spawned)
    (htimer : s'.timer = s.timer ∨ s'.timer = s.timer.cancel) (hdeadline : s'.deadline = s.deadline)
    (hclock : s.clock ≤ s'.clock) (hm : movers' ≤ movers) :
    s'.pending withTimeout movers' ≤ s.pending withTimeout movers := by
  unfold State.pending
  rw [hspawned, hdeadline]
  refine Nat.add_le_add (beginning_mono _ hm) ?_
  refine Nat.le_trans ?_ (waiting_mono s.timer s.deadline hclock hm)
  rcases htimer with h | h
  · rw [h]
  · rw [h]
    exact waiting_cancel ..

theorem pending_delay (hspawned : s'.spawned = s.spawned) (htimer : s'.timer = s.timer)
    (movers : Nat) : s'.pending false movers ≤ s.pending false (movers + 1) := by
  unfold State.pending
  rw [hspawned, htimer]
  apply Nat.add_le_add
  · exact beginning_mono _ (Nat.le_succ movers)
  · exact Timer.weight_delay _ _ _ _ _ (Nat.le_refl _)

theorem pending_arm {t : Int} (hspawned : s'.spawned = s.spawned)
    (htimer : s'.timer = (s.timer.cancel.expiresAt t).asyncWait) (movers : Nat) :
    s'.pending true movers ≤ s.pending true (movers + 1) := by
  have harm := waitSteps_arm s.timer.cancel t
  have hcancel : (s.timer.cancel.waits.map waitSteps).sum ≤ (s.timer.waits.map waitSteps).sum :=
    waitSteps_cancel s.timer.waits
  unfold State.pending
  rw [hspawned, htimer]
  apply Nat.add_le_add
  · exact beginning_mono _ (Nat.le_succ movers)
  · simp only [waiting, if_true]
    omega

theorem pending_spawn (hspawned : s'.spawned = s.spawned ++ [.wait])
    (htimer : s'.timer = s.timer ∨ s'.timer = s.timer.cancel) (movers : Nat) :
    s'.pending true movers ≤ s.pending true (movers + 1) := by
  have hwaits : (s'.timer.waits.map waitSteps).sum ≤ (s.timer.waits.map waitSteps).sum := by
    rcases htimer with h | h
    · rw [h]
    · rw [h]
      exact waitSteps_cancel s.timer.waits
  have hbegin := @beginning_mono true _ _ s.spawned (Nat.le_add_right movers 1)
  unfold State.pending
  rw [hspawned, List.map_append, List.sum_append]
  simp only [waiting, if_true, List.map_cons, List.map_nil, List.sum_cons, List.sum_nil,
    Coroutine.weight]
  omega

theorem pending_wait {t : Int} (hspawned : s'.spawned = s.spawned)
    (htimer : s'.timer = (s.timer.expiresAt t).asyncWait) (hdeadline : s'.deadline = s.deadline)
    (hclock : s.clock ≤ s'.clock) (movers : Nat) :
    s'.pending withTimeout movers + 1 ≤
      s.pending withTimeout movers + if withTimeout then 3 else 2 * movers + 5 := by
  unfold State.pending waiting
  rw [hspawned, htimer, hdeadline]
  cases withTimeout with
  | true =>
    have harm := waitSteps_arm s.timer t
    simp only [if_true]
    omega
  | false =>
    have harm := weight_arm_at s.timer t s.deadline s'.clock movers
    have hmono := Timer.weight_mono s.timer s.deadline hclock (Nat.le_refl movers)
    simp only [Bool.false_eq_true, if_false]
    omega

end

section
variable {io : Io} {n movers movers' : Nat}

theorem run_closed (k : Code) (now : Int) (h : s.isOpen = false) :
    (k.run now s).isOpen = false := by
  induction k generalizing s with
  | done => exact h
  | call c k ih =>
    apply ih
    cases c with
    | close => rfl
    | _ => exact h
  | now k ih => exact ih _ h
  | deadline k ih => exact ih _ h

theorem run_started (k : Code) (now : Int) : (k.run now s).started = s.started := by
  induction k generalizing s with
  | done => rfl
  | call c k ih =>
    refine ih.trans ?_
    cases c <;> rfl
  | now k ih => exact ih _
  | deadline k ih => exact ih _

theorem pending_handle_ok (src : Source) (timeout : Int) (withTimeout : Bool) (io : Io) (n : Nat)
    (now : Int) (movers : Nat) (s : State β) :
    State.pending withTimeout movers
        { ((src.program timeout withTimeout).handle io (.ok n)).run now s with clock := now } ≤
      s.pending withTimeout (movers + 1) := by
  cases src with
  | server =>
    cases withTimeout with
    | true =>
      apply pending_arm (t := now + timeout)
      · cases io <;> rfl
      · cases io <;> rfl
    | false =>
      apply pending_delay
      · cases io <;> rfl
      · cases io <;> rfl
  | coServer =>
    cases withTimeout with
    | true =>
      apply pending_spawn
      · cases io <;> rfl
      · cases io <;> exact .inr rfl
    | false =>
      apply pending_delay
      · cases io <;> rfl
      · cases io <;> rfl

/-- The code after an operation that failed cancels the timer and starts nothing. -/
theorem pending_handle_error (src : Source) (timeout : Int) (withTimeout : Bool) (io : Io)
    (e : Error) (hnow : s.clock ≤ now) (hm : movers' ≤ movers) :
    State.pending withTimeout movers'
        { ((src.program timeout withTimeout).handle io (.error e)).run now s with clock := now } ≤
      s.pending withTimeout movers := by
  have hcancel : s.timer.cancel.cancel = s.timer.cancel := by
    unfold Timer.cancel
    rw [List.map_map]
    congr 1
    refine List.map_congr_left fun w _ => ?_
    cases w <;> rfl
  apply pending_stop _ _ _ hnow hm
  · cases src <;> cases withTimeout <;> cases io <;> rfl
  · right
    cases src with
    | server =>
      cases withTimeout with
      | true => cases io <;> exact hcancel
      | false => cases io <;> rfl
    | coServer => cases withTimeout <;> cases io <;> rfl
  · cases src <;> cases withTimeout <;> cases io <;> rfl

/-- A watchdog that is not aborted ends the session, or waits for the deadline that it finds. -/
theorem watched_cases (src : Source) (timeout : Int) (now : Int) (s : State β) :
    ∃ s' : State β, ((src.program timeout false).wait none).run now s = s' ∧
      s'.spawned = s.spawned ∧ s'.deadline = s.deadline ∧
      ((s.deadline ≤ now ∧ (s'.timer = s.timer ∨ s'.timer = s.timer.cancel)) ∨
        (now < s.deadline ∧ s'.timer = (s.timer.expiresAt s.deadline).asyncWait)) := by
  by_cases hd : now ≥ s.deadline
  · cases src with
    | server =>
      refine ⟨Server.stop.run now s, ?_, rfl, rfl, .inl ⟨hd, .inr rfl⟩⟩
      change Code.run now (if now ≥ s.deadline then Server.stop else _) s = _
      rw [if_pos hd]
    | coServer =>
      refine ⟨s.call .close, ?_, rfl, rfl, .inl ⟨hd, .inl rfl⟩⟩
      change Code.run now (if now ≥ s.deadline then .call .close .done else _) s = _
      rw [if_pos hd]
      rfl
  · refine ⟨(s.call (.expiresAt s.deadline)).call .asyncWait, ?_, rfl, rfl,
      .inr ⟨Int.not_le.1 hd, rfl⟩⟩
    cases src with
    | server =>
      change Code.run now (if now ≥ s.deadline then Server.stop else _) s = _
      rw [if_neg hd]
      rfl
    | coServer =>
      change Code.run now (if now ≥ s.deadline then .call .close .done else _) s = _
      rw [if_neg hd]
      rfl

theorem pending_begin (src : Source) (timeout : Int) (withTimeout : Bool) {c : Coroutine}
    (hc : c ≠ .echo) (hnow : s.clock ≤ now) (movers : Nat) :
    State.pending withTimeout movers
        { ((src.program timeout withTimeout).begin c).run now s with clock := now } + 1 ≤
      s.pending withTimeout movers + c.weight withTimeout movers := by
  have hpos : 1 ≤ c.weight withTimeout movers := by
    unfold Coroutine.weight
    split
    · omega
    · split <;> omega
  cases src with
  | server =>
    refine Nat.add_le_add ?_ hpos
    exact pending_stop rfl (.inl rfl) rfl hnow (Nat.le_refl movers)
  | coServer =>
    cases c with
    | echo => exact absurd rfl hc
    | wait =>
      apply pending_wait (t := now + timeout) _ _ _ hnow
      · rfl
      · rfl
      · rfl
    | watch =>
      obtain ⟨s₁, hrun, hspawned, hdeadline, ⟨-, htimer⟩ | ⟨-, htimer⟩⟩ :=
        watched_cases .coServer timeout now s
      · refine Nat.add_le_add ?_ hpos
        change State.pending _ _ { CoServer.watch.run now s with clock := now } ≤ _
        rw [show CoServer.watch.run now s = s₁ from hrun]
        exact pending_stop hspawned htimer hdeadline hnow (Nat.le_refl movers)
      · change State.pending _ _ { CoServer.watch.run now s with clock := now } + 1 ≤ _
        rw [show CoServer.watch.run now s = s₁ from hrun]
        apply pending_wait (t := s.deadline) _ _ _ hnow
        · exact hspawned
        · exact htimer
        · exact hdeadline

theorem pending_handleWait (src : Source) (timeout : Int) (withTimeout : Bool) {t : Timer}
    {error : Option Error} (ht : s.timer.Takes error t) (hnow : s.clock ≤ now) (movers : Nat) :
    State.pending withTimeout movers
        { ((src.program timeout withTimeout).wait error).run now { s with timer := t } with
          clock := now } + 1 ≤ s.pending withTimeout movers := by
  have htake : waiting withTimeout movers t s.deadline now + 1 ≤
      waiting withTimeout movers s.timer s.deadline s.clock := waiting_takes ht _ hnow movers
  have hstop : ∀ s' : State β, s'.spawned = s.spawned → s'.deadline = s.deadline →
      s'.clock = now → (s'.timer = t ∨ s'.timer = t.cancel) →
      s'.pending withTimeout movers + 1 ≤ s.pending withTimeout movers := by
    intro s' hspawned hdeadline hclock htimer
    unfold State.pending
    rw [hspawned, hdeadline, hclock, Nat.add_assoc]
    refine Nat.add_le_add_left (Nat.le_trans (Nat.succ_le_succ ?_) htake) _
    rcases htimer with h | h
    · rw [h]
    · rw [h]
      exact waiting_cancel ..
  cases error with
  | some e =>
    apply hstop
    · cases src <;> cases withTimeout <;> rfl
    · cases src <;> cases withTimeout <;> rfl
    · rfl
    · left
      cases src <;> cases withTimeout <;> rfl
  | none =>
    cases withTimeout with
    | true =>
      apply hstop
      · cases src <;> rfl
      · cases src <;> rfl
      · rfl
      · cases src with
        | server => exact .inr rfl
        | coServer => exact .inl rfl
    | false =>
      obtain ⟨s₁, hrun, hspawned, hdeadline, ⟨-, htimer⟩ | ⟨hd, htimer⟩⟩ :=
        watched_cases src timeout now { s with timer := t }
      · rw [hrun]
        exact hstop _ hspawned hdeadline rfl htimer
      · -- the deadline was in the future too when the wait was armed
        rw [hrun]
        have hweight := ht.weight s.deadline movers hnow
        have harm := Timer.weight_arm t s.deadline now movers
        have hlate : late s.deadline s.clock = 1 := if_neg fun h => by
          have hd : now < s.deadline := hd
          omega
        unfold State.pending waiting
        rw [hspawned, hdeadline, htimer]
        simp only [Bool.false_eq_true, if_false, Wait.weight, hlate] at hweight ⊢
        omega

end

/-! ## What code does to the operations -/

omit [Inhabited β] in
/-- A receive hands over no more than the buffer holds. -/
theorem Holds.received_le {io : Io} {r : Result} {c : Channel β} (hh : Holds s held)
    (ht : s.channel.Takes io r c) (n : Nat) (hio : io = .receive) (hr : r = .ok n) :
    n ≤ c.buffer.length := by
  subst hio hr
  obtain ⟨-, -, -, hbuffer, -⟩ := hh.completed ht
  cases hh.flow with
  | idle hops => exact absurd hops ht.ops_ne
  | write _ hops hkind => exact nomatch hkind.symm.trans (ht.io_eq hops)
  | receive hc =>
    obtain ⟨-, rfl, -, -, b, hb⟩ := hc.received_eq ht
    rw [hbuffer, hb, List.length_append]
    exact Nat.le_add_right ..

omit [Inhabited β] in
theorem next_nonempty {io io' : Io} {r : Result} {c c' : Channel β} (hne : c.Nonempty)
    (ht : c.Takes io r c') (hnext : next io r = some io') : io' ≠ .write 0 := by
  unfold next at hnext
  split at hnext
  · cases hnext
    intro h
    cases h
    exact Nat.lt_irrefl _ ((hne.takes ht).2 0 rfl rfl)
  · cases hnext
    exact nofun
  · cases hnext

omit [Inhabited β] in
theorem Effect.nonempty {io : Option Io} (he : Effect io s s') (hne : s.channel.Nonempty)
    (hio : io ≠ some (.write 0)) : s'.channel.Nonempty := by
  unfold Channel.Nonempty
  rw [he.ops]
  cases io with
  | none =>
    rw [Option.map_none, Option.toList_none, List.append_nil]
    exact hne
  | some io => exact hne.start fun h => hio (congrArg some h)

/-- A coroutine other than `echo` begins without an operation. -/
theorem source_begin (src : Source) (timeout : Int) (withTimeout : Bool)
    (hsize : s.channel.buffer.length ≤ bufferSize) (now : Int) {c : Coroutine} (hc : c ≠ .echo) :
    Effect none s (((src.program timeout withTimeout).begin c).run now s) := by
  cases src with
  | server => exact .none hsize rfl rfl rfl
  | coServer =>
    have he := coServer_begin timeout withTimeout hsize now c
    rwa [if_neg hc] at he

theorem Holds.step_nonempty (hh : Holds s held)
    (h : Step (src.program timeout withTimeout) s l s') (hne : s.channel.Nonempty) :
    s'.channel.Nonempty := by
  cases h with
  | @start now₁ now₂ hstarted =>
    cases src with
    | coServer => cases withTimeout <;> exact hne
    | server =>
      have hfirst : Effect (some .receive) { s with started := true }
          ((Server.program timeout withTimeout).start₁.run now₁ { s with started := true }) := by
        cases withTimeout <;> exact ⟨rfl, rfl, rfl, hh.size, nofun, nofun⟩
      have hfirst' := hfirst.nonempty hne nofun
      cases withTimeout with
      | true => exact hfirst'
      | false =>
        exact (server_wait timeout false hfirst.size now₂ none).nonempty hfirst' nofun
  | @begin l₁ l₂ c now hspawned =>
    cases src with
    | server => exact hne
    | coServer =>
      refine (coServer_begin timeout withTimeout (s := { s with spawned := l₁ ++ l₂ })
        hh.size now c).nonempty hne ?_
      split <;> exact nofun
  | io hs => exact hne.step hs
  | @handle c io r now ht =>
    obtain ⟨-, -, -, -, hsize⟩ := hh.completed ht
    refine (source_handle src timeout withTimeout io r (s := { s with channel := c }) hsize now
      (hh.received_le ht)).nonempty (hne.takes ht).1 fun hnext => ?_
    exact next_nonempty hne ht hnext rfl
  | expire => exact hne
  | @handleWait t error now =>
    exact (source_wait src timeout withTimeout (s := { s with timer := t }) hh.size now
      error).nonempty hne nofun

theorem session_nonempty (h : Exec (session β (src.program timeout withTimeout)) ls s) :
    s.channel.Nonempty := by
  refine h.trace_invariant (I := fun _ s => s.channel.Nonempty) (fun s h0 o ho => ?_)
    fun ls s l s' h hi hs => ?_
  · rw [h0.ops] at ho
    cases ho
  · obtain ⟨held, -, hh⟩ := session_relays h
    exact hh.step_nonempty hs hi

/-! ## The steps of a session that has ended -/

/-- A session that has ended stays so. -/
theorem State.Ended.step (hend : s.Ended) (hh : Holds s held)
    (h : Step (src.program timeout withTimeout) s l s') : s'.Ended := by
  obtain ⟨hstarted, hend⟩ := hend
  cases h with
  | start hnew => rw [hstarted] at hnew; cases hnew
  | @begin l₁ l₂ c now hspawned =>
    refine ⟨(run_started ..).trans hstarted, hend.imp (run_closed _ now) ?_⟩
    rintro ⟨hops, hechoes⟩
    rw [hspawned, List.count_append, List.count_cons] at hechoes
    have hc : c ≠ .echo := fun hc => by
      rw [hc] at hechoes
      simp at hechoes
    have he := source_begin src timeout withTimeout (s := { s with spawned := l₁ ++ l₂ })
      hh.size now hc
    refine ⟨?_, ?_⟩
    · rw [he.kept rfl]
      exact hops
    · rw [he.echoes, List.count_append]
      omega
  | io hs =>
    refine ⟨hstarted, hend.imp id ?_⟩
    rintro ⟨hops, -⟩
    exact absurd hops hs.ops_ne
  | handle ht =>
    refine ⟨(run_started ..).trans hstarted, hend.imp (run_closed _ _) ?_⟩
    rintro ⟨hops, -⟩
    exact absurd hops ht.ops_ne
  | expire => exact ⟨hstarted, hend⟩
  | @handleWait t error now =>
    have he := source_wait src timeout withTimeout (s := { s with timer := t }) hh.size now error
    refine ⟨(run_started ..).trans hstarted, hend.imp (run_closed _ now) ?_⟩
    rintro ⟨hops, hechoes⟩
    refine ⟨?_, he.echoes.trans hechoes⟩
    rw [he.kept rfl]
    exact hops

theorem go_weight {io : Io} {n : Nat} {c : Channel β} (hh : Holds s held)
    (hne : s.channel.Nonempty) (ht : s.channel.Takes io (.ok n) c) (now : Int) :
    State.weight withTimeout
        { ((src.program timeout withTimeout).handle io (.ok n)).run now { s with channel := c } with
          clock := now } + 1 ≤ s.weight withTimeout := by
  obtain ⟨-, -, -, -, hsize⟩ := hh.completed ht
  have he := source_handle src timeout withTimeout io (.ok n) (s := { s with channel := c })
    hsize now (hh.received_le ht)
  obtain ⟨io', hio'⟩ : ∃ io', next io (.ok n) = some io' := by cases io <;> exact ⟨_, rfl⟩
  obtain ⟨hweight, hsucc⟩ := ht.start_weight (next_nonempty hne ht hio')
  have hpending := fun m => pending_handle_ok src timeout withTimeout io n now m
    { s with channel := c }
  generalize ((src.program timeout withTimeout).handle io (.ok n)).run now
    { s with channel := c } = s₁ at he hpending ⊢
  have hops : s₁.channel.ops = (c.start io').ops := by
    rw [he.ops, hio']
    rfl
  have hmovers : s₁.movers + 1 ≤ s.movers := by
    unfold State.movers
    rw [he.echoes, Channel.succeeds, hops]
    change (c.start io').succeeds + s.spawned.count .echo + 1 ≤ _
    omega
  have hmono : s.pending withTimeout (s₁.movers + 1) ≤ s.pending withTimeout s.movers :=
    pending_stop rfl (.inl rfl) rfl (Int.le_refl _) hmovers
  have hpending := Nat.le_trans (hpending s₁.movers) hmono
  change (s₁.channel.ops.map Op.weight).sum + State.pending withTimeout s₁.movers _ + 1 ≤ _
  rw [hops]
  change (c.start io').weight + _ + 1 ≤ s.channel.weight + _
  omega

omit [Inhabited β] in
theorem quiet_weight {c : Channel β} (he : Effect none { s with channel := c } s')
    (hs : c.succeeds ≤ s.channel.succeeds)
    (hlt : ∀ m, m ≤ s.movers → c.weight + s'.pending withTimeout m + 1 ≤ s.weight withTimeout) :
    s'.weight withTimeout + 1 ≤ s.weight withTimeout := by
  have hkept : s'.channel = c := he.kept rfl
  have hm : s'.movers ≤ s.movers := by
    unfold State.movers
    rw [hkept, he.echoes]
    exact Nat.add_le_add_right hs _
  have hlt := hlt _ hm
  unfold State.weight at hlt ⊢
  rwa [hkept]

theorem fail_weight {io : Io} {e : Error} {c : Channel β} (hh : Holds s held)
    (ht : s.channel.Takes io (.error e) c) (hnow : s.clock ≤ now) :
    State.weight withTimeout
        { ((src.program timeout withTimeout).handle io (.error e)).run now
          { s with channel := c } with clock := now } + 1 ≤ s.weight withTimeout := by
  obtain ⟨-, -, -, -, hsize⟩ := hh.completed ht
  obtain ⟨hweight, hsucc⟩ := ht.weight
  have he := source_handle src timeout withTimeout io (.error e) (s := { s with channel := c })
    hsize now nofun
  have hnone : next io (.error e) = none := by cases io <;> rfl
  rw [hnone] at he
  refine quiet_weight ⟨he.started, he.echoes, he.ops, he.size, he.kept, he.filled⟩ hsucc
    fun m hm => ?_
  have hpending := pending_handle_error src timeout withTimeout io e
    (s := { s with channel := c }) hnow hm
  unfold State.weight
  exact Nat.le_trans (by omega) (Nat.add_le_add hweight hpending)

omit [Inhabited β] in
theorem spawned_weight {l₁ l₂ : List Coroutine} {c : Coroutine}
    (hspawned : s.spawned = l₁ ++ c :: l₂) (withTimeout : Bool) :
    s.weight withTimeout = c.weight withTimeout s.movers +
      (s.channel.weight + State.pending withTimeout s.movers { s with spawned := l₁ ++ l₂ }) := by
  unfold State.weight State.pending
  rw [hspawned]
  simp only [List.map_append, List.map_cons, List.sum_append, List.sum_cons]
  omega

theorem begin_echo_weight {l₁ l₂ : List Coroutine} (hh : Holds s held)
    (hspawned : s.spawned = l₁ ++ .echo :: l₂) (hnow : s.clock ≤ now) :
    State.weight withTimeout
        { ((src.program timeout withTimeout).begin .echo).run now
          { s with spawned := l₁ ++ l₂ } with clock := now } + 1 ≤ s.weight withTimeout := by
  have hmovers : s.movers = s.channel.succeeds + (l₁ ++ l₂).count .echo + 1 := by
    unfold State.movers
    rw [hspawned, List.count_append, List.count_cons_self, List.count_append]
    rfl
  rw [spawned_weight hspawned]
  change _ ≤ 3 + _
  cases src with
  | server =>
    have hpending : State.pending withTimeout (s.channel.succeeds + (l₁ ++ l₂).count .echo)
        { s with spawned := l₁ ++ l₂, clock := now } ≤
        State.pending withTimeout s.movers { s with spawned := l₁ ++ l₂ } :=
      pending_stop rfl (.inl rfl) rfl hnow (by omega)
    change s.channel.weight + State.pending withTimeout (s.channel.succeeds +
      (l₁ ++ l₂).count .echo) { s with spawned := l₁ ++ l₂, clock := now } + 1 ≤ _
    omega
  | coServer =>
    have he := coServer_begin timeout withTimeout (s := { s with spawned := l₁ ++ l₂ })
      hh.size now .echo
    rw [if_pos rfl] at he
    have hpending : ∀ m, State.pending withTimeout m
        { ((CoServer.program timeout withTimeout).begin .echo).run now
          { s with spawned := l₁ ++ l₂ } with clock := now } ≤
        State.pending withTimeout (m + 1) { s with spawned := l₁ ++ l₂ } := by
      intro m
      cases withTimeout with
      | true =>
        apply pending_spawn
        · rfl
        · exact .inl rfl
      | false =>
        apply pending_delay
        · rfl
        · rfl
    change State.weight withTimeout { ((CoServer.program timeout withTimeout).begin .echo).run now
      { s with spawned := l₁ ++ l₂ } with clock := now } + 1 ≤ _
    generalize ((CoServer.program timeout withTimeout).begin .echo).run now
      { s with spawned := l₁ ++ l₂ } = s₁ at he hpending ⊢
    have hops : s₁.channel.ops = s.channel.ops ++ [⟨.receive, 0, none⟩] := he.ops
    have hm : s₁.movers + 1 = s.movers := by
      rw [hmovers]
      unfold State.movers Channel.succeeds
      rw [he.echoes, hops, List.map_append, List.sum_append]
      rfl
    have hpending := hpending s₁.movers
    rw [hm] at hpending
    change (s₁.channel.ops.map Op.weight).sum + State.pending withTimeout s₁.movers _ + 1 ≤ _
    rw [hops, List.map_append, List.sum_append]
    change s.channel.weight + 2 + _ + 1 ≤ _
    omega

theorem begin_weight {l₁ l₂ : List Coroutine} {c : Coroutine} (hh : Holds s held)
    (hspawned : s.spawned = l₁ ++ c :: l₂) (hc : c ≠ .echo) (hnow : s.clock ≤ now) :
    State.weight withTimeout
        { ((src.program timeout withTimeout).begin c).run now { s with spawned := l₁ ++ l₂ } with
          clock := now } + 1 ≤ s.weight withTimeout := by
  have hmovers : s.movers = s.channel.succeeds + (l₁ ++ l₂).count .echo := by
    unfold State.movers
    rw [hspawned, List.count_append, List.count_cons_of_ne hc, List.count_append]
  have he := source_begin src timeout withTimeout (s := { s with spawned := l₁ ++ l₂ })
    hh.size now hc
  have hpending := pending_begin src timeout withTimeout hc
    (s := { s with spawned := l₁ ++ l₂ }) hnow s.movers
  generalize ((src.program timeout withTimeout).begin c).run now { s with spawned := l₁ ++ l₂ } = s₁
    at he hpending ⊢
  have hkept : s₁.channel = s.channel := he.kept rfl
  have hm : s₁.movers = s.movers := by
    rw [hmovers]
    unfold State.movers
    rw [hkept, he.echoes]
  rw [spawned_weight hspawned]
  change s₁.channel.weight + State.pending withTimeout s₁.movers _ + 1 ≤ _
  rw [hkept, hm]
  omega

theorem Step.weight (hend : s.Ended) (hh : Holds s held) (hne : s.channel.Nonempty)
    (h : Step (src.program timeout withTimeout) s l s') :
    s'.weight withTimeout + 1 ≤ s.weight withTimeout := by
  cases h with
  | start hnew => rw [hend.1] at hnew; cases hnew
  | @begin l₁ l₂ c now hspawned hnow =>
    by_cases hc : c = .echo
    · subst hc
      exact begin_echo_weight hh hspawned hnow
    · exact begin_weight hh hspawned hc hnow
  | @io e c hs =>
    rcases hend.2 with hclosed | ⟨hops, -⟩
    · rw [hclosed] at hs
      obtain ⟨hweight, hsucc⟩ := hs.weight
      have hsize : c.buffer.length ≤ bufferSize :=
        Nat.le_trans (Nat.le_of_eq hs.buffer_length) hh.size
      refine quiet_weight (.none hsize rfl rfl rfl) hsucc fun m hm => ?_
      have hpending : State.pending withTimeout m { s with channel := c } ≤
          s.pending withTimeout s.movers := pending_stop rfl (.inl rfl) rfl (Int.le_refl _) hm
      unfold State.weight
      exact Nat.le_trans (by omega) (Nat.add_le_add hweight hpending)
    · exact absurd hops hs.ops_ne
  | @handle c io r now ht hnow =>
    cases r with
    | error e => exact fail_weight hh ht hnow
    | ok n => exact go_weight hh hne ht now
  | @expire t now ht hnow =>
    refine quiet_weight (c := s.channel) (.none hh.size rfl rfl rfl) (Nat.le_refl _)
      fun m hm => ?_
    have hfires := waiting_fires withTimeout ht s.deadline hnow m
    have hpending : s.pending withTimeout m ≤ s.pending withTimeout s.movers :=
      pending_stop rfl (.inl rfl) rfl (Int.le_refl _) hm
    unfold State.weight
    rw [Nat.add_assoc]
    refine Nat.add_le_add_left (Nat.le_trans ?_ hpending) _
    unfold State.pending
    exact Nat.add_le_add_left hfires _
  | @handleWait t error now ht hnow =>
    have he := source_wait src timeout withTimeout (s := { s with timer := t }) hh.size now error
    refine quiet_weight (c := s.channel) ⟨he.started, he.echoes, he.ops, he.size, he.kept,
      he.filled⟩ (Nat.le_refl _) fun m hm => ?_
    have hpending := pending_handleWait src timeout withTimeout ht hnow m
    have hmono : s.pending withTimeout m ≤ s.pending withTimeout s.movers :=
      pending_stop rfl (.inl rfl) rfl (Int.le_refl _) hm
    unfold State.weight
    exact Nat.add_le_add_left (Nat.le_trans hpending hmono) _

/-! ## The end of a session -/

/-- A session before `start (..)`. -/
def State.Fresh (s : State β) : Prop :=
  s.isOpen = true ∧ s.channel.ops = [] ∧ s.timer.waits = [] ∧ s.spawned = []

theorem started_or_fresh (h : Exec (session β (src.program timeout withTimeout)) ls s) :
    s.started = true ∨ s.Fresh := by
  refine h.invariant (I := fun s => s.started = true ∨ s.Fresh) (fun s h0 => ?_)
    fun s l s' hi hs => ?_
  · exact .inr ⟨h0.isOpen, h0.ops, by rw [h0.timer], h0.spawned⟩
  · left
    cases hs with
    | start => exact (run_started ..).trans (run_started ..)
    | begin hspawned =>
      refine (run_started ..).trans (hi.resolve_right fun hf => ?_)
      rw [hf.2.2.2] at hspawned
      simp at hspawned
    | io hs => exact hi.resolve_right fun hf => hs.ops_ne hf.2.1
    | handle ht =>
      exact (run_started ..).trans (hi.resolve_right fun hf => ht.ops_ne hf.2.1)
    | expire ht => exact hi.resolve_right fun hf => ht.waits_ne hf.2.2.1
    | handleWait ht =>
      exact (run_started ..).trans (hi.resolve_right fun hf => ht.waits_ne hf.2.2.1)

/-- The socket is closed, or an operation has failed and its handler has run. -/
def Over (ls : List (Label β)) (s : State β) : Prop :=
  s.isOpen = false ∨ ∃ io e data now, Label.handle io (.error e) data now ∈ ls

omit [Inhabited β] in
theorem Over.of_handle (io : Io) (e : Error) (data : List β) (now : Int) (ls : List (Label β))
    (s : State β) : Over (ls ++ [.handle io (.error e) data now]) s :=
  .inr ⟨io, e, data, now, List.mem_append_right _ (.head _)⟩

/-- The handler of an operation that failed starts nothing. -/
theorem Holds.failed {io : Io} {e : Error} {c : Channel β} (hh : Holds s held)
    (ht : s.channel.Takes io (.error e) c) : State.Ended
      { ((src.program timeout withTimeout).handle io (.error e)).run now
        { s with channel := c } with clock := now } := by
  obtain ⟨hstarted, hechoes, hnil, -, hsize⟩ := hh.completed ht
  have he := source_handle src timeout withTimeout io (.error e) (s := { s with channel := c })
    hsize now nofun
  refine ⟨(run_started ..).trans hstarted, .inr ⟨?_, he.echoes.trans hechoes⟩⟩
  have hnone : next io (.error e) = none := by cases io <;> rfl
  have hops := he.ops
  rw [hnone] at hops
  refine hops.trans ?_
  rw [hnil]
  rfl

theorem Over.ended (h : Exec (session β (src.program timeout withTimeout)) ls s)
    (hover : Over ls s) : s.Ended := by
  rcases hover with hclosed | herror
  · refine ⟨(started_or_fresh h).resolve_right fun hf => ?_, .inl hclosed⟩
    rw [hf.1] at hclosed
    cases hclosed
  · refine h.trace_invariant (I := fun ls s => (∃ io e data now,
      Label.handle io (.error e) data now ∈ ls) → s.Ended) (fun s h0 => ?_)
      (fun ls s l s' h hi hs => ?_) herror
    · exact fun ⟨_, _, _, _, hm⟩ => nomatch hm
    · obtain ⟨held, -, hh⟩ := session_relays h
      intro ⟨io, e, data, now, hm⟩
      rcases List.mem_append.1 hm with hm | hm
      · exact (hi ⟨io, e, data, now, hm⟩).step hh hs
      · rw [List.mem_singleton] at hm
        subst hm
        cases hs with
        | handle ht => exact hh.failed ht

theorem Coroutine.weight_le (withTimeout : Bool) (c : Coroutine) {movers : Nat}
    (hm : movers ≤ 1) :
    c.weight withTimeout movers + 4 * (if c = .echo then 1 else 0) ≤ 7 := by
  have hother : (if withTimeout then 3 else 2 * movers + 5) ≤ 7 := by
    split <;> omega
  cases c with
  | echo => exact Nat.le_refl 7
  | wait | watch => exact hother

theorem beginning_le (withTimeout : Bool) (cs : List Coroutine) {movers : Nat}
    (hm : movers ≤ 1) :
    (cs.map (Coroutine.weight withTimeout movers)).sum + 4 * cs.count .echo ≤ 7 * cs.length := by
  induction cs with
  | nil => exact Nat.le_refl 0
  | cons c cs ih =>
    have hc := c.weight_le withTimeout hm
    simp only [List.map_cons, List.sum_cons, List.count_cons, List.length_cons, beq_iff_eq]
    omega

theorem waiting_le (withTimeout : Bool) (t : Timer) (deadline clock : Int) {movers : Nat}
    (hm : movers ≤ 1) :
    waiting withTimeout movers t deadline clock ≤ 6 * t.waits.length + 3 * movers := by
  unfold waiting
  cases withTimeout with
  | true =>
    have hsum := sum_map_le (l := t.waits) fun w _ => waitSteps_le w
    rw [if_pos rfl]
    omega
  | false =>
    have hsum : t.weight deadline clock movers ≤ 6 * t.waits.length :=
      sum_map_le fun w _ => Nat.le_trans Wait.weight_le (by omega)
    rw [if_neg Bool.false_ne_true]
    omega

omit [Inhabited β] in
theorem weight_le (hops : s.channel.ops.length + s.spawned.count .echo ≤ 1) :
    s.weight withTimeout ≤
      7 * (s.channel.ops.length + s.timer.waits.length + s.spawned.length) := by
  have hchannel : s.channel.weight ≤ 4 * s.channel.ops.length := sum_map_le fun o _ => o.weight_le
  have hsucc : s.channel.succeeds ≤ 1 * s.channel.ops.length := sum_map_le fun o _ => o.succeeds_le
  have hm : s.movers ≤ s.channel.ops.length + s.spawned.count .echo := by
    unfold State.movers
    omega
  have hbegin := beginning_le withTimeout s.spawned (Nat.le_trans hm hops)
  have hwaits := waiting_le withTimeout s.timer s.deadline s.clock (Nat.le_trans hm hops)
  unfold State.weight State.pending
  omega

theorem Step.begin_head {p : Program} {c : Coroutine} {cs : List Coroutine}
    (h : s.spawned = c :: cs) (hnow : s.clock ≤ now) : Step p s (.begin c now)
      { (p.begin c).run now { s with spawned := cs } with clock := now } :=
  @Step.begin _ _ _ _ [] _ _ _ h hnow

/-- Where no step is possible nothing is outstanding, and no handler or coroutine is queued. -/
theorem eq_nil_of_stuck {p : Program} (hstuck : ∀ l s', ¬Step p s l s') :
    s.channel.ops = [] ∧ s.timer.waits = [] ∧ s.spawned = [] := by
  have hnow := Int.le_refl s.clock
  refine ⟨?_, ?_, ?_⟩
  · match hops : s.channel.ops with
    | [] => rfl
    | ⟨io, sent, none⟩ :: ops =>
      exact absurd (.io (.fail_head hops .other)) (hstuck (.io (.fail io .other)) _)
    | ⟨io, sent, some r⟩ :: ops =>
      exact absurd (.handle (.head hops) hnow) (hstuck (.handle io r _ s.clock) _)
  · match hw : s.timer.waits with
    | [] => rfl
    | .outstanding :: ws =>
      exact absurd (.expire (.head hw (Int.le_max_right ..)) (Int.le_max_left ..))
        (hstuck (.expire (max s.clock s.timer.expiry)) _)
    | .completed e :: ws =>
      exact absurd (.handleWait (.head hw) hnow) (hstuck (.handleWait e s.clock) _)
  · match hs : s.spawned with
    | [] => rfl
    | c :: cs => exact absurd (.begin_head hs hnow) (hstuck (.begin c s.clock) _)

/-- **Echo sessions that have ended die out.** In every session of `server.cc` and of
`co_server.cc`, with timeouts or with a watchdog: once the socket is closed, or the failure of an
operation is handled, the session takes at most 7 more steps for each operation, wait and coroutine
that it has, and when no more are possible it has none of them. -/
theorem ended_dies_out (h : Exec (session β (src.program timeout withTimeout)) ls s)
    (hover : Over ls s) {ls' : List (Label β)}
    (hrun : Run (session β (src.program timeout withTimeout)) s ls' s') :
    ls'.length ≤ 7 * (s.channel.ops.length + s.timer.waits.length + s.spawned.length) ∧
      ((∀ l s'', ¬Step (src.program timeout withTimeout) s' l s'') →
        s'.channel.ops = [] ∧ s'.timer.waits = [] ∧ s'.spawned = []) := by
  refine ⟨?_, eq_nil_of_stuck⟩
  have hlen := (hrun.length_le
    (I := fun s => (∃ ls, Exec (session β (src.program timeout withTimeout)) ls s) ∧ s.Ended)
    (m := State.weight withTimeout) (fun s l s' hi hs => ?_) ⟨⟨ls, h⟩, hover.ended h⟩).2
  · obtain ⟨held, -, hh⟩ := session_relays h
    have hone := hh.once
    exact Nat.le_trans (Nat.le_of_add_right_le hlen) (weight_le (by omega))
  · obtain ⟨⟨ls, h⟩, hend⟩ := hi
    obtain ⟨held, -, hh⟩ := session_relays h
    exact ⟨⟨⟨_, h.snoc hs⟩, hend.step hh hs⟩, hs.weight hend hh (session_nonempty h)⟩

/-- The client's stream ends before the first `wait` coroutine of `co_server.cc` has begun: it arms
the timer, and the socket is closed when the timer expires. -/
theorem ended_dies_out_wait : ∃ (ls : List (Label Nat)) (s : State Nat),
    Exec (session Nat (Source.coServer.program 5 true)) ls s ∧ Over ls s ∧
      (∃ s', Run (session Nat (Source.coServer.program 5 true)) s
        ([.begin .wait 0] ++ [.expire 5] ++ [.handleWait none 5]) s' ∧ s'.isOpen = false) ∧
      ∀ ls' s', Run (session Nat (Source.coServer.program 5 true)) s ls' s' → ls'.length ≤ 7 := by
  have hnow : (0 : Int) ≤ 0 := Int.le_refl 0
  have hlater : (0 : Int) ≤ 5 := by decide
  have h0 : Exec (session Nat (Source.coServer.program 5 true)) []
      ⟨false, true, ⟨[], []⟩, ⟨0, []⟩, 0, [], 0⟩ := .init ⟨rfl, rfl, rfl, rfl, rfl, rfl, rfl⟩
  have h1 := h0.snoc (.start rfl hnow hnow)
  have h2 := h1.snoc (.begin_head rfl hnow)
  have h3 := h2.snoc (.io (.fail_head rfl .eof))
  have h4 := h3.snoc (.handle (.head rfl) hnow)
  have hover := Over.of_handle .receive .eof ([] : List Nat) 0
  refine ⟨_, _, h4, hover _ _, ⟨_, .snoc (.snoc (.single (.begin_head rfl hnow))
    (.expire (.head rfl (Int.le_refl _)) hlater)) (.handleWait (.head rfl) (Int.le_refl _)), rfl⟩,
    fun ls' s' hrun => (ended_dies_out h4 (hover _ _) hrun).1⟩

end Echo
