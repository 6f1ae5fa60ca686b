import Snippets.Asio.Closing
import Snippets.Proxy.Proof.Eof
import Snippets.Proxy.Proof.Watchdog

/-!
# Stopped proxy sessions die out

After `stop ()` a success that was queued before may still start an operation, delay a watchdog or
arm its timer again. `State.weight` bounds what is to come: every step of a closed session lowers it
(`Step.weight`), whatever the history before, and a session in which no step is possible has nothing
outstanding. Together: `stopped_dies_out`.
-/

namespace Proxy

open Lts Asio

variable {β : Type*} {timeout : Int} {s s' : State β} {l : Label β} {ls : List (Label β)}
  {d x : Side}

/-- What the chains of direction `d` may still do, after `stop ()`. -/
def State.weight (s : State β) (d : Side) : Nat :=
  (s.channel d).weight +
    (s.watchdog d).timer.weight (s.watchdog d).deadline s.clock (s.channel d).succeeds

/-- The steps that are left of a closed session, in both directions. -/
def State.total (s : State β) : Nat := s.weight .client + s.weight .server

/-- One chain goes on, to the channel `c` and the watchdog `w`, the other ones at most lose
weight. -/
theorem total_lt {c : Channel β} {w : Watchdog} {now : Int} (hc : s'.channel x = c)
    (hw : s'.watchdog x = w) (hclock : s'.clock = now)
    (hlt : c.weight + w.timer.weight w.deadline now c.succeeds + 1 ≤ s.weight x)
    (hother : ∀ d, d ≠ x → s'.weight d ≤ s.weight d) : s'.total + 1 ≤ s.total := by
  have hx : s'.weight x + 1 ≤ s.weight x := by
    rwa [State.weight, hc, hw, hclock]
  unfold State.total
  cases x with
  | client =>
    have := hother .server nofun
    omega
  | server =>
    have := hother .client nofun
    omega

/-! ## What is transferred is not empty -/

theorem Turn.nonempty {c c' : Channel β} (ht : Turn s d c l c') (h : c.Nonempty) : c'.Nonempty := by
  cases ht with
  | quiet => exact h
  | connect => exact h.start nofun
  | io hs => exact h.step hs
  | fail ht => exact (h.takes ht).1
  | send ht =>
    obtain ⟨hc, hpos⟩ := h.takes ht
    have hn := hpos _ rfl rfl
    refine hc.start fun he => ?_
    rw [Io.write.injEq, bufferSize] at he
    omega
  | receive ht => exact (h.takes ht).1.start nofun

theorem session_nonempty (h : Exec (session β timeout) ls s) (d : Side) :
    (s.channel d).Nonempty := by
  refine h.invariant (I := fun s => (s.channel d).Nonempty) (fun s h0 o ho => ?_)
    fun s l s' hi hs => (hs.turn d).nonempty hi
  rw [h0.ops d] at ho
  cases ho

/-! ## The steps of a closed session -/

/-- Another direction's step cancels the timer at most. -/
theorem weight_le (hc : s'.channel d = s.channel d)
    (hw : s'.watchdog d = s.watchdog d ∨ s'.watchdog d = (s.watchdog d).stop)
    (hclock : s.clock ≤ s'.clock) : s'.weight d ≤ s.weight d := by
  unfold State.weight
  rw [hc]
  refine Nat.add_le_add_left ?_ _
  rcases hw with hw | hw
  · rw [hw]
    exact Timer.weight_mono _ _ hclock (Nat.le_refl _)
  · rw [hw]
    exact Nat.le_trans (Timer.weight_cancel ..) (Timer.weight_mono _ _ hclock (Nat.le_refl _))

theorem setChannel_weight {c : Channel β} {e : Asio.Event β}
    (hs : (s.channel x).Step bufferSize false false e c) :
    (s.setChannel x c).total + 1 ≤ s.total := by
  obtain ⟨hweight, hsucc⟩ := hs.weight
  have htimer := Timer.weight_mono (s.watchdog x).timer (s.watchdog x).deadline
    (Int.le_refl s.clock) hsucc
  refine total_lt (c := c) (w := s.watchdog x) (Function.update_self ..) rfl
    (show _ = s.clock from rfl) ?_ fun d hd =>
      weight_le (Function.update_of_ne hd ..) (.inl rfl) (Int.le_refl _)
  unfold State.weight
  omega

theorem stop_weight {c : Channel β} {io : Io} {e : Error} {now : Int}
    (ht : (s.channel x).Takes io (.error e) c) (hnow : s.clock ≤ now) :
    State.total { (s.setChannel x c).stop with clock := now } + 1 ≤ s.total := by
  obtain ⟨hweight, hsucc⟩ := ht.weight
  have htimer := Nat.le_trans (Timer.weight_cancel _ _ now c.succeeds)
    (Timer.weight_mono (s.watchdog x).timer (s.watchdog x).deadline hnow hsucc)
  refine total_lt (c := c) (w := (s.watchdog x).stop) (Function.update_self ..) stop_watchdog
    (show _ = now from rfl) ?_ fun d hd =>
      weight_le (Function.update_of_ne hd ..) (.inr (stop_watchdog (s := s.setChannel x c))) hnow
  change c.weight + (s.watchdog x).timer.cancel.weight (s.watchdog x).deadline now
    c.succeeds + 1 ≤ _
  unfold State.weight
  omega

theorem launch_weight {c : Channel β} {io io' : Io} {n : Nat} {now : Int}
    (ht : (s.channel x).Takes io (.ok n) c) (hio : io' ≠ .write 0) (hnow : s.clock ≤ now) :
    State.total { (s.setChannel x c).launch timeout x io' now with clock := now } + 1 ≤
      s.total := by
  obtain ⟨hweight, hsucc⟩ := ht.start_weight hio
  have htimer := Timer.weight_delay (s.watchdog x).timer (s.watchdog x).deadline
    (now + timeout) s.clock now hsucc
  have hself : ((s.setChannel x c).launch timeout x io' now).channel x = c.start io' := by
    rw [launch_channel, Function.update_self]
    exact congrArg (Channel.start · io') (Function.update_self ..)
  have hother : ∀ d, d ≠ x → ((s.setChannel x c).launch timeout x io' now).channel d =
      s.channel d := by
    intro d hd
    rw [launch_channel, Function.update_of_ne hd]
    exact Function.update_of_ne hd ..
  refine total_lt (c := c.start io') (w := (s.watchdog x).delay timeout now) hself
    (Function.update_self ..) (show _ = now from rfl) ?_ fun d hd =>
      weight_le (hother d hd) (.inl (Function.update_of_ne hd ..)) hnow
  change (c.start io').weight + (s.watchdog x).timer.weight (now + timeout) now
    (c.start io').succeeds + 1 ≤ _
  unfold State.weight
  omega

theorem timer_weight {t : Timer} {now : Int} (hnow : s.clock ≤ now)
    (ht : t.weight (s.watchdog x).deadline now (s.channel x).succeeds + 1 ≤
      (s.watchdog x).timer.weight (s.watchdog x).deadline s.clock (s.channel x).succeeds) :
    State.total { s.setWatchdog x { s.watchdog x with timer := t } with clock := now } + 1 ≤
      s.total := by
  refine total_lt (c := s.channel x) (w := { s.watchdog x with timer := t }) rfl
    (Function.update_self ..) (show _ = now from rfl) ?_ fun d hd =>
      weight_le rfl (.inl (Function.update_of_ne hd ..)) hnow
  change (s.channel x).weight + t.weight (s.watchdog x).deadline now (s.channel x).succeeds + 1 ≤ _
  unfold State.weight
  omega

theorem startWatchdog_weight {t : Timer} {now : Int}
    (ht : (s.watchdog x).timer.Takes none t) (hnow : s.clock ≤ now) :
    State.total { (s.setWatchdog x { s.watchdog x with timer := t }).startWatchdog x now with
      clock := now } + 1 ≤ s.total := by
  have htimer := ht.weight (s.watchdog x).deadline (s.channel x).succeeds hnow
  generalize hs₁ : s.setWatchdog x { s.watchdog x with timer := t } = s₁
  have hchannel : s₁.channel = s.channel := by
    rw [← hs₁]
    rfl
  have hself : s₁.watchdog x = { s.watchdog x with timer := t } := by
    rw [← hs₁]
    exact Function.update_self ..
  have hother : ∀ d, d ≠ x → s₁.watchdog d = s.watchdog d := by
    intro d hd
    rw [← hs₁]
    exact Function.update_of_ne hd ..
  have hdeadline : (s₁.watchdog x).deadline = (s.watchdog x).deadline := by
    rw [hself]
  by_cases hd : (s₁.watchdog x).deadline ≤ now
  · rw [startWatchdog_stop hd]
    have hcancel := Timer.weight_cancel t (s.watchdog x).deadline now (s.channel x).succeeds
    refine total_lt (c := s.channel x) (w := Watchdog.stop { s.watchdog x with timer := t })
      (congrFun hchannel x) (stop_watchdog.trans (congrArg _ hself)) (show _ = now from rfl) ?_
      fun d hd => weight_le (congrFun hchannel d)
        (.inr (stop_watchdog.trans (congrArg _ (hother d hd)))) hnow
    change (s.channel x).weight + t.cancel.weight (s.watchdog x).deadline now
      (s.channel x).succeeds + 1 ≤ _
    unfold State.weight
    simp only [Wait.weight] at htimer
    omega
  · rw [startWatchdog_wait hd]
    have harm := Timer.weight_arm t (s.watchdog x).deadline now (s.channel x).succeeds
    have hlate : late (s.watchdog x).deadline s.clock = 1 :=
      if_neg fun h => hd (hdeadline ▸ Int.le_trans h hnow)
    refine total_lt (c := s.channel x) (w := Watchdog.wait { s.watchdog x with timer := t })
      (congrFun hchannel x) ((Function.update_self ..).trans (congrArg _ hself))
      (show _ = now from rfl) ?_ fun d hd => weight_le (congrFun hchannel d)
        (.inl ((Function.update_of_ne hd ..).trans (hother d hd))) hnow
    change (s.channel x).weight + ((t.expiresAt (s.watchdog x).deadline).asyncWait).weight
      (s.watchdog x).deadline now (s.channel x).succeeds + 1 ≤ _
    unfold State.weight
    simp only [Wait.weight, hlate] at htimer
    omega

theorem Step.weight (h : Step timeout s l s') (hclosed : Closed s)
    (hup : s.connect = .handled none) (hne : ∀ x, (s.channel x).Nonempty) :
    s'.total + 1 ≤ s.total := by
  cases h with
  | connect hc | handleConnect hc => rw [hup] at hc; cases hc
  | @io x e c hs =>
    rw [hclosed x, hclosed x.other] at hs
    exact setChannel_weight hs
  | @handle x c io r now ht hnow =>
    cases r with
    | error e =>
      rw [handle_error]
      exact stop_weight ht hnow
    | ok n =>
      cases io with
      | receive =>
        have hn := ((hne x).takes ht).2 n rfl rfl
        change State.total { State.handleReceive timeout _ x (.ok n) now with clock := now } + 1 ≤ _
        rw [handleReceive_ok]
        refine launch_weight ht (fun he => ?_) hnow
        rw [Io.write.injEq, bufferSize] at he
        omega
      | write size =>
        change State.total { State.handleWrite timeout _ x (.ok n) now with clock := now } + 1 ≤ _
        rw [handleWrite_ok]
        exact launch_weight ht nofun hnow
  | expire ht hnow => exact timer_weight hnow (ht.weight _ _ hnow)
  | @handleWait x t error now ht hnow =>
    cases error with
    | some e =>
      have htimer := ht.weight (s.watchdog x).deadline (s.channel x).succeeds hnow
      simp only [Wait.weight] at htimer
      exact timer_weight hnow (by omega)
    | none => exact startWatchdog_weight ht hnow

/-! ## The end of a session -/

theorem CallsBack.closes {now : Int} (hb : CallsBack timeout s l d now) (hs : Step timeout s l s') :
    Closed s' := by
  cases hb with
  | @client now₁ now₂ _ now₄ hd =>
    cases hs
    change Closed ((((s.receiveFromClient timeout now₁).receiveFromServer timeout
      now₂).startWatchdog .client now).startWatchdog .server now₄)
    rw [startWatchdog_stop hd]
    exact startWatchdog_closed stop_isOpen now₄
  | @server now₁ now₂ now₃ _ hd =>
    cases hs
    change Closed ((((s.receiveFromClient timeout now₁).receiveFromServer timeout
      now₂).startWatchdog .client now₃).startWatchdog .server now)
    rw [startWatchdog_stop hd]
    exact stop_isOpen
  | wait hd =>
    cases hs with
    | @handleWait _ t =>
      change Closed (State.startWatchdog (s.setWatchdog d { s.watchdog d with timer := t }) d now)
      rw [startWatchdog_stop]
      · exact stop_isOpen
      · change (Function.update s.watchdog d { s.watchdog d with timer := t } d).deadline ≤ now
        rwa [Function.update_self]

/-- A session runs until it is connected, and both sockets are closed together. -/
theorem running_or_closed (h : Exec (session β timeout) ls s) :
    Running s ∨ (Closed s ∧ s.connect = .handled none) := by
  refine h.trace_invariant (I := fun _ s => Running s ∨ (Closed s ∧ s.connect = .handled none))
    (fun s (h0 : Initial s) => .inl h0.isOpen) fun ls s l s' h hi hs => ?_
  rcases hi with hrun | ⟨hc, hup⟩
  · by_cases hrun' : Running s'
    · exact .inl hrun'
    · rcases hs.closed_by hrun hrun' with ⟨d, io, e, now, rfl⟩ | ⟨d, now, hb⟩
      · refine .inr ⟨hs.closes, ?_⟩
        cases hs with
        | handle ht =>
          rw [handle_connect]
          exact ((session_stage h d).running_of_ne ht.ops_ne).1
      · exact .inr ⟨hb.closes hs, hb.connected (session_watched h d) hs⟩
  · exact .inr ⟨(hs.closed hc).1, hs.connected_iff.2 (.inl hup)⟩

theorem closed_connected (h : Exec (session β timeout) ls s) (hc : Closed s) :
    s.connect = .handled none := by
  rcases running_or_closed h with hrun | ⟨-, hup⟩
  · exact absurd (hrun .client) (by rw [hc]; exact Bool.false_ne_true)
  · exact hup

/-- Where no step is possible nothing is outstanding, and no handler is queued. -/
theorem eq_nil_of_stuck (hstuck : ∀ l s', ¬Step timeout s l s') (d : Side) :
    (s.channel d).ops = [] ∧ (s.watchdog d).timer.waits = [] := by
  constructor
  · match hops : (s.channel d).ops with
    | [] => rfl
    | ⟨io, sent, none⟩ :: ops =>
      exact absurd (.io (.fail_head hops .other)) (hstuck (.io d (.fail io .other)) _)
    | ⟨io, sent, some r⟩ :: ops =>
      exact absurd (.handle (.head hops) (Int.le_refl _))
        (hstuck (.handle d io r s.clock) _)
  · match hw : (s.watchdog d).timer.waits with
    | [] => rfl
    | .outstanding :: ws =>
      exact absurd (.expire (.head hw (Int.le_max_right ..)) (Int.le_max_left ..))
        (hstuck (.expire d (max s.clock (s.watchdog d).timer.expiry)) _)
    | .completed e :: ws =>
      exact absurd (.handleWait (.head hw) (Int.le_refl _))
        (hstuck (.handleWait d e s.clock) _)

theorem total_le (h : Exec (session β timeout) ls s) : s.total ≤ 20 := by
  have hside : ∀ d, s.weight d ≤ 10 := by
    intro d
    have hops : (s.channel d).ops.length ≤ 1 := by
      cases session_stage h d with
      | before _ _ hlen | running _ _ hlen | after _ _ hlen => omega
    obtain ⟨hchannel, hsucc⟩ := Channel.weight_le hops
    have htimer := Timer.weight_le (s.watchdog d).deadline s.clock (s.channel d).succeeds
      (session_watched h d).single
    unfold State.weight
    omega
  have h₁ := hside .client
  have h₂ := hside .server
  unfold State.total
  omega

/-- **Stopped sessions die out.** Wherever a run calls `stop ()`, a session makes at most 20 more
steps from there, completions and handlers together, and when no more are possible no operation and
no wait of the session is outstanding or queued. -/
theorem stopped_dies_out (h : Exec (session β timeout) ls s) (hstop : Closed s)
    {ls' : List (Label β)} (hrun : Run (session β timeout) s ls' s') :
    ls'.length ≤ 20 ∧ ((∀ l s'', ¬Step timeout s' l s'') → ∀ d,
      (s'.channel d).ops = [] ∧ (s'.watchdog d).timer.waits = []) := by
  refine ⟨?_, eq_nil_of_stuck⟩
  have hlen := (hrun.length_le (I := fun s => (∃ ls, Exec (session β timeout) ls s) ∧ Closed s)
    (m := State.total) (fun s l s' ⟨⟨ls, h⟩, hc⟩ hs => ?_) ⟨⟨ls, h⟩, hstop⟩).2
  · have := total_le h
    omega
  · exact ⟨⟨⟨_, h.snoc hs⟩, (hs.closed hc).1⟩,
      hs.weight hc (closed_connected h hc) fun x => session_nonempty h x⟩

/-- The client's stream ends while a write to the client is done but not handled: its handler still
starts a receive, which fails. -/
theorem stopped_dies_out_queued : ∃ (ls : List (Label Nat)) (s : State Nat),
    Exec (session Nat 5) ls s ∧ Closed s ∧
      (∃ s', Run (session Nat 5) s ([.handle .server (.write 1) (.ok 1) 0] ++
        [.io .server (.fail .receive .aborted)]) s') ∧
      ∀ ls' s', Run (session Nat 5) s ls' s' → ls'.length ≤ 20 := by
  have hnow : (0 : Int) ≤ 0 := Int.le_refl 0
  have hchunk : [7] ≠ [] := nofun
  have h1 := exec_connected.snoc (.io (d := .server) (.deliver rfl rfl hchunk (by decide)))
  have h2 := h1.snoc (.handle (d := .server) (.intro rfl) hnow)
  have h3 := h2.snoc (.io (d := .server) (.send rfl rfl hchunk ⟨[], rfl⟩))
  have h4 := h3.snoc (.io (d := .server) (.finish rfl))
  have h5 := h4.snoc (.io (d := .client) (.fail (e := .eof) rfl))
  have h6 := h5.snoc (.handle (d := .client) (.intro rfl) hnow)
  have hclosed := failed_closed h6 (d := .client) ⟨.receive, .eof, 0, by simp⟩
  exact ⟨_, _, h6, hclosed, ⟨_, .snoc (.single (.handle (d := .server) (.intro rfl) hnow))
    (.io (d := .server) (.fail (e := .aborted) rfl))⟩,
    fun ls' s' hrun => (stopped_dies_out h6 hclosed hrun).1⟩

end Proxy
