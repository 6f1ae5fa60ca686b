import Snippets.Proxy.Proof.Relay

/-!
# The proxy's watchdogs

A watchdog's deadline is `timeout` after the clock reading that follows the start of the latest
operation of its direction, and a callback runs at or after the deadline, so it is never
early. Until `stop ()` each watchdog of a connected session has one wait, armed for a deadline that
has only moved on since, so no deadline is missed. Together: `watchdogs_timely`.
-/

namespace Proxy

open Lts Asio

variable {β : Type*} {timeout : Int} {s s' : State β} {l : Label β} {ls : List (Label β)}
  {d x : Side}

/-! ## Operations and callbacks -/

/-- The step starts an operation of direction `d`; the clock reading is the one after it. -/
def Label.started (d : Side) : Label β → Option Int
  | .handleConnect none now₁ now₂ _ _ => some (match d with | .client => now₁ | .server => now₂)
  | .handle x _ (.ok _) now => if x = d then some now else none
  | _ => none

/-- In the step `l` from `s` the watchdog of direction `d` calls back, at the clock reading. -/
inductive CallsBack (timeout : Int) (s : State β) : Label β → Side → Int → Prop
  | client {now₁ now₂ now₃ now₄ : Int} :
      (((s.receiveFromClient timeout now₁).receiveFromServer timeout now₂).watchdog
        .client).deadline ≤ now₃ →
      CallsBack timeout s (.handleConnect none now₁ now₂ now₃ now₄) .client now₃
  | server {now₁ now₂ now₃ now₄ : Int} :
      ((((s.receiveFromClient timeout now₁).receiveFromServer timeout now₂).startWatchdog
        .client now₃).watchdog .server).deadline ≤ now₄ →
      CallsBack timeout s (.handleConnect none now₁ now₂ now₃ now₄) .server now₄
  | wait {d : Side} {now : Int} : (s.watchdog d).deadline ≤ now →
      CallsBack timeout s (.handleWait d none now) d now

/-- `stop ()` has not been called. -/
def Running (s : State β) : Prop := ∀ x, s.isOpen x = true

/-! ## The functions -/

@[simp] theorem stop_watchdog : s.stop.watchdog d = (s.watchdog d).stop := by
  cases d <;> rfl

theorem stop_not_running : ¬Running s.stop :=
  fun h => absurd (h .client) (by simp)

theorem startWatchdog_stop {now : Int} (h : (s.watchdog x).deadline ≤ now) :
    s.startWatchdog x now = s.stop := if_pos h

theorem startWatchdog_wait {now : Int} (h : ¬(s.watchdog x).deadline ≤ now) :
    s.startWatchdog x now = s.setWatchdog x (s.watchdog x).wait := if_neg h

/-- What `start (cb)` of watchdog `x` does to the watchdogs. -/
theorem startWatchdog_watchdog (s : State β) (x d : Side) (now : Int) :
    (s.startWatchdog x now).watchdog d = (s.watchdog d).stop ∨
      (s.startWatchdog x now).watchdog d = s.watchdog d ∨
      d = x ∧ (s.startWatchdog x now).watchdog d = (s.watchdog d).wait := by
  by_cases h : (s.watchdog x).deadline ≤ now
  · rw [startWatchdog_stop h]
    exact .inl stop_watchdog
  · rw [startWatchdog_wait h]
    by_cases hx : d = x
    · subst hx
      exact .inr (.inr ⟨rfl, Function.update_self ..⟩)
    · exact .inr (.inl (Function.update_of_ne hx ..))

theorem startWatchdog_deadline (now : Int) :
    ((s.startWatchdog x now).watchdog d).deadline = (s.watchdog d).deadline := by
  rcases startWatchdog_watchdog s x d now with h | h | ⟨-, h⟩ <;> rw [h] <;> rfl

/-- A session that still runs has not called back. -/
theorem startWatchdog_running (now : Int) (h : Running (s.startWatchdog x now)) :
    Running s ∧ s.startWatchdog x now = s.setWatchdog x (s.watchdog x).wait := by
  by_cases hd : (s.watchdog x).deadline ≤ now
  · rw [startWatchdog_stop hd] at h
    exact absurd h stop_not_running
  · rw [startWatchdog_wait hd] at h ⊢
    exact ⟨h, rfl⟩

/-! ## The watchdog of a direction -/

/-- No wait is armed for later than the deadline. -/
def Watchdog.Covers (w : Watchdog) : Prop := w.timer.waits ≠ [] → w.timer.expiry ≤ w.deadline

/-- One wait, outstanding or queued with success. -/
def Watchdog.Armed (w : Watchdog) : Prop :=
  w.timer.waits = [.outstanding] ∨ w.timer.waits = [.completed none]

theorem Watchdog.Covers.stop {w : Watchdog} (h : w.Covers) : w.stop.Covers :=
  fun hne => h fun hw => hne (by simp [Watchdog.stop, Timer.cancel, hw])

theorem Watchdog.covers_wait {w : Watchdog} : w.wait.Covers := fun _ => Int.le_refl _

theorem Watchdog.armed_wait {w : Watchdog} (h : w.timer.waits = []) : w.wait.Armed :=
  .inl (by simp [Watchdog.wait, Timer.expiresAt, Timer.asyncWait, Timer.cancel, h])

theorem Watchdog.stop_length {w : Watchdog} : w.stop.timer.waits.length = w.timer.waits.length :=
  List.length_map ..

theorem Watchdog.wait_length {w : Watchdog} :
    w.wait.timer.waits.length = w.timer.waits.length + 1 := by
  simp [Watchdog.wait, Timer.expiresAt, Timer.asyncWait, Timer.cancel]

theorem startWatchdog_length (now : Int) :
    ((s.startWatchdog x now).watchdog d).timer.waits.length ≤
      (s.watchdog d).timer.waits.length + if d = x then 1 else 0 := by
  rcases startWatchdog_watchdog s x d now with h | h | ⟨rfl, h⟩
  · rw [h, Watchdog.stop_length]
    exact Nat.le_add_right ..
  · rw [h]
    exact Nat.le_add_right ..
  · simp [h, Watchdog.wait_length]

theorem startWatchdog_covers (hi : (s.watchdog d).Covers) (now : Int) :
    ((s.startWatchdog x now).watchdog d).Covers := by
  rcases startWatchdog_watchdog s x d now with h | h | ⟨-, h⟩
  · rw [h]
    exact hi.stop
  · rwa [h]
  · rw [h]
    exact Watchdog.covers_wait

/-- A wait that is dispatched was the only one, and it was not aborted. -/
theorem Watchdog.Armed.takes {w : Watchdog} {t : Timer} {e : Option Error} (h : w.Armed)
    (ht : w.timer.Takes e t) : e = none ∧ t.waits = [] := by
  cases ht with
  | @intro l₁ l₂ _ hw =>
    rcases h with h | h
    · rw [h] at hw
      cases l₁ with
      | nil => cases hw
      | cons => simp at hw
    · rw [h] at hw
      cases l₁ with
      | nil =>
        simp only [List.nil_append, List.cons.injEq, Wait.completed.injEq] at hw
        exact ⟨hw.1.symm, hw.2.symm⟩
      | cons => simp at hw

theorem Watchdog.Armed.fires {w : Watchdog} {t : Timer} {now : Int} (h : w.Armed)
    (ht : w.timer.Fires now t) : t.waits = [.completed none] := by
  cases ht with
  | @intro l₁ l₂ hw =>
    rcases h with h | h
    · rw [h] at hw
      cases l₁ with
      | nil =>
        simp only [List.nil_append, List.cons.injEq] at hw
        rw [← hw.2]
        rfl
      | cons => simp at hw
    · rw [h] at hw
      cases l₁ with
      | nil => cases hw
      | cons => simp at hw

/-! ## The invariant -/

/-- The watchdog of direction `d` after the steps `ls`. -/
structure Watched (timeout : Int) (ls : List (Label β)) (s : State β) (d : Side) : Prop where
  deadline : ∀ t, latest (Label.started d) ls = some t →
    (s.watchdog d).deadline = t + timeout ∧ t ≤ s.clock
  started : s.connect = .handled none → ∃ t, latest (Label.started d) ls = some t
  idle : s.connect ≠ .handled none → (s.watchdog d).timer.waits = []
  single : (s.watchdog d).timer.waits.length ≤ 1
  covers : (s.watchdog d).Covers
  armed : s.connect = .handled none → Running s → (s.watchdog d).Armed

theorem Watched.handleConnect {now₁ now₂ now₃ now₄ : Int} (hi : Watched timeout ls s d)
    (hc : s.connect = .completed none) (h₁₂ : now₁ ≤ now₂) (h₂₃ : now₂ ≤ now₃) (h₃₄ : now₃ ≤ now₄) :
    Watched timeout (ls ++ [.handleConnect none now₁ now₂ now₃ now₄])
      { s.handleConnect timeout none now₁ now₂ now₃ now₄ with
        connect := .handled none, clock := now₄ } d := by
  have hnone : (s.watchdog d).timer.waits = [] := hi.idle (by rw [hc]; exact nofun)
  let s₁ := (s.receiveFromClient timeout now₁).receiveFromServer timeout now₂
  have hwaits : (s₁.watchdog d).timer.waits = [] := by
    cases d with
    | client => exact hnone
    | server => exact hnone
  obtain ⟨t₁, hstart, hdeadline, ht₁⟩ : ∃ t₁,
      (Label.handleConnect (β := β) none now₁ now₂ now₃ now₄).started d = some t₁ ∧
        (s₁.watchdog d).deadline = t₁ + timeout ∧ t₁ ≤ now₄ := by
    cases d with
    | client => exact ⟨now₁, rfl, rfl, by omega⟩
    | server => exact ⟨now₂, rfl, rfl, by omega⟩
  refine ⟨fun t ht => ?_, fun _ => ⟨t₁, latest_of_some hstart⟩, fun h => absurd rfl h, ?_, ?_,
    fun _ hrun => ?_⟩
  · rw [latest_of_some hstart, Option.some.injEq] at ht
    subst ht
    refine ⟨?_, ht₁⟩
    change (((s₁.startWatchdog .client now₃).startWatchdog .server now₄).watchdog d).deadline = _
    rw [startWatchdog_deadline, startWatchdog_deadline, hdeadline]
  · have hfirst := startWatchdog_length (s := s₁) (x := .client) (d := d) now₃
    have hsecond := startWatchdog_length (s := s₁.startWatchdog .client now₃) (x := .server)
      (d := d) now₄
    rw [hwaits, List.length_nil] at hfirst
    refine Nat.le_trans hsecond (Nat.le_trans (Nat.add_le_add_right hfirst _) ?_)
    cases d <;> decide
  · have hcovers : (s₁.watchdog d).Covers := fun hne => absurd hwaits hne
    exact startWatchdog_covers (startWatchdog_covers hcovers now₃) now₄
  · obtain ⟨hrun', hsecond⟩ := startWatchdog_running now₄ hrun
    obtain ⟨-, hfirst⟩ := startWatchdog_running now₃ hrun'
    change (((s₁.startWatchdog .client now₃).startWatchdog .server now₄).watchdog d).Armed
    rw [hsecond, hfirst]
    cases d with
    | client => exact Watchdog.armed_wait hwaits
    | server => exact Watchdog.armed_wait hwaits

/-- A step that starts no operation of direction `d` keeps the deadline. -/
theorem Watched.keep {w : Watchdog} (hi : Watched timeout ls s d) (hl : l.started d = none)
    (hconn : s'.connect = .handled none ↔ s.connect = .handled none) (hclock : s.clock ≤ s'.clock)
    (hw : s'.watchdog d = w) (hdead : w.deadline = (s.watchdog d).deadline)
    (hidle : (s.watchdog d).timer.waits = [] → w.timer.waits = [])
    (hsingle : w.timer.waits.length ≤ 1) (hcovers : w.Covers)
    (harmed : s.connect = .handled none → Running s' → w.Armed) :
    Watched timeout (ls ++ [l]) s' d := by
  subst hw
  refine ⟨fun t ht => ?_, fun h => ?_, fun h => hidle (hi.idle (mt hconn.2 h)), hsingle, hcovers,
    fun h => harmed (hconn.1 h)⟩
  · rw [latest_of_none hl] at ht
    obtain ⟨hd, ht⟩ := hi.deadline t ht
    exact ⟨hdead.trans hd, Int.le_trans ht hclock⟩
  · rw [latest_of_none hl]
    exact hi.started (hconn.1 h)

theorem Watched.same (hi : Watched timeout ls s d) (hl : l.started d = none)
    (hconn : s'.connect = .handled none ↔ s.connect = .handled none) (hclock : s.clock ≤ s'.clock)
    (hw : s'.watchdog d = s.watchdog d) (hrun : Running s' → Running s) :
    Watched timeout (ls ++ [l]) s' d :=
  hi.keep hl hconn hclock hw rfl id hi.single hi.covers fun hc hr => hi.armed hc (hrun hr)

theorem Watched.launch {io : Io} {now : Int} (hi : Watched timeout ls s d)
    (hconn : s.connect = .handled none) (hnow : s.clock ≤ now)
    (hl : l.started d = if x = d then some now else none) :
    Watched timeout (ls ++ [l]) { s.launch timeout x io now with clock := now } d := by
  by_cases hx : x = d
  · subst hx
    rw [if_pos rfl] at hl
    obtain ⟨t, ht⟩ := hi.started hconn
    obtain ⟨hdead, hclock⟩ := hi.deadline t ht
    have hw : ({ s.launch timeout x io now with clock := now } : State β).watchdog x =
        (s.watchdog x).delay timeout now := Function.update_self ..
    refine ⟨fun t ht => ?_, fun _ => ⟨now, latest_of_some hl⟩, fun h => absurd hconn h, ?_, ?_,
      fun _ hrun => ?_⟩
    · rw [latest_of_some hl, Option.some.injEq] at ht
      subst ht
      exact ⟨by rw [hw]; rfl, Int.le_refl _⟩
    · rw [hw]
      exact hi.single
    · rw [hw]
      intro hne
      have hexpiry : (s.watchdog x).timer.expiry ≤ (s.watchdog x).deadline := hi.covers hne
      change (s.watchdog x).timer.expiry ≤ now + timeout
      omega
    · rw [hw]
      exact hi.armed hconn hrun
  · rw [if_neg hx] at hl
    exact hi.same hl .rfl hnow (Function.update_of_ne (Ne.symm hx) ..) id

theorem Watched.stop (hi : Watched timeout ls s d) (hl : l.started d = none)
    (hconn : s'.connect = .handled none ↔ s.connect = .handled none) (hclock : s.clock ≤ s'.clock)
    {w : Watchdog} (hw : s'.watchdog d = w.stop) (hdead : w.deadline = (s.watchdog d).deadline)
    (hidle : (s.watchdog d).timer.waits = [] → w.timer.waits = [])
    (hsingle : w.timer.waits.length ≤ 1) (hcovers : w.Covers) (hrun : ¬Running s') :
    Watched timeout (ls ++ [l]) s' d := by
  refine hi.keep hl hconn hclock hw hdead (fun h => ?_) ?_ hcovers.stop fun _ h => absurd h hrun
  · simp [Watchdog.stop, Timer.cancel, hidle h]
  · rw [Watchdog.stop_length]
    exact hsingle

theorem Watchdog.Covers.timer {w : Watchdog} {t : Timer} (h : w.Covers)
    (hexpiry : t.expiry = w.timer.expiry) (hwaits : w.timer.waits = [] → t.waits = []) :
    Watchdog.Covers { w with timer := t } :=
  fun hne => by
    change t.expiry ≤ w.deadline
    rw [hexpiry]
    exact h fun hw => hne (hwaits hw)

theorem Watched.handleWait_other {t : Timer} {error : Option Error} {now : Int}
    (hi : Watched timeout ls s d) (hx : d ≠ x) (hnow : s.clock ≤ now) :
    Watched timeout (ls ++ [.handleWait x error now])
      { (s.setWatchdog x { s.watchdog x with timer := t }).handleWait x error now with
        clock := now } d := by
  have hw : (s.setWatchdog x { s.watchdog x with timer := t }).watchdog d = s.watchdog d :=
    Function.update_of_ne hx ..
  cases error with
  | some e => exact hi.same rfl .rfl hnow hw id
  | none =>
    rw [State.handleWait]
    by_cases hd : ((s.setWatchdog x { s.watchdog x with timer := t }).watchdog x).deadline ≤ now
    · rw [startWatchdog_stop hd]
      exact hi.stop rfl .rfl hnow (stop_watchdog.trans (congrArg _ hw)) rfl id hi.single hi.covers
        stop_not_running
    · rw [startWatchdog_wait hd]
      exact hi.same rfl .rfl hnow ((Function.update_of_ne hx ..).trans hw) id

theorem Watched.handleWait_self {t : Timer} {error : Option Error} {now : Int}
    (hi : Watched timeout ls s d) (ht : (s.watchdog d).timer.Takes error t) (hnow : s.clock ≤ now) :
    Watched timeout (ls ++ [.handleWait d error now])
      { (s.setWatchdog d { s.watchdog d with timer := t }).handleWait d error now with
        clock := now } d := by
  have hw : (s.setWatchdog d { s.watchdog d with timer := t }).watchdog d =
      { s.watchdog d with timer := t } := Function.update_self ..
  have hidle : ∀ {w : Watchdog}, (s.watchdog d).timer.waits = [] → w.timer.waits = [] :=
    fun h => absurd h ht.waits_ne
  have hnil : t.waits = [] := by
    have hlen := ht.waits_length
    have hsingle := hi.single
    exact List.eq_nil_of_length_eq_zero (by omega)
  have hsingle : t.waits.length ≤ 1 := by
    rw [hnil]
    exact Nat.zero_le 1
  have hcovers : Watchdog.Covers { s.watchdog d with timer := t } := fun hne => absurd hnil hne
  cases error with
  | some e =>
    exact hi.keep rfl .rfl hnow hw rfl hidle hsingle hcovers fun hc hrun =>
      absurd ((hi.armed hc hrun).takes ht).1 nofun
  | none =>
    rw [State.handleWait]
    by_cases hd : ((s.setWatchdog d { s.watchdog d with timer := t }).watchdog d).deadline ≤ now
    · rw [startWatchdog_stop hd]
      exact hi.stop rfl .rfl hnow (stop_watchdog.trans (congrArg _ hw)) rfl hidle hsingle hcovers
        stop_not_running
    · rw [startWatchdog_wait hd]
      refine hi.keep rfl .rfl hnow ((Function.update_self ..).trans (congrArg _ hw)) rfl hidle ?_
        Watchdog.covers_wait fun _ _ => Watchdog.armed_wait hnil
      rw [Watchdog.wait_length]
      exact Nat.le_of_eq (congrArg (List.length · + 1) hnil)

theorem Watched.step (hi : Watched timeout ls s d)
    (hup : ∀ x, (s.channel x).ops ≠ [] → s.connect = .handled none) (h : Step timeout s l s') :
    Watched timeout (ls ++ [l]) s' d := by
  cases h with
  | connect hc =>
    refine hi.same rfl ?_ (Int.le_refl _) rfl id
    rw [hc]
    exact ⟨nofun, nofun⟩
  | @handleConnect error now₁ now₂ now₃ now₄ hc h₁ h₂ h₃ h₄ =>
    cases error with
    | some e =>
      refine hi.same rfl ?_ (by change s.clock ≤ now₄; omega) rfl id
      rw [hc]
      exact ⟨nofun, nofun⟩
    | none => exact hi.handleConnect hc h₂ h₃ h₄
  | io => exact hi.same rfl .rfl (Int.le_refl _) rfl id
  | @handle x c io r now ht hnow =>
    have hconn := hup x ht.ops_ne
    cases r with
    | error e =>
      rw [handle_error]
      exact hi.stop rfl .rfl hnow (stop_watchdog (s := s.setChannel x c)) rfl id hi.single
        hi.covers stop_not_running
    | ok n =>
      have hset : Watched timeout ls (s.setChannel x c) d :=
        ⟨hi.deadline, hi.started, hi.idle, hi.single, hi.covers, hi.armed⟩
      cases io with
      | receive =>
        rw [State.handle, handleReceive_ok]
        exact hset.launch hconn hnow rfl
      | write size =>
        rw [State.handle, handleWrite_ok]
        exact hset.launch hconn hnow rfl
  | @expire x t now ht hnow =>
    by_cases hx : d = x
    · subst hx
      refine hi.keep rfl .rfl hnow (Function.update_self ..) rfl (fun h => absurd h ht.waits_ne) ?_
        (hi.covers.timer ht.expiry_eq fun h => absurd h ht.waits_ne) fun hc hrun => ?_
      · exact Nat.le_trans (Nat.le_of_eq ht.waits_length) hi.single
      · exact .inr ((hi.armed hc hrun).fires ht)
    · exact hi.same rfl .rfl hnow (Function.update_of_ne hx ..) id
  | @handleWait x t error now ht hnow =>
    by_cases hx : d = x
    · subst hx
      exact hi.handleWait_self ht hnow
    · exact hi.handleWait_other hx hnow

theorem session_watched (h : Exec (session β timeout) ls s) (d : Side) :
    Watched timeout ls s d := by
  refine h.trace_invariant (I := fun ls s => Watched timeout ls s d) (fun s h0 => ?_)
    fun ls s l s' h hi hs => hi.step (fun x hne => ?_) hs
  · have hw := h0.watchdog d
    refine ⟨fun t ht => ?_, fun hc => ?_, fun _ => by rw [hw], by rw [hw]; exact Nat.zero_le 1,
      fun hne => ?_, fun hc => ?_⟩
    · cases ht
    · rw [h0.connect] at hc
      cases hc
    · rw [hw] at hne
      exact absurd rfl hne
    · rw [h0.connect] at hc
      cases hc
  · exact ((session_stage h x).running_of_ne hne).1

/-! ## The callbacks -/

theorem CallsBack.deadline_le {now : Int} (hb : CallsBack timeout s l d now)
    (hs : Step timeout s l s') : (s'.watchdog d).deadline ≤ now := by
  cases hb with
  | @client now₁ now₂ _ now₄ hd =>
    cases hs
    change (((((s.receiveFromClient timeout now₁).receiveFromServer timeout now₂).startWatchdog
      .client now).startWatchdog .server now₄).watchdog .client).deadline ≤ now
    rw [startWatchdog_deadline, startWatchdog_deadline]
    exact hd
  | @server now₁ now₂ now₃ _ hd =>
    cases hs
    change (((((s.receiveFromClient timeout now₁).receiveFromServer timeout now₂).startWatchdog
      .client now₃).startWatchdog .server now).watchdog .server).deadline ≤ now
    rw [startWatchdog_deadline]
    exact hd
  | wait hd =>
    cases hs with
    | @handleWait _ t _ _ ht _ =>
      change ((State.startWatchdog (s.setWatchdog d { s.watchdog d with timer := t }) d
        now).watchdog d).deadline ≤ now
      rw [startWatchdog_deadline]
      change (Function.update s.watchdog d { s.watchdog d with timer := t } d).deadline ≤ now
      rw [Function.update_self]
      exact hd

theorem CallsBack.connected {now : Int} (hb : CallsBack timeout s l d now)
    (hi : Watched timeout ls s d) (hs : Step timeout s l s') : s'.connect = .handled none := by
  cases hb with
  | client | server =>
    cases hs
    rfl
  | wait =>
    cases hs with
    | handleWait ht =>
      rw [handleWait_connect]
      by_contra hne
      exact ht.waits_ne (hi.idle hne)

/-- What closes a session: a handler that is given an error, or the callback of a watchdog. -/
theorem Step.closed_by (hs : Step timeout s l s') (hrun : Running s) (hstop : ¬Running s') :
    (∃ d io e now, l = .handle d io (.error e) now) ∨ ∃ d now, CallsBack timeout s l d now := by
  cases hs with
  | connect | io | expire => exact absurd hrun hstop
  | @handleConnect error now₁ now₂ now₃ now₄ =>
    cases error with
    | some e => exact absurd hrun hstop
    | none =>
      let s₁ := (s.receiveFromClient timeout now₁).receiveFromServer timeout now₂
      refine .inr ?_
      by_cases h₁ : (s₁.watchdog .client).deadline ≤ now₃
      · exact ⟨_, _, .client h₁⟩
      · by_cases h₂ : ((s₁.startWatchdog .client now₃).watchdog .server).deadline ≤ now₄
        · exact ⟨_, _, .server h₂⟩
        · refine absurd hrun ?_
          intro hrun
          refine hstop ?_
          change Running ((s₁.startWatchdog .client now₃).startWatchdog .server now₄)
          rw [startWatchdog_wait h₂, startWatchdog_wait h₁]
          exact hrun
  | @handle x c io r now =>
    cases r with
    | error e => exact .inl ⟨_, _, _, _, rfl⟩
    | ok n =>
      refine absurd ?_ hstop
      cases io with
      | receive =>
        rw [State.handle, handleReceive_ok]
        exact hrun
      | write size =>
        rw [State.handle, handleWrite_ok]
        exact hrun
  | @handleWait x t error now =>
    cases error with
    | some e => exact absurd hrun hstop
    | none =>
      by_cases hd : (s.watchdog x).deadline ≤ now
      · exact .inr ⟨_, _, .wait hd⟩
      · refine absurd ?_ hstop
        have hd' : ¬((s.setWatchdog x { s.watchdog x with timer := t }).watchdog x).deadline ≤
            now := by
          change ¬(Function.update s.watchdog x { s.watchdog x with timer := t } x).deadline ≤ now
          rwa [Function.update_self]
        change Running (State.startWatchdog _ x now)
        rw [startWatchdog_wait hd']
        exact hrun

/-- **The watchdogs are neither early nor missed.** A callback runs at least `timeout` after the
start of the latest operation of its direction, and only a callback or a handler that is given an
error closes the session. From the connection to the first `stop ()` each watchdog has exactly one
wait, outstanding or queued, that is armed for no later than its deadline. -/
theorem watchdogs_timely (h : Exec (session β timeout) ls s) :
    (∀ l s', Step timeout s l s' →
      (∀ d now, CallsBack timeout s l d now →
        ∃ t, latest (Label.started d) (ls ++ [l]) = some t ∧ t + timeout ≤ now) ∧
      (Running s → ¬Running s' → (∃ d io e now, l = .handle d io (.error e) now) ∨
        ∃ d now, CallsBack timeout s l d now)) ∧
    (s.connect = .handled none → Running s → ∀ d, (s.watchdog d).Armed ∧
      (s.watchdog d).timer.expiry ≤ (s.watchdog d).deadline) := by
  refine ⟨fun l s' hs => ⟨fun d now hb => ?_, hs.closed_by⟩, fun hconn hrun d => ?_⟩
  · have hi := session_watched (h.snoc hs) d
    have hconn := hb.connected (session_watched h d) hs
    obtain ⟨t, ht⟩ := hi.started hconn
    have hd := (hi.deadline t ht).1
    exact ⟨t, ht, hd ▸ hb.deadline_le hs⟩
  · have hi := session_watched h d
    have harmed := hi.armed hconn hrun
    refine ⟨harmed, hi.covers fun hw => ?_⟩
    unfold Watchdog.Armed at harmed
    rw [hw] at harmed
    simp at harmed

/-- A connected session whose client is silent: its watchdog calls back at its deadline. -/
theorem watchdogs_timely_silent : ∃ (ls : List (Label Nat)) (s s' : State Nat),
    Exec (session Nat 5) ls s ∧ Step 5 s (.handleWait .client none 8) s' ∧
      (s.watchdog .server).Armed ∧ (∃ t, latest (Label.started .client) ls = some t ∧ t + 5 ≤ 8) ∧
      ¬Running s' := by
  have h0 : Exec (session Nat 5) [] start := .init start_initial
  have h1 := h0.snoc (.connect (e := none) rfl)
  have hnow₁ : (0 : Int) ≤ 1 := by decide
  have hnow₂ : (1 : Int) ≤ 2 := by decide
  have hnow₃ : (2 : Int) ≤ 3 := by decide
  have hnow₄ : (3 : Int) ≤ 4 := by decide
  have h2 := h1.snoc (.handleConnect rfl hnow₁ hnow₂ hnow₃ hnow₄)
  have hexpiry : (6 : Int) ≤ 7 := by decide
  have hlater : (4 : Int) ≤ 7 := by decide
  have h3 := h2.snoc (.expire (d := .client) (.head rfl hexpiry) hlater)
  have hnow : (7 : Int) ≤ 8 := by decide
  obtain ⟨hcall, harmed⟩ := watchdogs_timely h3
  have hlatest := (hcall _ _ (.handleWait (d := .client) (.head rfl) hnow)).1
    .client 8 (.wait (by decide))
  exact ⟨_, _, _, h3, .handleWait (.head rfl) hnow,
    (harmed rfl (fun x => by cases x <;> rfl) .server).1, hlatest,
    fun h => absurd (h .client) (by decide)⟩

end Proxy
