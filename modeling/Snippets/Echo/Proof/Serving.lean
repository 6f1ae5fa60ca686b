import Snippets.Echo.Proof.Timeout

/-!
# Undisturbed sessions of `server.cc`

A session whose operations do not fail and that is not stopped by its timer: from the completions of
its receives to the bytes that it writes it is a bounded relay (`Serving.step`), and it can always
go on, unless it waits for bytes (`Serving.exists_step`).
-/

namespace Echo.Server

open Lts Asio

variable {β : Type*} [Inhabited β] {timeout : Int} {withTimeout : Bool} {s s' : State β}
  {l : Label β} {held : List β} {now : Int}

/-- What a step means at the relay. -/
def moves : Label β → List (Relay.Event β)
  | .io e => e.relay
  | _ => []

/-- An open session whose operation has not failed, and that has `held` to write. -/
structure Serving (s : State β) (held : List β) : Prop where
  isOpen : s.isOpen = true
  size : s.channel.buffer.length = bufferSize
  idle : s.started = false → s.channel.ops = [] ∧ held = []
  running : s.started = true → s.channel.Cycle bufferSize held ∧
    ∃ o, s.channel.ops = [o] ∧ ∀ e, o.result ≠ some (.error e)

/-! ## What the code does to the channel -/

@[simp] theorem startWatchdog_channel (s : State β) :
    (startWatchdog.run now s).channel = s.channel := by
  rw [startWatchdog_run]
  split <;> rfl

@[simp] theorem startWatchdog_started (s : State β) :
    (startWatchdog.run now s).started = s.started := by
  rw [startWatchdog_run]
  split <;> rfl

theorem start_channel (timeout : Int) (withTimeout : Bool) (now₁ now₂ : Int) (s : State β) :
    ((program timeout withTimeout).start₂.run now₂
      ((program timeout withTimeout).start₁.run now₁ s)).channel = s.channel.start .receive := by
  cases withTimeout with
  | true => rfl
  | false => exact startWatchdog_channel _

theorem start_started (timeout : Int) (withTimeout : Bool) (now₁ now₂ : Int) (s : State β) :
    ((program timeout withTimeout).start₂.run now₂
      ((program timeout withTimeout).start₁.run now₁ s)).started = s.started := by
  cases withTimeout with
  | true => rfl
  | false => exact startWatchdog_started _

theorem wait_channel (error : Option Error) (s : State β) :
    (((program timeout withTimeout).wait error).run now s).channel = s.channel := by
  cases error with
  | some e => rfl
  | none =>
    cases withTimeout with
    | true => rfl
    | false => exact startWatchdog_channel s

theorem wait_started (error : Option Error) (s : State β) :
    (((program timeout withTimeout).wait error).run now s).started = s.started := by
  cases error with
  | some e => rfl
  | none =>
    cases withTimeout with
    | true => rfl
    | false => exact startWatchdog_started s

/-- The operation that a handler goes on to. -/
def following (n size : Nat) : Io → Io
  | .receive => .write (min n size)
  | .write _ => .receive

theorem handle_ok (timeout now : Int) (withTimeout : Bool) (io : Io) (n : Nat) (s : State β) :
    ∃ timer deadline, ((program timeout withTimeout).handle io (.ok n)).run now s =
      { s with
        channel := s.channel.start (following n s.channel.buffer.length io)
        timer := timer
        deadline := deadline } := by
  cases withTimeout <;> cases io <;> exact ⟨_, _, rfl⟩

/-! ## The relay -/

omit [Inhabited β] in
theorem Serving.unwritten_eq (hi : Serving s held) : s.channel.unwritten = held := by
  cases hs : s.started with
  | false =>
    obtain ⟨hops, rfl⟩ := hi.idle hs
    rw [Channel.unwritten, hops]
    rfl
  | true =>
    obtain ⟨hc, o, ho, -⟩ := hi.running hs
    exact hc.unwritten_eq (by simp [ho])

omit [Inhabited β] in
theorem Serving.started (hi : Serving s held) (hne : s.channel.ops ≠ []) : s.started = true := by
  by_contra hs
  exact hne (hi.idle (Bool.eq_false_iff.2 hs)).1

omit [Inhabited β] in
theorem Serving.keep (hi : Serving s held) (hopen : s'.isOpen = true)
    (hchannel : s'.channel = s.channel) (hstarted : s'.started = s.started) : Serving s' held := by
  refine ⟨hopen, ?_, fun h => ?_, fun h => ?_⟩
  · rw [hchannel]
    exact hi.size
  · rw [hchannel]
    exact hi.idle (hstarted.symm.trans h)
  · rw [hchannel]
    exact hi.running (hstarted.symm.trans h)

theorem Serving.handle {io : Io} {r : Result} {c : Channel β} (hi : Serving s held)
    (ht : s.channel.Takes io r c) : Serving
      { ((program timeout withTimeout).handle io r).run now { s with channel := c } with
        clock := now } held := by
  have hs := hi.started ht.ops_ne
  obtain ⟨hc, o, ho, herror⟩ := hi.running hs
  have hbuffer : c.buffer = s.channel.buffer := by
    cases ht
    rfl
  have hsize : c.buffer.length = bufferSize := hbuffer ▸ hi.size
  have hnil : c.ops = [] := (hc.takes ht).1
  cases r with
  | error e =>
    cases ht with
    | intro hops =>
      rw [ho] at hops
      obtain ⟨-, -, rfl⟩ := singleton_ops hops
      exact absurd rfl (herror e)
  | ok n =>
    obtain ⟨timer, deadline, hrun⟩ := handle_ok timeout now withTimeout io n { s with channel := c }
    rw [hrun]
    refine ⟨hi.isOpen, hsize, fun h => absurd (hs.symm.trans h) nofun, fun _ => ⟨?_, ?_⟩⟩
    · change (c.start (following n c.buffer.length io)).Cycle bufferSize held
      rw [hsize]
      cases io with
      | receive => exact hc.send ht
      | write size => exact hc.receive_next ht
    · refine ⟨⟨following n c.buffer.length io, 0, none⟩, ?_, nofun⟩
      change c.ops ++ [_] = _
      rw [hnil]
      rfl

omit [Inhabited β] in
theorem Serving.start (hi : Serving s held) (hs : s.started = false)
    (hopen : s'.isOpen = true) (hchannel : s'.channel = s.channel.start .receive)
    (hstarted : s'.started = true) : Serving s' held := by
  obtain ⟨hops, rfl⟩ := hi.idle hs
  have hops' : s'.channel.ops = [⟨.receive, 0, none⟩] := by
    rw [hchannel, Channel.start, hops]
    rfl
  refine ⟨hopen, ?_, fun h => absurd (hstarted.symm.trans h) (by decide), fun _ =>
    ⟨?_, _, hops', fun _ => (Option.some_ne_none _).symm⟩⟩
  · rw [hchannel]
    exact hi.size
  · rw [hchannel, Channel.start, hops]
    exact .receive

omit [Inhabited β] in
theorem Serving.io {e : Asio.Event β} {c : Channel β} (hi : Serving s held)
    (hs : s.channel.Step s.channel.buffer.length s.isOpen s.isOpen e c)
    (hfail : ∀ io error, e ≠ .fail io error) :
    ∃ held', Run (Relay.relay β bufferSize) held e.relay held' ∧
      Serving { s with channel := c } held' := by
  have hstarted := hi.started hs.ops_ne
  obtain ⟨hc, o, ho, herror⟩ := hi.running hstarted
  obtain ⟨held', hrun, hc'⟩ := hc.step (hs.mono (Nat.le_of_eq hi.size))
  refine ⟨held', hrun, hi.isOpen, hs.buffer_length.trans hi.size,
    fun h => absurd (hstarted.symm.trans h) nofun, fun _ => ⟨hc', ?_⟩⟩
  cases hs with
  | deliver _ hops | send _ hops | finish hops =>
    rw [ho] at hops
    obtain ⟨rfl, rfl, -⟩ := singleton_ops hops
    exact ⟨_, rfl, nofun⟩
  | fail => exact absurd rfl (hfail _ _)

/-- **An undisturbed session is a bounded relay.** -/
theorem Serving.step (hi : Serving s held) (h : Step (program timeout withTimeout) s l s')
    (hopen : s'.isOpen = true) (hfail : ∀ io e, l ≠ .io (.fail io e)) :
    ∃ held', Run (Relay.relay β bufferSize) held (moves l) held' ∧ Serving s' held' := by
  cases h with
  | @start now₁ now₂ hs =>
    exact ⟨held, .nil _, hi.start hs hopen (start_channel ..) (start_started ..)⟩
  | begin => exact ⟨held, .nil _, hi.keep hopen rfl rfl⟩
  | io hs =>
    exact hi.io hs fun io error he => hfail io error (by rw [he])
  | handle ht => exact ⟨held, .nil _, hi.handle ht⟩
  | expire => exact ⟨held, .nil _, hi.keep hopen rfl rfl⟩
  | handleWait =>
    exact ⟨held, .nil _, hi.keep hopen (wait_channel _ _) (wait_started _ _)⟩

/-! ## Going on -/

/-- The step is not one of the timer. -/
def Advances : Label β → Prop
  | .expire _ => False
  | .handleWait _ _ => False
  | _ => True

/-- The session goes on undisturbed by the step. -/
structure Goes (timeout : Int) (withTimeout : Bool) (s : State β) (l : Label β) (s' : State β) :
    Prop where
  step : Step (program timeout withTimeout) s l s'
  isOpen : s'.isOpen = true
  fails : ∀ io e, l ≠ .io (.fail io e)
  advances : Advances l

theorem Serving.exists_start (hi : Serving s held) (hs : s.started = false) (hpos : 0 < timeout) :
    ∃ s', Goes timeout withTimeout s (.start s.clock s.clock) s' := by
  refine ⟨_, .start hs (Int.le_refl _) (Int.le_refl _), ?_, nofun, trivial⟩
  cases withTimeout with
  | true => exact hi.isOpen
  | false =>
    change (startWatchdog.run s.clock { s with
      started := true
      channel := s.channel.start .receive
      deadline := s.clock + timeout }).isOpen = true
    rw [startWatchdog_run, if_neg (by simp; omega)]
    exact hi.isOpen

theorem Serving.exists_handle {c : Channel β} {io : Io} {n : Nat} (hi : Serving s held)
    (ht : s.channel.Takes io (.ok n) c) (timeout : Int) (withTimeout : Bool) :
    ∃ s', Goes timeout withTimeout s
      (.handle io (.ok n) (handed io (.ok n) s.channel.buffer) s.clock) s' := by
  refine ⟨_, .handle ht (Int.le_refl _), ?_, nofun, trivial⟩
  obtain ⟨timer, deadline, hrun⟩ :=
    handle_ok timeout s.clock withTimeout io n { s with channel := c }
  rw [hrun]
  exact hi.isOpen

/-- **An undisturbed session can go on, unless it waits for bytes.** -/
theorem Serving.exists_step (hi : Serving s held) (withTimeout : Bool) (hpos : 0 < timeout) :
    (∃ l s', Goes timeout withTimeout s l s' ∧ l.drawn = []) ∨
      (held = [] ∧ ∀ b, ∃ s', Goes timeout withTimeout s (.io (.deliver [b])) s') := by
  cases hs : s.started with
  | false =>
    obtain ⟨s', hgoes⟩ := hi.exists_start hs hpos
    exact .inl ⟨_, s', hgoes, rfl⟩
  | true =>
    obtain ⟨hc, o, ho, herror⟩ := hi.running hs
    have hsize := hi.size
    generalize hchannel : s.channel = c at hc ho hsize
    have hops : s.channel.ops = c.ops := by rw [hchannel]
    cases hc with
    | idle => cases ho
    | receive =>
      refine .inr ⟨rfl, fun b => ⟨_, .io (.deliver_head hi.isOpen hops nofun ?_), hi.isOpen, nofun,
        trivial⟩⟩
      rw [hi.size]
      change 1 ≤ bufferSize
      decide
    | received =>
      obtain ⟨s', hgoes⟩ := hi.exists_handle (.head hops) timeout withTimeout
      exact .inl ⟨_, s', hgoes, rfl⟩
    | receiveFailed =>
      obtain rfl := List.singleton_inj.1 ho
      exact absurd rfl (herror _)
    | @write b sent held r hr =>
      obtain rfl := List.singleton_inj.1 ho
      rcases r with _ | e | n
      · cases held with
        | nil =>
          have hs' : Step (program timeout withTimeout) s (.io .finish) _ := .io (.finish_head hops)
          exact .inl ⟨_, _, ⟨hs', hi.isOpen, nofun, trivial⟩, rfl⟩
        | cons x rest =>
          have hpiece : [x] <+: (s.channel.buffer.take (sent.length + (x :: rest).length)).drop
              sent.length := by
            rw [hchannel]
            simp [List.take_append]
          have hs' : Step (program timeout withTimeout) s (.io (.send [x])) _ :=
            .io (.send_head hi.isOpen hops nofun hpiece)
          exact .inl ⟨_, _, ⟨hs', hi.isOpen, nofun, trivial⟩, rfl⟩
      · exact absurd rfl (herror _)
      · obtain ⟨s', hgoes⟩ := hi.exists_handle (.head hops) timeout withTimeout
        exact .inl ⟨_, s', hgoes, rfl⟩

end Echo.Server
