import Snippets.Proxy.Model

/-!
# The proxy relays

`Step.turn`: what a step does to the channel of a direction. Each direction goes through the cycle
of receive and write (`Channel.Cycle`), so its run is one of a bounded relay (`session_relays`).
`Stage`: a direction has no operation before the connection, one until it handles an error, none
afterwards. Together: `relay_faithful`.
-/

namespace Proxy

open Lts Asio

variable {β : Type*} {timeout : Int} {s s' : State β} {l : Label β} {ls : List (Label β)} {d : Side}

/-! ## The functions -/

@[simp] theorem stop_channel : s.stop.channel = s.channel := rfl

@[simp] theorem stop_isOpen (x : Side) : s.stop.isOpen x = false := by
  cases x <;> rfl

@[simp] theorem launch_channel (io : Io) (now : Int) : (s.launch timeout d io now).channel =
    Function.update s.channel d ((s.channel d).start io) := rfl

@[simp] theorem startWatchdog_channel (now : Int) :
    (s.startWatchdog d now).channel = s.channel := by
  unfold State.startWatchdog
  split <;> rfl

@[simp] theorem startWatchdogs_channel (now₁ now₂ : Int) :
    (s.startWatchdogs now₁ now₂).channel = s.channel := by
  unfold State.startWatchdogs
  rw [startWatchdog_channel, startWatchdog_channel]

@[simp] theorem handleWait_channel (error : Option Error) (now : Int) :
    (s.handleWait d error now).channel = s.channel := by
  cases error with
  | some e => rfl
  | none => exact startWatchdog_channel now

theorem handleConnect_channel (now₁ now₂ now₃ now₄ : Int) (x : Side) :
    (s.handleConnect timeout none now₁ now₂ now₃ now₄).channel x =
      (s.channel x).start .receive := by
  simp only [State.handleConnect, startWatchdogs_channel, State.receiveFromServer,
    State.receiveFromClient, launch_channel]
  cases x with
  | client => rfl
  | server => rfl

theorem startWatchdog_connect (now : Int) : (s.startWatchdog d now).connect = s.connect := by
  unfold State.startWatchdog
  split <;> rfl

theorem handle_connect (io : Io) (r : Result) (now : Int) :
    (s.handle timeout d io r now).connect = s.connect := by
  cases r <;> cases io <;> cases d <;> rfl

theorem handleWait_connect (error : Option Error) (now : Int) :
    (s.handleWait d error now).connect = s.connect := by
  cases error with
  | some e => rfl
  | none => exact startWatchdog_connect now

/-- The handler of a receive starts the write, that of a write the receive. -/
theorem handleReceive_ok (n : Nat) (now : Int) : s.handleReceive timeout d (.ok n) now =
    s.launch timeout d (.write (min n bufferSize)) now := by
  cases d <;> rfl

theorem handleWrite_ok (n : Nat) (now : Int) : s.handleWrite timeout d (.ok n) now =
    s.launch timeout d .receive now := by
  cases d <;> rfl

theorem handle_error (io : Io) (e : Error) (now : Int) :
    s.handle timeout d io (.error e) now = s.stop := by
  cases io <;> cases d <;> rfl

/-! ## What a step does to a channel -/

/-- Steps that leave the channel of direction `d` alone. -/
structure Label.Quiet (l : Label β) (d : Side) : Prop where
  io : ∀ e, l ≠ .io d e
  handle : ∀ io r now, l ≠ .handle d io r now
  connect : ∀ now₁ now₂ now₃ now₄, l ≠ .handleConnect none now₁ now₂ now₃ now₄

/-- What the step `l` from `s` does to the channel `c` of direction `d`. -/
inductive Turn (s : State β) (d : Side) (c : Channel β) : Label β → Channel β → Prop
  | quiet {l : Label β} : l.Quiet d → Turn s d c l c
  | connect {now₁ now₂ now₃ now₄ : Int} : s.connect = .completed none →
      Turn s d c (.handleConnect none now₁ now₂ now₃ now₄) (c.start .receive)
  | io {e : Asio.Event β} {c' : Channel β} :
      c.Step bufferSize (s.isOpen d) (s.isOpen d.other) e c' → Turn s d c (.io d e) c'
  | fail {io : Io} {e : Error} {now : Int} {c' : Channel β} : c.Takes io (.error e) c' →
      Turn s d c (.handle d io (.error e) now) c'
  | send {n : Nat} {now : Int} {c' : Channel β} : c.Takes .receive (.ok n) c' →
      Turn s d c (.handle d .receive (.ok n) now) (c'.start (.write (min n bufferSize)))
  | receive {size n : Nat} {now : Int} {c' : Channel β} : c.Takes (.write size) (.ok n) c' →
      Turn s d c (.handle d (.write size) (.ok n) now) (c'.start .receive)

theorem turn_handle {c c' : Channel β} {io : Io} {r : Result} {now : Int} (ht : c.Takes io r c') :
    Turn s d c (.handle d io r now)
      (((s'.setChannel d c').handle timeout d io r now).channel d) := by
  have hset : (s'.setChannel d c').channel d = c' := Function.update_self ..
  cases r with
  | error e =>
    rw [handle_error, stop_channel, hset]
    exact .fail ht
  | ok n =>
    cases io with
    | receive =>
      rw [State.handle, handleReceive_ok, launch_channel, Function.update_self, hset]
      exact .send ht
    | write size =>
      rw [State.handle, handleWrite_ok, launch_channel, Function.update_self, hset]
      exact .receive ht

theorem handle_channel {io : Io} {r : Result} {now : Int} {x : Side} (hx : x ≠ d) :
    (s.handle timeout d io r now).channel x = s.channel x := by
  cases r with
  | error e => rw [handle_error, stop_channel]
  | ok n =>
    cases io with
    | receive => rw [State.handle, handleReceive_ok, launch_channel, Function.update_of_ne hx]
    | write size => rw [State.handle, handleWrite_ok, launch_channel, Function.update_of_ne hx]

theorem Step.turn (h : Step timeout s l s') (d : Side) :
    Turn s d (s.channel d) l (s'.channel d) := by
  cases h with
  | connect _ => exact .quiet ⟨nofun, nofun, nofun⟩
  | @handleConnect error now₁ now₂ now₃ now₄ hc =>
    cases error with
    | some e => exact .quiet ⟨nofun, nofun, nofun⟩
    | none =>
      change Turn s d (s.channel d) _
        ((s.handleConnect timeout none now₁ now₂ now₃ now₄).channel d)
      rw [handleConnect_channel]
      exact .connect hc
  | @io x e c hc =>
    by_cases hx : d = x
    · subst hx
      change Turn s d (s.channel d) _ (Function.update s.channel d c d)
      rw [Function.update_self]
      exact .io hc
    · change Turn s d (s.channel d) _ (Function.update s.channel x c d)
      rw [Function.update_of_ne hx]
      exact .quiet ⟨fun e he => hx (by cases he; rfl), nofun, nofun⟩
  | @handle x c io r now hc _ =>
    by_cases hx : d = x
    · subst hx
      exact turn_handle hc
    · change Turn s d (s.channel d) _ (((s.setChannel x c).handle timeout x io r now).channel d)
      rw [handle_channel hx]
      change Turn s d (s.channel d) _ (Function.update s.channel x c d)
      rw [Function.update_of_ne hx]
      exact .quiet ⟨nofun, fun io r now he => hx (by cases he; rfl), nofun⟩
  | expire _ _ => exact .quiet ⟨nofun, nofun, nofun⟩
  | @handleWait x t error now ht _ =>
    change Turn s d (s.channel d) _ ((State.handleWait _ x error now).channel d)
    rw [handleWait_channel]
    exact .quiet ⟨nofun, nofun, nofun⟩

/-! ## What a step does to the connection -/

/-- The connection is made once. -/
theorem Step.connect_cases (h : Step timeout s l s') :
    (s'.connect = s.connect ∧ ∀ e now₁ now₂ now₃ now₄, l ≠ .handleConnect e now₁ now₂ now₃ now₄) ∨
      (∃ e, s.connect = .outstanding ∧ s'.connect = .completed e ∧ l = .connect e) ∨
      ∃ e now₁ now₂ now₃ now₄, s.connect = .completed e ∧ s'.connect = .handled e ∧
        l = .handleConnect e now₁ now₂ now₃ now₄ := by
  cases h with
  | connect hc => exact .inr (.inl ⟨_, hc, rfl, rfl⟩)
  | handleConnect hc => exact .inr (.inr ⟨_, _, _, _, _, hc, rfl, rfl⟩)
  | io _ => exact .inl ⟨rfl, nofun⟩
  | expire _ _ => exact .inl ⟨rfl, nofun⟩
  | handle _ _ => exact .inl ⟨handle_connect .., nofun⟩
  | handleWait _ _ => exact .inl ⟨handleWait_connect .., nofun⟩

/-! ## The relay of a direction -/

/-- What a step means at the relay of direction `d`. -/
def events (d : Side) : Label β → List (Relay.Event β)
  | .io x e => if x = d then e.relay else []
  | _ => []

theorem taken_events (d : Side) (ls : List (Label β)) :
    Relay.taken (ls.flatMap (events d)) = received d ls := by
  unfold Relay.taken received
  rw [List.flatMap_assoc]
  congr 1
  funext l
  cases l with
  | io x e => cases e <;> by_cases hx : x = d <;> simp [events, Event.relay, hx]
  | _ => rfl

theorem given_events (d : Side) (ls : List (Label β)) :
    Relay.given (ls.flatMap (events d)) = written d ls := by
  unfold Relay.given written
  rw [List.flatMap_assoc]
  congr 1
  funext l
  cases l with
  | io x e => cases e <;> by_cases hx : x = d <;> simp [events, Event.relay, hx]
  | _ => rfl

theorem Label.Quiet.events (h : l.Quiet d) : events d l = [] := by
  cases l with
  | io x e =>
    have hx : x ≠ d := fun hx => h.io e (by rw [hx])
    exact if_neg hx
  | _ => rfl

/-- Direction `d` holds the bytes `held`; before the connection is made it holds nothing. -/
structure Holds (s : State β) (d : Side) (held : List β) : Prop where
  cycle : (s.channel d).Cycle bufferSize held
  waiting : (∀ e, s.connect ≠ .handled e) → (s.channel d).ops = [] ∧ held = []

theorem Turn.cycle {c c' : Channel β} {held : List β} (ht : Turn s d c l c')
    (hc : c.Cycle bufferSize held)
    (hfirst : s.connect = .completed none → c.ops = [] ∧ held = []) :
    ∃ held', Run (Relay.relay β bufferSize) held (events d l) held' ∧
      c'.Cycle bufferSize held' := by
  cases ht with
  | quiet hq => exact ⟨held, hq.events ▸ .nil _, hc⟩
  | connect hconn =>
    obtain ⟨hops, rfl⟩ := hfirst hconn
    obtain ⟨b, ops⟩ := c
    obtain rfl : ops = [] := hops
    exact ⟨[], .nil _, .receive⟩
  | io hs =>
    obtain ⟨held', hrun, hc'⟩ := hc.step hs
    exact ⟨held', by simpa [events] using hrun, hc'⟩
  | fail ht => exact ⟨held, .nil _, (hc.takes ht).2⟩
  | send ht => exact ⟨held, .nil _, hc.send ht⟩
  | receive ht => exact ⟨held, .nil _, hc.receive_next ht⟩

/-- Without an operation nothing happens in a direction but the connection. -/
theorem Turn.quiet_of_nil {c c' : Channel β} (ht : Turn s d c l c') (hops : c.ops = [])
    (hl : ∀ now₁ now₂ now₃ now₄, l ≠ .handleConnect none now₁ now₂ now₃ now₄) :
    c' = c ∧ l.Quiet d := by
  cases ht with
  | quiet hq => exact ⟨rfl, hq⟩
  | connect _ => exact absurd rfl (hl _ _ _ _)
  | io hs => exact absurd hops hs.ops_ne
  | fail ht | send ht | receive ht => exact absurd hops ht.ops_ne

/-- **Every step is, in each direction, the step of the bounded relay that `events` names.** -/
theorem Holds.step {held : List β} (hh : Holds s d held) (h : Step timeout s l s') :
    ∃ held', Run (Relay.relay β bufferSize) held (events d l) held' ∧ Holds s' d held' := by
  by_cases hw : ∀ e, s'.connect ≠ .handled e
  · have hw₀ : ∀ e, s.connect ≠ .handled e := by
      intro e he
      rcases h.connect_cases with ⟨hc, -⟩ | ⟨e', hc, -, -⟩ | ⟨e', _, _, _, _, -, hc, -⟩
      · exact hw e (hc.trans he)
      · exact absurd (hc.symm.trans he) nofun
      · exact hw e' hc
    have hl : ∀ now₁ now₂ now₃ now₄, l ≠ .handleConnect none now₁ now₂ now₃ now₄ := by
      rintro now₁ now₂ now₃ now₄ rfl
      cases h
      exact hw _ rfl
    obtain ⟨hops, rfl⟩ := hh.waiting hw₀
    obtain ⟨hsame, hq⟩ := (h.turn d).quiet_of_nil hops hl
    exact ⟨[], hq.events ▸ .nil _, hsame ▸ hh.cycle, fun _ => ⟨hsame ▸ hops, rfl⟩⟩
  · obtain ⟨held', hrun, hc⟩ := (h.turn d).cycle hh.cycle fun hconn =>
      hh.waiting fun e he => by rw [hconn] at he; cases he
    exact ⟨held', hrun, hc, fun h => absurd h hw⟩

/-- Each direction of a session is a bounded relay. -/
theorem session_relays (h : Exec (session β timeout) ls s) (d : Side) :
    ∃ held, Exec (Relay.relay β bufferSize) (ls.flatMap (events d)) held ∧ Holds s d held :=
  h.simulate (R := fun s held => Holds s d held)
    (fun s h0 => ⟨[], rfl, by
      have hops := h0.ops d
      refine ⟨?_, fun _ => ⟨hops, rfl⟩⟩
      generalize s.channel d = c at hops
      obtain ⟨b, ops⟩ := c
      obtain rfl : ops = [] := hops
      exact .idle⟩)
    fun s l s' held hh hs => hh.step hs

/-! ## One operation at a time -/

theorem Step.connected_iff (h : Step timeout s l s') : s'.connect = .handled none ↔
    s.connect = .handled none ∨
      ∃ now₁ now₂ now₃ now₄, l = .handleConnect none now₁ now₂ now₃ now₄ := by
  rcases h.connect_cases with ⟨hc, hl⟩ | ⟨e, hc, hc', rfl⟩ | ⟨e, _, _, _, _, hc, hc', rfl⟩
  · rw [hc]
    exact ⟨.inl, fun h => h.resolve_right fun ⟨_, _, _, _, he⟩ => hl _ _ _ _ _ he⟩
  · simp [hc, hc']
  · simp [hc, hc']

theorem failed_snoc : Failed d (ls ++ [l]) ↔
    Failed d ls ∨ ∃ io e now, l = .handle d io (.error e) now := by
  unfold Failed
  constructor
  · rintro ⟨io, e, now, hm⟩
    rcases List.mem_append.1 hm with hm | hm
    · exact .inl ⟨io, e, now, hm⟩
    · exact .inr ⟨io, e, now, (List.mem_singleton.1 hm).symm⟩
  · rintro (⟨io, e, now, hm⟩ | ⟨io, e, now, rfl⟩)
    · exact ⟨io, e, now, List.mem_append_left _ hm⟩
    · exact ⟨io, e, now, by simp⟩

/-- Where a direction is: before the connection, with its one operation, or after its first error.
`up`: the connection is made; `failed`: an error was handled. -/
inductive Stage (up failed : Prop) (ops : List Op) : Prop
  | before : ¬up → ¬failed → ops.length = 0 → Stage up failed ops
  | running : up → ¬failed → ops.length = 1 → Stage up failed ops
  | after : up → failed → ops.length = 0 → Stage up failed ops

theorem Stage.running_of_ne {up failed : Prop} {ops : List Op} (h : Stage up failed ops)
    (hne : ops ≠ []) : up ∧ ¬failed ∧ ops.length = 1 := by
  cases h with
  | before _ _ h0 | after _ _ h0 => exact absurd (List.eq_nil_of_length_eq_zero h0) hne
  | running hup hf h1 => exact ⟨hup, hf, h1⟩

theorem Turn.stage {c c' : Channel β} (ht : Turn s d c l c')
    (hi : Stage (s.connect = .handled none) (Failed d ls) c.ops) :
    Stage (s.connect = .handled none ∨
        ∃ now₁ now₂ now₃ now₄, l = .handleConnect none now₁ now₂ now₃ now₄)
      (Failed d (ls ++ [l])) c'.ops := by
  rw [failed_snoc]
  cases ht with
  | quiet hq =>
    have hfailed : ¬∃ io e now, l = .handle d io (.error e) now :=
      fun ⟨_, _, _, hl⟩ => hq.handle _ _ _ hl
    have hup : ¬∃ now₁ now₂ now₃ now₄, l = .handleConnect none now₁ now₂ now₃ now₄ :=
      fun ⟨_, _, _, _, hl⟩ => hq.connect _ _ _ _ hl
    simpa only [hfailed, hup, or_false] using hi
  | connect hconn =>
    cases hi with
    | before _ hf h0 =>
      refine .running (.inr ⟨_, _, _, _, rfl⟩) (by simpa using hf) ?_
      rw [Channel.start_length, h0]
    | running hup _ _ | after hup _ _ => rw [hconn] at hup; cases hup
  | io hs =>
    obtain ⟨hup, hf, h1⟩ := hi.running_of_ne hs.ops_ne
    exact .running (.inl hup) (by simpa using hf) (hs.ops_length.trans h1)
  | fail ht =>
    obtain ⟨hup, -, h1⟩ := hi.running_of_ne ht.ops_ne
    have hlen := ht.ops_length
    exact .after (.inl hup) (.inr ⟨_, _, _, rfl⟩) (by omega)
  | send ht | receive ht =>
    obtain ⟨hup, hf, h1⟩ := hi.running_of_ne ht.ops_ne
    have hlen := ht.ops_length
    refine .running (.inl hup) (by simpa using hf) ?_
    rw [Channel.start_length]
    omega

theorem session_stage (h : Exec (session β timeout) ls s) (d : Side) :
    Stage (s.connect = .handled none) (Failed d ls) (s.channel d).ops := by
  refine h.trace_invariant
    (I := fun ls s => Stage (s.connect = .handled none) (Failed d ls) (s.channel d).ops)
    (fun s h0 => ?_) fun ls s l s' _ hi hs => ?_
  · refine .before (by rw [h0.connect]; exact nofun) (by simp [Failed]) ?_
    rw [h0.ops d]
    rfl
  · rw [hs.connected_iff]
    exact (hs.turn d).stage hi

/-- **The proxy relays.** At all times what was written to the target is a prefix of what was
received from the client, and what was written to the client one of what was received from the
target, each at most `bufferSize` bytes behind. Once connected, each direction has exactly one
operation until it has handled its first error, and none from then on, so no receive into a buffer
is outstanding together with a write from it. -/
theorem relay_faithful (h : Exec (session β timeout) ls s) (d : Side) :
    written d ls <+: received d ls ∧
      (received d ls).length ≤ (written d ls).length + bufferSize ∧
      (s.connect = .handled none → ¬Failed d ls → ∃ o, (s.channel d).ops = [o]) ∧
      (Failed d ls → (s.channel d).ops = []) ∧
      ∀ o ∈ (s.channel d).ops, ∀ o' ∈ (s.channel d).ops,
        o.io = .receive → o.result = none → ∀ size, o'.io = .write size → o'.result ≠ none := by
  obtain ⟨held, hrelay, -⟩ := session_relays h d
  have hpre := Relay.given_prefix hrelay
  have hlag := Relay.taken_length_le hrelay
  rw [given_events, taken_events] at hpre hlag
  have hstage := session_stage h d
  refine ⟨hpre, hlag, fun hup hf => ?_, fun hf => ?_, fun o ho o' ho' hio _ size hio' => ?_⟩
  · cases hstage with
    | before hdown _ _ => exact absurd hup hdown
    | running _ _ h1 => exact List.length_eq_one_iff.1 h1
    | after _ hfailed _ => exact absurd hfailed hf
  · cases hstage with
    | before _ hf' _ | running _ hf' _ => exact absurd hf hf'
    | after _ _ h0 => exact List.eq_nil_of_length_eq_zero h0
  · obtain ⟨-, -, h1⟩ := hstage.running_of_ne (List.ne_nil_of_mem ho)
    obtain ⟨o₀, hops⟩ := List.length_eq_one_iff.1 h1
    rw [hops, List.mem_singleton] at ho ho'
    rw [ho', ← ho, hio] at hio'
    cases hio'

/-- A session before its connection is made. -/
def start : State Nat :=
  ⟨.outstanding, fun _ => true, fun _ => ⟨List.replicate bufferSize 0, []⟩,
    fun _ => ⟨⟨0, []⟩, 0⟩, 0⟩

theorem start_initial : Initial start :=
  ⟨rfl, fun _ => rfl, fun _ => List.length_replicate, fun _ => rfl, fun _ => rfl⟩

/-- Its connection is made, and both directions receive. -/
def connected : State Nat :=
  { ({ start with connect := .completed none } : State Nat).handleConnect 5 none 0 0 0 0 with
    connect := .handled none, clock := 0 }

theorem exec_connected :
    Exec (session Nat 5) [.connect none, .handleConnect none 0 0 0 0] connected := by
  have hnow : (0 : Int) ≤ 0 := Int.le_refl 0
  have h0 : Exec (session Nat 5) [] start := .init start_initial
  have h1 := h0.snoc (.connect (e := none) rfl)
  exact h1.snoc (.handleConnect rfl hnow hnow hnow hnow)

/-- Two bytes from the client, the first of them written. -/
theorem relay_faithful_partial : ∃ (ls : List (Label Nat)) (s : State Nat),
    Exec (session Nat 5) ls s ∧ received .client ls = [7, 8] ∧ written .client ls = [7] ∧
      written .client ls <+: received .client ls ∧ ∃ o, (s.channel .client).ops = [o] := by
  have hnow : (0 : Int) ≤ 0 := Int.le_refl 0
  have hchunk : [7, 8] ≠ [] := nofun
  have hpiece : [7] ≠ [] := nofun
  have h1 := exec_connected.snoc (.io (d := .client) (.deliver rfl rfl hchunk (by decide)))
  have h2 := h1.snoc (.handle (d := .client) (.intro rfl) hnow)
  have h3 := h2.snoc (.io (d := .client) (.send rfl rfl hpiece ⟨[8], rfl⟩))
  obtain ⟨hpre, -, hone, -⟩ := relay_faithful h3 .client
  exact ⟨_, _, h3, rfl, rfl, hpre, hone rfl (by simp [Failed])⟩

end Proxy
