import Snippets.Echo.Server
import Snippets.Echo.CoServer

/-!
# Echo sessions are faithful

All four sessions, of `server.cc` and of `co_server.cc`, with timeouts or with a watchdog, make
their calls in one pattern (`Effect`): what follows a receive of `n` bytes starts a write of the
first `n` bytes of the buffer, what follows a write starts a receive, and nothing else starts an
operation or touches the buffer. A session starts its first receive once (`Holds.once`), so its
channel goes through the cycle of receive and write, and from completions handed over to bytes sent
it is a bounded relay (`session_relays`). Together: `echo_faithful`.
-/

namespace Echo

open Lts Asio

variable {β : Type*} [Inhabited β] {p : Program} {timeout : Int} {withTimeout : Bool}
  {s s' : State β} {l : Label β} {ls : List (Label β)}

/-- The two source files. -/
inductive Source
  | server
  | coServer

def Source.program : Source → Int → Bool → Program
  | .server => Server.program
  | .coServer => CoServer.program

/-! ## What code does to the channel -/

/-- The operation that follows a completion. -/
def next : Io → Result → Option Io
  | .receive, .ok n => some (.write n)
  | .write _, .ok _ => some .receive
  | _, .error _ => none

/-- Code that starts the operation `io`, or none. -/
structure Effect (io : Option Io) (s s' : State β) : Prop where
  started : s'.started = s.started
  echoes : s'.spawned.count .echo = s.spawned.count .echo
  ops : s'.channel.ops = s.channel.ops ++ (io.map fun io => ⟨io, 0, none⟩).toList
  size : s'.channel.buffer.length ≤ bufferSize
  kept : io = none → s'.channel = s.channel
  filled : ∀ n, io = some (.write n) → s'.channel.buffer.take n = s.channel.buffer.take n

omit [Inhabited β] in
theorem Effect.none (hsize : s.channel.buffer.length ≤ bufferSize)
    (hstarted : s'.started = s.started) (hchannel : s'.channel = s.channel)
    (hechoes : s'.spawned.count .echo = s.spawned.count .echo) : Effect none s s' :=
  ⟨hstarted, hechoes, by rw [hchannel]; simp, by rw [hchannel]; exact hsize, fun _ => hchannel,
    nofun⟩

section
variable (timeout : Int) (withTimeout : Bool) (hsize : s.channel.buffer.length ≤ bufferSize)
  (now : Int)
include hsize

theorem server_handle {io : Io} {r : Result}
    (hn : ∀ n, io = .receive → r = .ok n → n ≤ s.channel.buffer.length) :
    Effect (next io r) s (((Server.program timeout withTimeout).handle io r).run now s) := by
  cases r with
  | error e => cases withTimeout <;> cases io <;> exact .none hsize rfl rfl rfl
  | ok n =>
    cases io with
    | receive =>
      have hmin : min n s.channel.buffer.length = n := Nat.min_eq_left (hn n rfl rfl)
      have hops : (s.channel.start (.write (min n s.channel.buffer.length))).ops =
          s.channel.ops ++ [⟨.write n, 0, none⟩] := by rw [hmin]; rfl
      cases withTimeout <;> exact ⟨rfl, rfl, hops, hsize, nofun, fun _ _ => rfl⟩
    | write size => cases withTimeout <;> exact ⟨rfl, rfl, rfl, hsize, nofun, nofun⟩

theorem server_wait (error : Option Error) :
    Effect none s (((Server.program timeout withTimeout).wait error).run now s) := by
  cases error with
  | some e => exact .none hsize rfl rfl rfl
  | none =>
    cases withTimeout with
    | true => exact .none hsize rfl rfl rfl
    | false =>
      change Effect none s (Server.startWatchdog.run now s)
      simp only [Server.startWatchdog, Code.run]
      split <;> exact .none hsize rfl rfl rfl

theorem coServer_handle {io : Io} {r : Result}
    (hn : ∀ n, io = .receive → r = .ok n → n ≤ s.channel.buffer.length) :
    Effect (next io r) s (((CoServer.program timeout withTimeout).handle io r).run now s) := by
  have hspawn : (s.spawned ++ [Coroutine.wait]).count .echo = s.spawned.count .echo := by simp
  cases r with
  | error e => cases withTimeout <;> cases io <;> exact .none hsize rfl rfl rfl
  | ok n =>
    cases io with
    | receive =>
      have hlen := hn n rfl rfl
      have hops : ∀ c : Channel β, c.buffer.length = n → c.ops = s.channel.ops →
          (c.start (.write c.buffer.length)).ops = s.channel.ops ++ [⟨.write n, 0, none⟩] := by
        intro c hc hc'
        rw [hc, Channel.start, hc']
      have hops := hops ⟨resize n s.channel.buffer, s.channel.ops⟩ (resize_length n _) rfl
      have hsize' : (resize n s.channel.buffer).length ≤ bufferSize := by
        rw [resize_length]
        exact Nat.le_trans hlen hsize
      have hfilled : ∀ m, some (Io.write n) = some (.write m) →
          (resize n s.channel.buffer).take m = s.channel.buffer.take m := by
        intro m hm
        cases hm
        rw [resize_take hlen, List.take_take, Nat.min_self]
      have hkept : some (Io.write n) ≠ none := Option.some_ne_none _
      cases withTimeout with
      | true => exact ⟨rfl, hspawn, hops, hsize', (absurd · hkept), hfilled⟩
      | false => exact ⟨rfl, rfl, hops, hsize', (absurd · hkept), hfilled⟩
    | write size =>
      have hsize' : (resize bufferSize s.channel.buffer).length ≤ bufferSize :=
        Nat.le_of_eq (resize_length ..)
      have hkept : some Io.receive ≠ none := Option.some_ne_none _
      have hfilled : ∀ m, some Io.receive ≠ some (.write m) := by simp
      cases withTimeout with
      | true =>
        exact ⟨rfl, hspawn, rfl, hsize', (absurd · hkept), fun m h => absurd h (hfilled m)⟩
      | false => exact ⟨rfl, rfl, rfl, hsize', (absurd · hkept), fun m h => absurd h (hfilled m)⟩

theorem coServer_wait (error : Option Error) :
    Effect none s (((CoServer.program timeout withTimeout).wait error).run now s) := by
  cases withTimeout with
  | true => cases error <;> exact .none hsize rfl rfl rfl
  | false =>
    cases error with
    | some e => exact .none hsize rfl rfl rfl
    | none =>
      change Effect none s (CoServer.watch.run now s)
      simp only [CoServer.watch, Code.run]
      split <;> exact .none hsize rfl rfl rfl

/-- Only the `echo` coroutine begins with an operation. -/
theorem coServer_begin (c : Coroutine) :
    Effect (if c = .echo then some .receive else none) s
      (((CoServer.program timeout withTimeout).begin c).run now s) := by
  have hspawn : (s.spawned ++ [Coroutine.wait]).count .echo = s.spawned.count .echo := by simp
  have hsize' : (resize bufferSize s.channel.buffer).length ≤ bufferSize :=
    Nat.le_of_eq (resize_length ..)
  cases c with
  | echo =>
    cases withTimeout with
    | true => exact ⟨rfl, hspawn, rfl, hsize', nofun, nofun⟩
    | false => exact ⟨rfl, rfl, rfl, hsize', nofun, nofun⟩
  | wait => exact .none hsize rfl rfl rfl
  | watch =>
    change Effect none s (CoServer.watch.run now s)
    simp only [CoServer.watch, Code.run]
    split <;> exact .none hsize rfl rfl rfl

end

/-! ## The invariant -/

/-- The channel of a session that was handed over the bytes `held` more than it wrote. -/
inductive Flow (c : Channel β) (held : List β) : Prop
  | idle : c.ops = [] → Flow c held
  | receive {got : List β} {o : Op} : c.Cycle bufferSize got → c.ops = [o] → o.io = .receive →
      held = [] → Flow c held
  | write {o : Op} {size : Nat} : c.Cycle bufferSize held → c.ops = [o] → o.io = .write size →
      Flow c held

/-- `once`: the first receive is started once, by `start (..)` or by the `echo` coroutine. -/
structure Holds (s : State β) (held : List β) : Prop where
  flow : Flow s.channel held
  size : s.channel.buffer.length ≤ bufferSize
  once : (if s.started then 0 else 1) + s.spawned.count .echo + s.channel.ops.length ≤ 1
  fresh : s.started = false ∨ .echo ∈ s.spawned → held = []

/-- What a step means at the relay. -/
def events : Label β → List (Relay.Event β)
  | .handle .receive (.ok _) data _ => [.take data]
  | .io (.send piece) => [.give piece]
  | _ => []

section
omit [Inhabited β]
variable {held : List β}

theorem taken_events (ls : List (Label β)) : Relay.taken (ls.flatMap events) = received ls := by
  unfold Relay.taken received
  rw [List.flatMap_assoc]
  congr 1
  funext l
  rcases l with _ | _ | e | ⟨io, r, data, now⟩ | _ | _
  · rfl
  · rfl
  · cases e <;> rfl
  · cases io <;> cases r <;> simp [events]
  · rfl
  · rfl

theorem given_events (ls : List (Label β)) : Relay.given (ls.flatMap events) = sent ls := by
  unfold Relay.given sent
  rw [List.flatMap_assoc]
  congr 1
  funext l
  rcases l with _ | _ | e | ⟨io, r, data, now⟩ | _ | _
  · rfl
  · rfl
  · cases e <;> simp [events]
  · cases io <;> cases r <;> rfl
  · rfl
  · rfl

theorem Holds.later (hh : Holds s held) (t : Int) : Holds { s with clock := t } held :=
  ⟨hh.flow, hh.size, hh.once, hh.fresh⟩

theorem Holds.timed (hh : Holds s held) (t : Timer) : Holds { s with timer := t } held :=
  ⟨hh.flow, hh.size, hh.once, hh.fresh⟩

theorem Holds.quiet (hh : Holds s held) (he : Effect none s s') : Holds s' held := by
  have hc := he.kept rfl
  refine ⟨hc ▸ hh.flow, he.size, ?_, fun h => hh.fresh ?_⟩
  · rw [he.started, he.echoes, hc]
    exact hh.once
  · rw [← he.started, ← List.count_pos_iff, ← he.echoes, List.count_pos_iff]
    exact h

theorem Holds.launch (he : Effect (some .receive) s s') (hstarted : s.started = true)
    (hechoes : s.spawned.count .echo = 0) (hops : s.channel.ops = []) : Holds s' [] := by
  have hops' : s'.channel.ops = [⟨.receive, 0, none⟩] := by
    rw [he.ops, hops]
    rfl
  have hcycle : s'.channel.Cycle bufferSize [] := by
    generalize s'.channel = c at hops'
    obtain ⟨b, ops⟩ := c
    obtain rfl : ops = _ := hops'
    exact .receive
  refine ⟨.receive hcycle hops' rfl rfl, he.size, ?_, fun _ => rfl⟩
  rw [he.started, hstarted, he.echoes, hechoes, hops']
  exact Nat.le_refl 1

theorem Holds.write (he : Effect (some (.write held.length)) s s') (hstarted : s.started = true)
    (hechoes : s.spawned.count .echo = 0) (hops : s.channel.ops = [])
    (hheld : s.channel.buffer.take held.length = held) : Holds s' held := by
  have hops' : s'.channel.ops = [⟨.write held.length, 0, none⟩] := by
    rw [he.ops, hops]
    rfl
  have htake : s'.channel.buffer.take held.length = held := (he.filled _ rfl).trans hheld
  refine ⟨.write ?_ hops' rfl, he.size, ?_, fun h => absurd h ?_⟩
  · generalize s'.channel = c at hops' htake
    obtain ⟨b, ops⟩ := c
    obtain rfl : ops = _ := hops'
    exact Channel.cycle_write htake
  · rw [he.started, hstarted, he.echoes, hechoes, hops']
    exact Nat.le_refl 1
  · rw [he.started, hstarted, ← List.count_pos_iff, he.echoes, hechoes]
    simp

/-- A session with an operation has started, and its `echo` coroutine has begun. -/
theorem Holds.running (hh : Holds s held) (hne : s.channel.ops ≠ []) :
    s.started = true ∧ s.spawned.count .echo = 0 ∧ s.channel.ops.length = 1 := by
  have hpos := List.length_pos_of_ne_nil hne
  have honce := hh.once
  cases hs : s.started with
  | false =>
    rw [hs] at honce
    simp only [Bool.false_eq_true, if_false] at honce
    omega
  | true => exact ⟨rfl, by omega, by omega⟩

theorem Flow.step {c c' : Channel β} {e : Asio.Event β} {opened : Bool} (hf : Flow c held)
    (hsize : c.buffer.length ≤ bufferSize) (hs : c.Step c.buffer.length opened opened e c') :
    ∃ held', Run (Relay.relay β bufferSize) held (events (.io e)) held' ∧ Flow c' held' := by
  have hs' := hs.mono hsize
  have hio := hs.io_eq
  have hone : ∀ o, c.ops = [o] → ∃ o', c'.ops = [o'] ∧ o'.io = o.io := by
    intro o ho
    rw [ho] at hio
    obtain ⟨o', ho'⟩ := List.length_eq_one_iff.1 (hs.ops_length.trans (by rw [ho]; rfl))
    rw [ho'] at hio
    exact ⟨o', ho', (List.cons.inj hio).1⟩
  cases hf with
  | idle hops => exact absurd hops hs.ops_ne
  | @receive got o hc hops hkind hheld =>
    obtain ⟨o', hops', hkind'⟩ := hone o hops
    obtain ⟨got', -, hc'⟩ := hc.step hs'
    refine ⟨held, ?_, .receive hc' hops' (hkind'.trans hkind) hheld⟩
    cases hs with
    | deliver | finish | fail => exact .nil _
    | send _ hw =>
      rw [hops] at hw
      obtain ⟨-, -, rfl⟩ := singleton_ops hw
      cases hkind
  | @write o size hc hops hkind =>
    obtain ⟨o', hops', hkind'⟩ := hone o hops
    obtain ⟨held', hrun, hc'⟩ := hc.step hs'
    refine ⟨held', ?_, .write hc' hops' (hkind'.trans hkind)⟩
    cases hs with
    | send | finish | fail => exact hrun
    | deliver _ hr =>
      rw [hops] at hr
      obtain ⟨-, -, rfl⟩ := singleton_ops hr
      cases hkind

end

/-! ## The relay -/

section
variable {src : Source} {held : List β}

theorem source_handle (src : Source) (timeout : Int) (withTimeout : Bool) (io : Io) (r : Result)
    (hsize : s.channel.buffer.length ≤ bufferSize) (now : Int)
    (hn : ∀ n, io = .receive → r = .ok n → n ≤ s.channel.buffer.length) :
    Effect (next io r) s (((src.program timeout withTimeout).handle io r).run now s) := by
  cases src with
  | server => exact server_handle timeout withTimeout hsize now hn
  | coServer => exact coServer_handle timeout withTimeout hsize now hn

theorem source_wait (src : Source) (timeout : Int) (withTimeout : Bool)
    (hsize : s.channel.buffer.length ≤ bufferSize) (now : Int) (error : Option Error) :
    Effect none s (((src.program timeout withTimeout).wait error).run now s) := by
  cases src with
  | server => exact server_wait timeout withTimeout hsize now error
  | coServer => exact coServer_wait timeout withTimeout hsize now error

theorem Holds.start {now₁ now₂ : Int} (hh : Holds s held) (hstarted : s.started = false) :
    Holds ((src.program timeout withTimeout).start₂.run now₂
      ((src.program timeout withTimeout).start₁.run now₁ { s with started := true })) held := by
  obtain rfl := hh.fresh (.inl hstarted)
  have honce := hh.once
  rw [hstarted] at honce
  simp only [Bool.false_eq_true, if_false] at honce
  have hops : s.channel.ops = [] := List.eq_nil_of_length_eq_zero (by omega)
  have hechoes : s.spawned.count .echo = 0 := by omega
  cases src with
  | server =>
    have hfirst : Effect (some .receive) { s with started := true }
        ((Server.program timeout withTimeout).start₁.run now₁ { s with started := true }) := by
      cases withTimeout <;> exact ⟨rfl, rfl, rfl, hh.size, nofun, nofun⟩
    have hlaunch := Holds.launch hfirst rfl hechoes hops
    refine hlaunch.quiet ?_
    cases withTimeout with
    | true => exact .none hlaunch.size rfl rfl rfl
    | false => exact server_wait timeout false hlaunch.size now₂ none
  | coServer =>
    have hcount : (s.spawned ++ [Coroutine.echo]).count .echo = 1 := by simp [hechoes]
    have hcount' : ((s.spawned ++ [Coroutine.echo]) ++ [Coroutine.watch]).count .echo = 1 := by
      simp [hechoes]
    have hone : ∀ spawned : List Coroutine, spawned.count .echo = 1 →
        Holds { s with started := true, spawned := spawned } [] := by
      intro spawned hspawned
      refine ⟨.idle hops, hh.size, ?_, fun _ => rfl⟩
      change 0 + spawned.count .echo + s.channel.ops.length ≤ 1
      rw [hspawned, hops]
      exact Nat.le_refl 1
    cases withTimeout with
    | true => exact hone _ hcount
    | false => exact hone _ hcount'

theorem Holds.begin {l₁ l₂ : List Coroutine} {c : Coroutine} {now : Int} (hh : Holds s held)
    (hspawned : s.spawned = l₁ ++ c :: l₂) :
    Holds (((src.program timeout withTimeout).begin c).run now { s with spawned := l₁ ++ l₂ })
      held := by
  have hcount : s.spawned.count .echo = (l₁ ++ l₂).count .echo + if c = .echo then 1 else 0 := by
    rw [hspawned]
    simp only [List.count_append, List.count_cons, beq_iff_eq]
    omega
  have honce := hh.once
  have hless : Holds { s with spawned := l₁ ++ l₂ } held := by
    refine ⟨hh.flow, hh.size, ?_, fun h => hh.fresh (h.imp_right fun hm => ?_)⟩
    · change (if s.started then 0 else 1) + (l₁ ++ l₂).count .echo + s.channel.ops.length ≤ 1
      omega
    · rw [hspawned, List.mem_append, List.mem_cons]
      exact (List.mem_append.1 hm).imp_right .inr
  cases src with
  | server => exact hless
  | coServer =>
    have he := coServer_begin timeout withTimeout (s := { s with spawned := l₁ ++ l₂ })
      hh.size now c
    by_cases hc : c = .echo
    · subst hc
      rw [if_pos rfl] at he hcount
      obtain rfl := hh.fresh (.inr (by rw [hspawned]; simp))
      have hstarted : s.started = true := by
        by_contra hs
        rw [if_neg hs] at honce
        omega
      have hzero : (l₁ ++ l₂).count .echo = 0 := by omega
      have hops : s.channel.ops = [] := List.eq_nil_of_length_eq_zero (by omega)
      exact .launch he hstarted hzero hops
    · rw [if_neg hc] at he
      exact hless.quiet he

section
variable {io : Io} {r : Result} {c : Channel β}

omit [Inhabited β] in
/-- The operation that is taken was the only one. -/
theorem Holds.completed (hh : Holds s held) (ht : s.channel.Takes io r c) :
    s.started = true ∧ s.spawned.count .echo = 0 ∧ c.ops = [] ∧ c.buffer = s.channel.buffer ∧
      c.buffer.length ≤ bufferSize := by
  obtain ⟨hstarted, hechoes, hlen⟩ := hh.running ht.ops_ne
  have hone := ht.ops_length
  have hbuffer : c.buffer = s.channel.buffer := by
    cases ht
    rfl
  exact ⟨hstarted, hechoes, List.eq_nil_of_length_eq_zero (by omega), hbuffer, hbuffer ▸ hh.size⟩

theorem Holds.handle_error {e : Error} {now : Int} (hh : Holds s held)
    (ht : s.channel.Takes io (.error e) c) :
    Holds (((src.program timeout withTimeout).handle io (.error e)).run now
      { s with channel := c }) held := by
  obtain ⟨hstarted, hechoes, hnil, -, hsize⟩ := hh.completed ht
  have hidle : Holds { s with channel := c } held := by
    refine ⟨.idle hnil, hsize, ?_, fun h => absurd h ?_⟩
    · change (if s.started then 0 else 1) + s.spawned.count .echo + c.ops.length ≤ 1
      rw [hstarted, hechoes, hnil]
      exact Nat.zero_le 1
    · change ¬(s.started = false ∨ .echo ∈ s.spawned)
      rw [hstarted, ← List.count_pos_iff, hechoes]
      simp
  have he := source_handle src timeout withTimeout io (.error e) (s := { s with channel := c })
    hsize now nofun
  cases io with
  | receive => exact hidle.quiet he
  | write size => exact hidle.quiet he

theorem Holds.handle_received {n : Nat} {now : Int} (hh : Holds s held)
    (ht : s.channel.Takes .receive (.ok n) c) :
    ∃ held', Run (Relay.relay β bufferSize) held
        (events (.handle .receive (.ok n) (handed .receive (.ok n) s.channel.buffer) now)) held' ∧
      Holds (((src.program timeout withTimeout).handle .receive (.ok n)).run now
        { s with channel := c }) held' := by
  obtain ⟨hstarted, hechoes, hnil, hbuffer, hsize⟩ := hh.completed ht
  cases hh.flow with
  | idle hops => exact absurd hops ht.ops_ne
  | write hc hops hkind => exact nomatch hkind.symm.trans (ht.io_eq hops)
  | @receive got o hc hops hkind hheld =>
    subst hheld
    obtain ⟨-, rfl, hcap, -, b, hb⟩ := hc.received_eq ht
    have htake : s.channel.buffer.take got.length = got := by rw [hb, List.take_left]
    have he := source_handle src timeout withTimeout .receive (.ok got.length)
      (s := { s with channel := c }) hsize now
      fun m _ hm => by
        cases hm
        change got.length ≤ c.buffer.length
        rw [hbuffer, hb, List.length_append]
        exact Nat.le_add_right ..
    refine ⟨got, ?_, .write he hstarted hechoes hnil (hbuffer ▸ htake)⟩
    change Run _ [] [Relay.Event.take (s.channel.buffer.take got.length)] got
    rw [htake]
    exact .single (.take hcap)

theorem Holds.handle_written {size n : Nat} {now : Int} (hh : Holds s held)
    (ht : s.channel.Takes (.write size) (.ok n) c) :
    ∃ held', Run (Relay.relay β bufferSize) held
        (events (.handle (.write size) (.ok n) (handed (.write size) (.ok n) s.channel.buffer) now))
        held' ∧
      Holds (((src.program timeout withTimeout).handle (.write size) (.ok n)).run now
        { s with channel := c }) held' := by
  obtain ⟨hstarted, hechoes, hnil, -, hsize⟩ := hh.completed ht
  cases hh.flow with
  | idle hops => exact absurd hops ht.ops_ne
  | receive hc hops hkind => exact nomatch hkind.symm.trans (ht.io_eq hops)
  | write hc hops hkind =>
    obtain ⟨-, rfl⟩ := hc.written_eq ht
    have he := source_handle src timeout withTimeout (.write size) (.ok n)
      (s := { s with channel := c }) hsize now nofun
    exact ⟨[], .nil _, .launch he hstarted hechoes hnil⟩

end

theorem Holds.handle {io : Io} {r : Result} {now : Int} {c : Channel β} (hh : Holds s held)
    (ht : s.channel.Takes io r c) :
    ∃ held', Run (Relay.relay β bufferSize) held
        (events (.handle io r (handed io r s.channel.buffer) now)) held' ∧
      Holds (((src.program timeout withTimeout).handle io r).run now { s with channel := c })
        held' := by
  cases r with
  | error e => exact ⟨held, by cases io <;> exact .nil _, hh.handle_error ht⟩
  | ok n =>
    cases io with
    | receive => exact hh.handle_received ht
    | write size => exact hh.handle_written ht

theorem Holds.step (hh : Holds s held) (h : Step (src.program timeout withTimeout) s l s') :
    ∃ held', Run (Relay.relay β bufferSize) held (events l) held' ∧ Holds s' held' := by
  cases h with
  | start hstarted => exact ⟨held, .nil _, (hh.start hstarted).later _⟩
  | begin hspawned => exact ⟨held, .nil _, (hh.begin hspawned).later _⟩
  | @io e c hs =>
    obtain ⟨held', hrun, hflow⟩ := hh.flow.step hh.size hs
    refine ⟨held', hrun, hflow, ?_, ?_, fun h => ?_⟩
    · exact Nat.le_trans (Nat.le_of_eq hs.buffer_length) hh.size
    · change (if s.started then 0 else 1) + s.spawned.count .echo + c.ops.length ≤ 1
      rw [hs.ops_length]
      exact hh.once
    · obtain ⟨hstarted, hechoes, -⟩ := hh.running hs.ops_ne
      change s.started = false ∨ .echo ∈ s.spawned at h
      rw [hstarted, ← List.count_pos_iff, hechoes] at h
      simp at h
  | handle ht =>
    obtain ⟨held', hrun, hh'⟩ := hh.handle ht
    exact ⟨held', hrun, hh'.later _⟩
  | @expire t now => exact ⟨held, .nil _, (hh.timed t).later now⟩
  | @handleWait t error now =>
    have he := source_wait src timeout withTimeout (hh.timed t).size now error
    exact ⟨held, .nil _, ((hh.timed t).quiet he).later now⟩

/-- Every session is a bounded relay, from the completions handed over to the bytes written. -/
theorem session_relays (h : Exec (session β (src.program timeout withTimeout)) ls s) :
    ∃ held, Exec (Relay.relay β bufferSize) (ls.flatMap events) held ∧ Holds s held := by
  refine h.simulate (R := Holds) (fun s (h0 : Initial _ s) => ⟨[], rfl, ?_⟩)
    fun s l s' held hh hs => hh.step hs
  refine ⟨.idle h0.ops, ?_, ?_, fun _ => rfl⟩
  · rw [h0.buffer]
    cases src with
    | server => exact Nat.le_refl _
    | coServer => exact Nat.zero_le _
  · rw [h0.started, h0.spawned, h0.ops]
    exact Nat.le_refl 1

/-- No step touches the buffer while a write from it is outstanding. -/
theorem Holds.buffer_kept {size sent : Nat} (hh : Holds s held)
    (h : Step (src.program timeout withTimeout) s l s')
    (hw : ⟨.write size, sent, none⟩ ∈ s.channel.ops) : s'.channel.buffer = s.channel.buffer := by
  obtain ⟨hstarted, hechoes, hlen⟩ := hh.running (List.ne_nil_of_mem hw)
  obtain ⟨o, ho⟩ := List.length_eq_one_iff.1 hlen
  rw [ho, List.mem_singleton] at hw
  subst hw
  cases h with
  | start hnew => rw [hstarted] at hnew; cases hnew
  | @begin l₁ l₂ c now hspawned =>
    have hc : c ≠ .echo := fun hc => by
      rw [hspawned, hc] at hechoes
      simp at hechoes
    cases src with
    | server => rfl
    | coServer =>
      have he := coServer_begin timeout withTimeout (s := { s with spawned := l₁ ++ l₂ })
        hh.size now c
      rw [if_neg hc] at he
      exact congrArg Channel.buffer (he.kept rfl)
  | io hs =>
    cases hs with
    | deliver _ hr =>
      rw [ho] at hr
      cases (singleton_ops hr).2.2
    | send | finish | fail => rfl
  | handle ht =>
    cases ht with
    | intro hr =>
      rw [ho] at hr
      cases (singleton_ops hr).2.2
  | expire => rfl
  | @handleWait t error now =>
    have he := source_wait src timeout withTimeout (s := { s with timer := t })
      hh.size now error
    exact congrArg Channel.buffer (he.kept rfl)

/-- **Echo sessions are faithful.** In every session of `server.cc` and of `co_server.cc`, with
timeouts or with a watchdog, the bytes sent are at all times a prefix of the bytes received and at
most `bufferSize` behind, and all of them while a receive is outstanding. At most one socket
operation is outstanding, and no step resizes or refills the buffer while a write from it is. -/
theorem echo_faithful (h : Exec (session β (src.program timeout withTimeout)) ls s) :
    sent ls <+: received ls ∧ (received ls).length ≤ (sent ls).length + bufferSize ∧
      (∀ n, ⟨.receive, n, none⟩ ∈ s.channel.ops → sent ls = received ls) ∧
      s.channel.ops.length ≤ 1 ∧
      ∀ l s', Step (src.program timeout withTimeout) s l s' → ∀ size n,
        ⟨.write size, n, none⟩ ∈ s.channel.ops → s'.channel.buffer = s.channel.buffer := by
  obtain ⟨held, hrelay, hh⟩ := session_relays h
  have heq := Relay.taken_eq hrelay
  have hpre := Relay.given_prefix hrelay
  have hlag := Relay.taken_length_le hrelay
  rw [taken_events, given_events] at heq hpre hlag
  refine ⟨hpre, hlag, fun n hn => ?_, by have := hh.once; omega,
    fun l s' hs size n hw => hh.buffer_kept hs hw⟩
  cases hh.flow with
  | idle hops => rw [hops] at hn; cases hn
  | receive _ _ _ hheld => rw [heq, hheld, List.append_nil]
  | write _ hops hkind =>
    rw [hops, List.mem_singleton] at hn
    subst hn
    cases hkind

end

/-- A session of `server.cc`. -/
def fresh : State Nat :=
  ⟨false, true, ⟨List.replicate bufferSize 0, []⟩, ⟨0, []⟩, 0, [], 0⟩

theorem fresh_initial (timeout : Int) (withTimeout : Bool) :
    Initial (Server.program timeout withTimeout) fresh :=
  ⟨rfl, rfl, List.length_replicate, rfl, rfl, rfl, rfl⟩

/-- Two bytes are received, and the first of them is sent back. -/
theorem echo_faithful_partial : ∃ (ls : List (Label Nat)) (s : State Nat),
    Exec (session Nat (Source.server.program 5 false)) ls s ∧ received ls = [7, 8] ∧
      sent ls = [7] ∧ sent ls <+: received ls ∧ s.channel.ops.length ≤ 1 := by
  have hnow : (0 : Int) ≤ 0 := Int.le_refl 0
  have hchunk : [7, 8] ≠ [] := nofun
  have hpiece : [7] ≠ [] := nofun
  have hlen : [7, 8].length ≤ (List.replicate bufferSize 0).length := by
    rw [List.length_replicate]
    decide
  have h0 : Exec (session Nat (Source.server.program 5 false)) [] fresh :=
    .init (fresh_initial 5 false)
  have h1 := h0.snoc (.start rfl hnow hnow)
  have h2 := h1.snoc (.io (.deliver_head rfl rfl hchunk hlen))
  have h3 := h2.snoc (.handle (.head rfl) hnow)
  have h4 := h3.snoc (.io (.send_head rfl rfl hpiece (by
    simp [Program.handle, Source.program, Server.program, Server.handleReceive,
      Server.sendWithWatchdog, Server.receiveWithWatchdog, Server.startWatchdog, Code.run,
      State.call, Channel.start, fresh])))
  obtain ⟨hpre, -, -, hone, -⟩ := echo_faithful h4
  exact ⟨_, _, h4, rfl, rfl, hpre, hone⟩

end Echo
