import Snippets.Echo.Server
import Snippets.Echo.CoServer

/-!
# Callbacks and coroutines agree

The watchdog sessions of `server.cc` and of `co_server.cc` are fed with the same events: completions
of the operation and of the wait that are outstanding, with the clock readings at which they are
handled. `Output` is what a session does with it: the operations that it starts, with their byte
counts, the expiries that it arms its timer with, and `close ()`. The two sessions differ in when
they set `deadline_` and in their buffers, but what is outstanding and the deadlines agree after
every event (`Agree.feed`), so up to the first error or close of the socket their outputs are the
same (`watchdogs_agree`).
-/

namespace Echo

open Asio

variable {β : Type*} [Inhabited β] {timeout now now₁ now₂ : Int}

/-! ## Sessions fed with events -/

/-- What a session does that can be seen from outside: the operations that it starts, the expiries
that it arms its timer with, and `close ()`. -/
inductive Output
  | receive (size : Nat)
  | write (bytes : Nat)
  | arm (expiry : Int)
  | close
  deriving DecidableEq

/-- What can be seen of a call. -/
def Call.output (s : State β) : Call → List Output
  | .receive => [.receive s.channel.buffer.length]
  | .write bytes => [.write (min bytes s.channel.buffer.length)]
  | .writeBuffer => [.write s.channel.buffer.length]
  | .asyncWait => [.arm s.timer.expiry]
  | .close => [.close]
  | _ => []

/-- The outputs of code that runs at the clock reading `now`. -/
def Code.outputs (now : Int) : Code → State β → List Output
  | .done, _ => []
  | .call c k, s => c.output s ++ k.outputs now (s.call c)
  | .now k, s => (k now).outputs now s
  | .deadline k, s => (k s.deadline).outputs now s

/-- The state after a piece of code, and its outputs. -/
def Code.exec (now : Int) (k : Code) (s : State β) : State β × List Output :=
  (k.run now s, k.outputs now s)

/-- What a session is fed with. -/
inductive Fed
  | receive (r : Result) (now : Int)
  | write (error : Option Error) (now : Int)
  | wait (error : Option Error) (now : Int)

/-- An operation failed. -/
def Fed.Failed : Fed → Bool
  | .receive (.error _) _ => true
  | .write (some _) _ => true
  | _ => false

/-- One event; `none` if no such operation or wait is outstanding. -/
def Program.feed (p : Program) (s : State β) : Fed → Option (State β × List Output)
  | .receive r now =>
    match s.channel.ops with
    | [⟨.receive, 0, none⟩] =>
      if r.toOption.getD 0 ≤ s.channel.buffer.length then
        some ((p.receive r).exec now { s with channel := { s.channel with ops := [] } })
      else none
    | _ => none
  | .write error now =>
    match s.channel.ops with
    | [⟨.write size, 0, none⟩] =>
      some ((p.write (error.elim (.ok size) .error)).exec now
        { s with channel := { s.channel with ops := [] } })
    | _ => none
  | .wait error now =>
    match s.timer.waits with
    | [.outstanding] =>
      some ((p.wait error).exec now { s with timer := { s.timer with waits := [] } })
    | _ => none

/-- The outputs, event by event, up to the first operation that fails and to the first `close ()`;
`none` if an event does not fit. -/
def Program.trace (p : Program) (s : State β) : List Fed → Option (List (List Output))
  | [] => some []
  | e :: es =>
    match p.feed s e with
    | none => none
    | some (s', outputs) =>
      if e.Failed then some []
      else if .close ∈ outputs then some [outputs]
      else (p.trace s' es).map (outputs :: ·)

/-- A new session of `server.cc` is started. -/
def Server.launch (timeout now₁ now₂ : Int) (s : State β) : State β × List Output :=
  let p := Server.program timeout false
  let (s₁, outputs₁) := p.start₁.exec now₁ s
  let (s₂, outputs₂) := p.start₂.exec now₂ s₁
  (s₂, outputs₁ ++ outputs₂)

/-- A new session of `co_server.cc` is started, and its two coroutines begin. No event comes between
their beginnings: `start_with_watchdog ()` is one segment of session code, so both are spawned on
the strand before anything completes. -/
def CoServer.launch (timeout now₁ now₂ : Int) (s : State β) : State β × List Output :=
  let p := CoServer.program timeout false
  let (s₁, outputs₁) := p.start₁.exec now₁ s
  let (s₂, outputs₂) := (p.begin .echo).exec now₁ { s₁ with spawned := [.watch] }
  let (s₃, outputs₃) := (p.begin .watch).exec now₂ { s₂ with spawned := [] }
  (s₃, outputs₁ ++ outputs₂ ++ outputs₃)

/-- The outputs of `start (false)` and then of the events. -/
def Program.session (p : Program) (launched : State β × List Output) (es : List Fed) :
    Option (List (List Output)) :=
  if .close ∈ launched.2 then some [launched.2]
  else (p.trace launched.1 es).map (launched.2 :: ·)

/-! ## The simulation -/

/-- A session of `server.cc` and one of `co_server.cc` with the same operation, wait and deadline
outstanding. -/
structure Agree (s t : State β) : Prop where
  ops : t.channel.ops = s.channel.ops
  waits : t.timer.waits = s.timer.waits
  deadline : t.deadline = s.deadline
  size : s.channel.buffer.length = bufferSize
  room : ∀ n, ⟨.receive, n, none⟩ ∈ s.channel.ops → t.channel.buffer.length = bufferSize

/-- What a session of `server.cc` and one of `co_server.cc` make of one event. -/
inductive Matched (e : Fed) : Option (State β × List Output) → Option (State β × List Output) → Prop
  | none : Matched e none none
  | failed {x y : State β × List Output} : e.Failed = true → Matched e (some x) (some y)
  | both {s t : State β} {outputs : List Output} : (.close ∉ outputs → Agree s t) →
      Matched e (some (s, outputs)) (some (t, outputs))

theorem Agree.feed_receive {s t : State β} {r : Result} (h : Agree s t) :
    Matched (.receive r now) ((Server.program timeout false).feed s (.receive r now))
      ((CoServer.program timeout false).feed t (.receive r now)) := by
  simp only [Program.feed, h.ops]
  split
  · rename_i hops
    have hroom := h.room 0 (by rw [hops]; simp)
    rw [h.size, hroom]
    split
    · rename_i hn
      cases r with
      | error e => exact .failed rfl
      | ok n =>
        have hmin : min n s.channel.buffer.length = n := by
          rw [h.size]
          exact Nat.min_eq_left hn
        have hlen : (resize n t.channel.buffer).length = n := resize_length ..
        let s' : State β := { s with
          channel := ⟨s.channel.buffer, [⟨.write (min n s.channel.buffer.length), 0, none⟩]⟩
          deadline := now + timeout }
        let t' : State β := { t with
          channel := ⟨resize n t.channel.buffer,
            [⟨.write (resize n t.channel.buffer).length, 0, none⟩]⟩
          deadline := now + timeout }
        change Matched _ (some (s', [.write (min n s.channel.buffer.length)]))
          (some (t', [.write (resize n t.channel.buffer).length]))
        rw [hmin, hlen]
        refine .both fun _ => ⟨?_, h.waits, rfl, h.size, fun m hm => ?_⟩
        · change [(⟨.write (resize n t.channel.buffer).length, 0, none⟩ : Op)] =
            [⟨.write (min n s.channel.buffer.length), 0, none⟩]
          rw [hmin, hlen]
        · cases List.mem_singleton.1 hm
    · exact .none
  · exact .none

theorem Agree.feed_write {s t : State β} {error : Option Error} (h : Agree s t) :
    Matched (.write error now) ((Server.program timeout false).feed s (.write error now))
      ((CoServer.program timeout false).feed t (.write error now)) := by
  simp only [Program.feed, h.ops]
  split
  · cases error with
    | some e => exact .failed rfl
    | none =>
      have hlen : (resize bufferSize t.channel.buffer).length = bufferSize := resize_length ..
      let s' : State β := { s with
        channel := ⟨s.channel.buffer, [⟨.receive, 0, none⟩]⟩
        deadline := now + timeout }
      let t' : State β := { t with
        channel := ⟨resize bufferSize t.channel.buffer, [⟨.receive, 0, none⟩]⟩
        deadline := now + timeout }
      change Matched _ (some (s', [.receive s.channel.buffer.length]))
        (some (t', [.receive (resize bufferSize t.channel.buffer).length]))
      rw [hlen, h.size]
      exact .both fun _ => ⟨rfl, h.waits, rfl, h.size, fun _ _ => hlen⟩
  · exact .none

theorem Agree.feed_wait {s t : State β} {error : Option Error} (h : Agree s t) :
    Matched (.wait error now) ((Server.program timeout false).feed s (.wait error now))
      ((CoServer.program timeout false).feed t (.wait error now)) := by
  simp only [Program.feed, h.waits]
  split
  · cases error with
    | some e =>
      change Matched _ (some (_, [])) (some (_, []))
      exact .both fun _ => ⟨h.ops, rfl, h.deadline, h.size, h.room⟩
    | none =>
      change Matched _ (some (Server.startWatchdog.exec now _)) (some (CoServer.watch.exec now _))
      simp only [Code.exec, Server.startWatchdog, CoServer.watch, Code.run, Code.outputs,
        h.deadline]
      split
      · change Matched _ (some (_, [.close])) (some (_, [.close]))
        exact .both fun hc => absurd (List.mem_singleton_self _) hc
      · change Matched _ (some (_, [.arm s.deadline])) (some (_, [.arm s.deadline]))
        exact .both fun _ => ⟨h.ops, rfl, rfl, h.size, h.room⟩
  · exact .none

theorem Agree.feed {s t : State β} (h : Agree s t) (timeout : Int) (e : Fed) :
    Matched e ((Server.program timeout false).feed s e)
      ((CoServer.program timeout false).feed t e) := by
  cases e with
  | receive => exact h.feed_receive
  | write => exact h.feed_write
  | wait => exact h.feed_wait

/-- Sessions that agree make the same of all further events. -/
theorem Agree.trace {s t : State β} (h : Agree s t) (es : List Fed) :
    (Server.program timeout false).trace s es = (CoServer.program timeout false).trace t es := by
  induction es generalizing s t with
  | nil => rfl
  | cons e es ih =>
    have hmatched := h.feed timeout e
    simp only [Program.trace]
    revert hmatched
    generalize (Server.program timeout false).feed s e = x
    generalize (CoServer.program timeout false).feed t e = y
    intro hmatched
    cases hmatched with
    | none => rfl
    | failed hf =>
      dsimp only
      rw [if_pos hf, if_pos hf]
    | @both s' t' outputs hagree =>
      dsimp only
      by_cases hclose : .close ∈ outputs
      · rw [if_pos hclose, if_pos hclose]
      · rw [if_neg hclose, if_neg hclose, ih (hagree hclose)]

/-- The sessions receive, and then arm their watchdogs or close. -/
theorem launch_agree {s t : State β} (hs : Initial (Server.program timeout false) s)
    (ht : Initial (CoServer.program timeout false) t) (now₁ now₂ : Int) :
    (Server.launch timeout now₁ now₂ s).2 = (CoServer.launch timeout now₁ now₂ t).2 ∧
      (.close ∉ (Server.launch timeout now₁ now₂ s).2 →
        Agree (Server.launch timeout now₁ now₂ s).1 (CoServer.launch timeout now₁ now₂ t).1) := by
  have hsize : s.channel.buffer.length = bufferSize := hs.buffer
  have hlen : (resize bufferSize t.channel.buffer).length = bufferSize := resize_length ..
  have hserver : ∀ s₁ : State β, s₁ = { s with
      channel := ⟨s.channel.buffer, s.channel.ops ++ [⟨.receive, 0, none⟩]⟩
      deadline := now₁ + timeout } →
      Server.launch timeout now₁ now₂ s = (Server.startWatchdog.run now₂ s₁,
        [.receive s.channel.buffer.length] ++ Server.startWatchdog.outputs now₂ s₁) := by
    rintro s₁ rfl
    rfl
  have hcoServer : ∀ t₁ : State β, t₁ = { t with
      channel := ⟨resize bufferSize t.channel.buffer, t.channel.ops ++ [⟨.receive, 0, none⟩]⟩
      deadline := now₁ + timeout
      spawned := [] } →
      CoServer.launch timeout now₁ now₂ t = (CoServer.watch.run now₂ t₁,
        [.receive (resize bufferSize t.channel.buffer).length] ++
          CoServer.watch.outputs now₂ t₁) := by
    rintro t₁ rfl
    rfl
  rw [hserver _ rfl, hcoServer _ rfl, hsize, hlen]
  simp only [Server.startWatchdog, CoServer.watch, Code.run, Code.outputs, hs.ops, ht.ops,
    hs.timer, ht.timer]
  split
  · exact ⟨rfl, fun hc => absurd (List.mem_append_right _ (List.mem_singleton_self _)) hc⟩
  · exact ⟨rfl, fun _ => ⟨rfl, rfl, rfl, hsize, fun _ _ => hlen⟩⟩

/-- **The watchdog sessions of `server.cc` and of `co_server.cc` agree.** Started at the same clock
readings and fed with the same events, they start the same operations with the same byte counts in
the same order, arm their timers with the same expiries and close at the same event, up to the first
operation that fails or the first close. -/
theorem watchdogs_agree {s t : State β} (hs : Initial (Server.program timeout false) s)
    (ht : Initial (CoServer.program timeout false) t) (es : List Fed) :
    (Server.program timeout false).session (Server.launch timeout now₁ now₂ s) es =
      (CoServer.program timeout false).session (CoServer.launch timeout now₁ now₂ t) es := by
  obtain ⟨houtputs, hagree⟩ := launch_agree hs ht now₁ now₂
  unfold Program.session
  rw [← houtputs]
  by_cases hclose : .close ∈ (Server.launch timeout now₁ now₂ s).2
  · rw [if_pos hclose, if_pos hclose]
  · rw [if_neg hclose, if_neg hclose, (hagree hclose).trace]

/-- A receive of 3 bytes, the write, then the watchdog expires for the deadline that was moved, and
at last it closes. -/
theorem watchdogs_agree_closed :
    let es := [.receive (.ok 3) 2, .wait none 5, .write none 6, .wait none 12]
    let s : State Nat := ⟨false, true, ⟨List.replicate bufferSize 0, []⟩, ⟨0, []⟩, 0, [], 0⟩
    let t : State Nat := ⟨false, true, ⟨[], []⟩, ⟨0, []⟩, 0, [], 0⟩
    let outputs := some [[.receive 1024, .arm 5], [.write 3], [.arm 7], [.receive 1024], [.close]]
    (Server.program 5 false).session (Server.launch 5 0 1 s) es = outputs ∧
      (CoServer.program 5 false).session (CoServer.launch 5 0 1 t) es = outputs := by
  intro es s t outputs
  have hagree : (Server.program 5 false).session (Server.launch 5 0 1 s) es =
      (CoServer.program 5 false).session (CoServer.launch 5 0 1 t) es :=
    watchdogs_agree ⟨rfl, rfl, List.length_replicate, rfl, rfl, rfl, rfl⟩
      ⟨rfl, rfl, rfl, rfl, rfl, rfl, rfl⟩ es
  have hserver : (Server.program 5 false).session (Server.launch 5 0 1 s) es = outputs := by
    decide +kernel
  exact ⟨hserver, hagree.symm.trans hserver⟩

end Echo
