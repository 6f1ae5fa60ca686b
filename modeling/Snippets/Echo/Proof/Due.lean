import Snippets.Asio.Single
import Snippets.Echo.Proof.Serving

/-!
# What a session of `server.cc` has still to do

Beside those of its timer, an undisturbed session makes a bounded number of steps for each byte that
it receives: what it has still to do (`due`) and the bytes that it moves pay for them
(`Serving.due`).
-/

namespace Echo.Server

open Lts Asio

variable {β : Type*} [Inhabited β] {timeout : Int} {withTimeout : Bool} {s s' : State β}
  {l : Label β} {held : List β} {now : Int}

/-- The steps that a session has still to make, but for the bytes to be written. -/
def due (s : State β) : Nat :=
  (if s.started then 0 else 1) + s.spawned.length + s.channel.due

/-- 1 unless the step is one of the timer. -/
def advance : Label β → Nat
  | .expire _ | .handleWait _ _ => 0
  | _ => 1

omit [Inhabited β] in
theorem Advances.advance_eq (h : Advances l) : advance l = 1 := by
  cases l with
  | expire | handleWait => exact h.elim
  | _ => rfl

/-! ## What the code leaves -/

@[simp] theorem startWatchdog_spawned (s : State β) :
    (startWatchdog.run now s).spawned = s.spawned := by
  rw [startWatchdog_run]
  split <;> rfl

theorem start_spawned (timeout : Int) (withTimeout : Bool) (now₁ now₂ : Int) (s : State β) :
    ((program timeout withTimeout).start₂.run now₂
      ((program timeout withTimeout).start₁.run now₁ s)).spawned = s.spawned := by
  cases withTimeout with
  | true => rfl
  | false => exact startWatchdog_spawned _

theorem wait_spawned (error : Option Error) (s : State β) :
    (((program timeout withTimeout).wait error).run now s).spawned = s.spawned := by
  cases error with
  | some e => rfl
  | none =>
    cases withTimeout with
    | true => rfl
    | false => exact startWatchdog_spawned s

omit [Inhabited β] in
theorem due_eq (hstarted : s'.started = s.started) (hspawned : s'.spawned = s.spawned)
    (hchannel : s'.channel = s.channel) : due s' = due s := by
  simp [due, hstarted, hspawned, hchannel]

/-! ## Steps -/

theorem Serving.due_handle {io : Io} {r : Result} {c : Channel β} (hi : Serving s held)
    (ht : s.channel.Takes io r c) :
    due { ((program timeout withTimeout).handle io r).run now { s with channel := c } with
      clock := now } + 1 ≤ due s := by
  have hsingle : Single s.channel := (hi.running (hi.started ht.ops_ne)).2
  obtain ⟨hops, n, rfl⟩ := hsingle.takes ht
  have hdue := hsingle.due_takes ht
  obtain ⟨timer, deadline, hrun⟩ := handle_ok timeout now withTimeout io n { s with channel := c }
  rw [hrun]
  have hnext := due_start hops (following n c.buffer.length io)
  simp only [due, hnext, hdue]
  cases io with
  | receive | write =>
    simp only [following, Op.due]
    omega

/-- **What a session does it has been given.** -/
theorem Serving.due (hi : Serving s held) (h : Step (program timeout withTimeout) s l s')
    (hfail : ∀ io e, l ≠ .io (.fail io e)) :
    due s' + advance l ≤ Server.due s + 4 * l.drawn.length + l.put.length := by
  cases h with
  | @start now₁ now₂ hs =>
    obtain ⟨hops, -⟩ := hi.idle hs
    have hdue := due_start hops .receive
    have hold := due_nil hops
    simp only [Server.due, start_started, start_spawned, start_channel, hs, hdue, hold, Op.due,
      advance]
    simp
    omega
  | begin hspawned =>
    simp only [Server.due, hspawned, advance, List.length_append, List.length_cons]
    change (if s.started then 0 else 1) + (_ ++ _ : List Coroutine).length + s.channel.due + 1 ≤ _
    rw [List.length_append]
    omega
  | @io e c hs =>
    have hsingle : Single s.channel := (hi.running (hi.started hs.ops_ne)).2
    have hdue := hsingle.due_step hs fun io error he => hfail io error (by rw [he])
    cases e with
    | fail io error => exact absurd rfl (hfail io error)
    | deliver | send | finish =>
      simp only [Event.relay, Relay.taken, Relay.given, List.flatMap_singleton, List.flatMap_nil,
        List.length_nil] at hdue
      simp only [Server.due, advance, Label.drawn, Label.put, List.length_nil]
      omega
  | handle ht =>
    exact Nat.le_add_right_of_le (Nat.le_add_right_of_le (hi.due_handle ht))
  | expire => exact Nat.le_add_right_of_le (Nat.le_add_right _ _)
  | @handleWait t error now =>
    have hdue : Server.due (((program timeout withTimeout).wait error).run now
        { s with timer := t }) = Server.due s := by
      rw [due_eq (wait_started _ _) (wait_spawned _ _) (wait_channel _ _)]
      rfl
    exact Nat.le_add_right_of_le (Nat.le_add_right_of_le (Nat.le_of_eq hdue))

end Echo.Server
