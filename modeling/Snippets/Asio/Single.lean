import Snippets.Asio.Channel
import Mathlib.Algebra.GroupWithZero.Nat

/-!
# Channels with one operation

A channel that is used for one operation at a time, which has not failed (`Single`), and how much of
its cycle of receive and write is left until the next receive is outstanding (`Channel.due`). An
event is paid for by this and by the bytes that it moves (`Single.due_step`).
-/

namespace Asio

open Lts

variable {β : Type*} {c c' : Channel β} {cap : Nat} {source target : Bool}

/-- One operation, which has not failed. -/
def Single (c : Channel β) : Prop := ∃ o, c.ops = [o] ∧ ∀ e, o.result ≠ some (.error e)

theorem Single.start (h : c.ops = []) (io : Io) : Single (c.start io) :=
  ⟨⟨io, 0, none⟩, by simp [Channel.start, h], nofun⟩

theorem Single.takes {io : Io} {r : Result} (h : Single c) (ht : c.Takes io r c') :
    c'.ops = [] ∧ ∃ n, r = .ok n := by
  obtain ⟨o, ho, herror⟩ := h
  cases ht with
  | @intro l₁ l₂ _ _ _ hops =>
    rw [ho] at hops
    obtain ⟨rfl, rfl, rfl⟩ := singleton_ops hops
    cases r with
    | error e => exact absurd rfl (herror e)
    | ok n => exact ⟨rfl, n, rfl⟩

theorem Single.step {e : Event β} (h : Single c) (hs : c.Step cap source target e c')
    (hfail : ∀ io error, e ≠ .fail io error) : Single c' := by
  obtain ⟨o, ho, -⟩ := h
  cases hs with
  | deliver _ hops | send _ hops | finish hops =>
    rw [ho] at hops
    obtain ⟨rfl, rfl, -⟩ := singleton_ops hops
    exact ⟨_, rfl, nofun⟩
  | fail => exact absurd rfl (hfail _ _)

theorem Single.unwritten_eq {held : List β} (h : Single c) (hc : c.Cycle cap held) :
    c.unwritten = held := by
  obtain ⟨o, ho, -⟩ := h
  exact hc.unwritten_eq (by simp [ho])

theorem unwritten_nil (h : c.ops = []) : c.unwritten = [] := by
  simp [Channel.unwritten, h]

/-! ## What is left of the cycle -/

/-- The steps until the next receive is outstanding, but for the bytes to be written. -/
def Op.due (o : Op) : Nat :=
  match o.io, o.result with
  | .receive, none => 0
  | .receive, some _ => 3
  | .write _, none => 2
  | .write _, some _ => 1

def Channel.due (c : Channel β) : Nat := (c.ops.map Op.due).sum

theorem due_nil (h : c.ops = []) : c.due = 0 := by
  simp [Channel.due, h]

theorem due_start (h : c.ops = []) (io : Io) : (c.start io).due = Op.due ⟨io, 0, none⟩ := by
  simp [Channel.due, Channel.start, h]

theorem Single.due_takes {io : Io} {r : Result} (h : Single c) (ht : c.Takes io r c') :
    c.due = Op.due ⟨io, 0, some r⟩ := by
  obtain ⟨o, ho, -⟩ := h
  cases ht with
  | intro hops =>
    rw [ho] at hops
    obtain ⟨-, -, rfl⟩ := singleton_ops hops
    cases io <;> simp [Channel.due, ho, Op.due]

/-- What an event costs, and what it moves. -/
theorem Single.due_step {e : Event β} (h : Single c) (hs : c.Step cap source target e c')
    (hfail : ∀ io error, e ≠ .fail io error) : c'.due + 1 ≤
      c.due + 4 * (Relay.taken e.relay).length + (Relay.given e.relay).length := by
  obtain ⟨o, ho, -⟩ := h
  cases hs with
  | deliver _ hops hne =>
    have hlen := List.length_pos_of_ne_nil hne
    rw [ho] at hops
    obtain ⟨rfl, rfl, rfl⟩ := singleton_ops hops
    simp [Channel.due, ho, Op.due, Event.relay, Relay.taken]
    omega
  | send _ hops hne =>
    have hlen := List.length_pos_of_ne_nil hne
    rw [ho] at hops
    obtain ⟨rfl, rfl, rfl⟩ := singleton_ops hops
    simp [Channel.due, ho, Op.due, Event.relay, Relay.taken, Relay.given]
    omega
  | finish hops =>
    rw [ho] at hops
    obtain ⟨rfl, rfl, rfl⟩ := singleton_ops hops
    simp [Channel.due, ho, Op.due]
    omega
  | fail => exact absurd rfl (hfail _ _)

end Asio
