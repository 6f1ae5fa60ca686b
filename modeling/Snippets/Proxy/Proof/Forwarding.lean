import Snippets.Asio.Single
import Snippets.Proxy.Path
import Snippets.Proxy.Proof.Relay

/-!
# Undisturbed proxy sessions

A session whose operations do not fail and that is not stopped (`Forwarding`): a step takes what it
receives behind the bytes that a direction has still to write, and writes the first of them
(`Forwarding.step`). In each direction the session can go on without its timers, unless it waits for
bytes there (`Forwarding.exists_step`).
-/

namespace Proxy

open Lts Asio

variable {β : Type*} {timeout : Int} {s s' : State β} {l : Label β} {c c' : Channel β} {d : Side}

/-- An undisturbed session. -/
structure Forwarding (s : State β) : Prop where
  isOpen : ∀ x, s.isOpen x = true
  connects : ∀ e, s.connect ≠ .completed (some e) ∧ s.connect ≠ .handled (some e)
  waiting : s.connect ≠ .handled none → ∀ d, (s.channel d).ops = []
  cycle : ∀ d, (s.channel d).Cycle bufferSize (s.channel d).unwritten
  single : s.connect = .handled none → ∀ d, Single (s.channel d)

theorem Initial.forwarding (h0 : Initial s) : Forwarding s := by
  have hconn := h0.connect
  refine ⟨h0.isOpen, fun e => ?_, fun _ => h0.ops, fun d => ?_, fun h => ?_⟩
  · simp [hconn]
  · have hops := h0.ops d
    generalize s.channel d = c at hops
    obtain ⟨b, ops⟩ := c
    obtain rfl : ops = [] := hops
    exact .idle
  · simp [hconn] at h

/-! ## The operations -/

theorem Turn.single (ht : Turn s d c l c') (h : Single c)
    (hfail : ∀ io e, l ≠ .io d (.fail io e))
    (hconn : ∀ now₁ now₂ now₃ now₄, l ≠ .handleConnect none now₁ now₂ now₃ now₄) : Single c' := by
  cases ht with
  | quiet => exact h
  | connect => exact absurd rfl (hconn _ _ _ _)
  | io hs => exact h.step hs fun io e he => hfail io e (by rw [he])
  | fail ht =>
    obtain ⟨-, n, hn⟩ := h.takes ht
    cases hn
  | send ht | receive ht => exact .start (h.takes ht).1 _

theorem Undisturbed.connect (hu : Undisturbed l s') (h : Step timeout s l s')
    (hc : ∀ e, s.connect ≠ .completed (some e) ∧ s.connect ≠ .handled (some e)) (e : Error) :
    s'.connect ≠ .completed (some e) ∧ s'.connect ≠ .handled (some e) := by
  rcases h.connect_cases with ⟨hs, -⟩ | ⟨r, -, hs, rfl⟩ | ⟨r, _, _, _, _, hr, hs, -⟩
  · rw [hs]
    exact hc e
  · rw [hs]
    cases r with
    | none => simp
    | some e' => exact absurd rfl (hu.connects e')
  · rw [hs]
    cases r with
    | none => simp
    | some e' => exact absurd hr (hc e').1

/-! ## What a step forwards -/

theorem Forwarding.holds (hf : Forwarding s) (d : Side) :
    Holds s d (s.channel d).unwritten where
  cycle := hf.cycle d
  waiting h := by
    have hops := hf.waiting (h none) d
    exact ⟨hops, unwritten_nil hops⟩

/-- **An undisturbed session forwards**: what it receives comes behind what it has still to write,
and it writes from the front. -/
theorem Forwarding.step (hf : Forwarding s) (h : Step timeout s l s') (hu : Undisturbed l s') :
    Forwarding s' ∧ ∀ d, (s.channel d).unwritten ++ received d [l] =
      written d [l] ++ (s'.channel d).unwritten := by
  have hconnects := hu.connect h hf.connects
  have hsingle : s'.connect = .handled none → ∀ d, Single (s'.channel d) := by
    intro hc d
    rcases h.connected_iff.1 hc with hup | ⟨now₁, now₂, now₃, now₄, rfl⟩
    · refine (h.turn d).single (hf.single hup d) (fun io e => hu.fails d io e) ?_
      rintro now₁ now₂ now₃ now₄ rfl
      cases h with
      | handleConnect hdone => simp [hdone] at hup
    · cases h with
      | handleConnect hdone =>
        change Single ((s.handleConnect timeout none now₁ now₂ now₃ now₄).channel d)
        rw [handleConnect_channel]
        exact .start (hf.waiting (by simp [hdone]) d) _
  have hrelay : ∀ d, ∃ held, (s.channel d).unwritten ++ received d [l] = written d [l] ++ held ∧
      Holds s' d held := by
    intro d
    obtain ⟨held, hrun, hh⟩ := (hf.holds d).step h
    have hmoved := Relay.run_taken_eq hrun
    have htaken := taken_events d [l]
    have hgiven := given_events d [l]
    rw [List.flatMap_singleton] at htaken hgiven
    rw [htaken, hgiven] at hmoved
    exact ⟨held, hmoved, hh⟩
  have hunwritten : ∀ d held, Holds s' d held → (s'.channel d).unwritten = held := by
    intro d held hh
    by_cases hc : s'.connect = .handled none
    · exact (hsingle hc d).unwritten_eq hh.cycle
    · obtain ⟨hops, rfl⟩ := hh.waiting fun r hr => by
        cases r with
        | none => exact hc hr
        | some e => exact (hconnects e).2 hr
      exact unwritten_nil hops
  refine ⟨⟨hu.isOpen, hconnects, fun hc d => ?_, fun d => ?_, hsingle⟩, fun d => ?_⟩
  · obtain ⟨held, -, hh⟩ := hrelay d
    refine (hh.waiting fun r hr => ?_).1
    cases r with
    | none => exact hc hr
    | some e => exact (hconnects e).2 hr
  · obtain ⟨held, -, hh⟩ := hrelay d
    rw [hunwritten d held hh]
    exact hh.cycle
  · obtain ⟨held, hmoved, hh⟩ := hrelay d
    rw [hmoved, hunwritten d held hh]

/-! ## Going on -/

/-- The step is not one of a timer. -/
def Label.Advances : Label β → Prop
  | .expire _ _ | .handleWait _ _ _ => False
  | _ => True

/-- The session goes on undisturbed by the step. -/
structure Forwards (timeout : Int) (s : State β) (l : Label β) (s' : State β) : Prop where
  step : Step timeout s l s'
  undisturbed : Undisturbed l s'
  advances : l.Advances

theorem handle_ok_isOpen (io : Io) (n : Nat) (now : Int) :
    (s.handle timeout d io (.ok n) now).isOpen = s.isOpen := by
  cases io <;> cases d <;> rfl

theorem Forwarding.exists_connect (hf : Forwarding s) (hpos : 0 < timeout)
    (hc : s.connect = .completed none) :
    ∃ s', Forwards timeout s (.handleConnect none s.clock s.clock s.clock s.clock) s' := by
  have hnow := Int.le_refl s.clock
  refine ⟨_, .handleConnect hc hnow hnow hnow hnow, ⟨fun x => ?_, nofun, nofun⟩, trivial⟩
  have hlt : ¬s.clock + timeout ≤ s.clock := by omega
  have hwait : ∀ d, ∀ t : State β, (t.watchdog d).deadline = s.clock + timeout →
      t.startWatchdog d s.clock = t.setWatchdog d (t.watchdog d).wait := by
    intro d t ht
    rw [State.startWatchdog, ht, if_neg hlt]
  change ((State.startWatchdog _ .client s.clock).startWatchdog .server s.clock).isOpen x = true
  rw [hwait .client _ rfl, hwait .server _ rfl]
  exact hf.isOpen x

theorem Forwarding.exists_handle {io : Io} {n : Nat} (hf : Forwarding s)
    (ht : (s.channel d).Takes io (.ok n) c) (timeout : Int) :
    ∃ s', Forwards timeout s (.handle d io (.ok n) s.clock) s' := by
  refine ⟨_, .handle ht (Int.le_refl _), ⟨fun x => ?_, nofun, nofun⟩, trivial⟩
  change ((s.setChannel d c).handle timeout d io (.ok n) s.clock).isOpen x = true
  rw [handle_ok_isOpen]
  exact hf.isOpen x

theorem Forwarding.exists_io {e : Asio.Event β} (hf : Forwarding s)
    (hs : (s.channel d).Step bufferSize (s.isOpen d) (s.isOpen d.other) e c)
    (hfail : ∀ io error, e ≠ .fail io error) (timeout : Int) :
    ∃ s', Forwards timeout s (.io d e) s' := by
  refine ⟨_, .io hs, ⟨hf.isOpen, ?_, nofun⟩, trivial⟩
  rintro x io error he
  cases he
  exact hfail io error rfl

/-- **In each direction an undisturbed session can go on, unless it waits for bytes.** -/
theorem Forwarding.exists_step (hf : Forwarding s) (hpos : 0 < timeout) (d : Side) :
    (∃ l s', Forwards timeout s l s' ∧ ∀ x, received x [l] = []) ∨
      ((s.channel d).unwritten = [] ∧
        ∀ b, ∃ s', Forwards timeout s (.io d (.deliver [b])) s') := by
  cases hc : s.connect with
  | outstanding =>
    have hs : Step timeout s (.connect none) _ := .connect hc
    exact .inl ⟨_, _, ⟨hs, ⟨hf.isOpen, nofun, nofun⟩, trivial⟩, fun _ => rfl⟩
  | completed r =>
    cases r with
    | some e => exact absurd hc (hf.connects e).1
    | none =>
      obtain ⟨s', hs⟩ := hf.exists_connect hpos hc
      exact .inl ⟨_, s', hs, fun _ => rfl⟩
  | handled r =>
    cases r with
    | some e => exact absurd hc (hf.connects e).2
    | none =>
      obtain ⟨o, ho, herror⟩ := hf.single hc d
      have hcycle := hf.cycle d
      obtain ⟨c, hchannel⟩ : ∃ c, s.channel d = c := ⟨_, rfl⟩
      have hops : (s.channel d).ops = c.ops := by rw [hchannel]
      rw [hchannel] at hcycle ho ⊢
      generalize c.unwritten = held at hcycle ⊢
      cases hcycle with
      | idle => simp at ho
      | receive =>
        refine .inr ⟨rfl, fun b => ?_⟩
        have hlen : [b].length ≤ bufferSize := by simp [bufferSize]
        exact hf.exists_io (.deliver_head (hf.isOpen d) hops (by simp) hlen) (by simp) timeout
      | received =>
        obtain ⟨s', hs⟩ := hf.exists_handle (.head hops) timeout
        exact .inl ⟨_, s', hs, fun _ => rfl⟩
      | receiveFailed =>
        obtain rfl := List.singleton_inj.1 ho
        exact absurd rfl (herror _)
      | @write b sent _ r hr =>
        obtain rfl := List.singleton_inj.1 ho
        rcases r with _ | e | n
        · cases held with
          | nil =>
            obtain ⟨s', hs⟩ := hf.exists_io (.finish_head hops) (by simp) timeout
            exact .inl ⟨_, s', hs, fun _ => rfl⟩
          | cons x rest =>
            have hpiece : [x] <+: ((s.channel d).buffer.take
                (sent.length + (x :: rest).length)).drop sent.length := by
              rw [hchannel]
              simp [List.take_append]
            obtain ⟨s', hs⟩ := hf.exists_io
              (.send_head (hf.isOpen d.other) hops (by simp) hpiece) (by simp) timeout
            exact .inl ⟨_, s', hs, fun _ => rfl⟩
        · exact absurd rfl (herror e)
        · obtain ⟨s', hs⟩ := hf.exists_handle (.head hops) timeout
          exact .inl ⟨_, s', hs, fun _ => rfl⟩

end Proxy
