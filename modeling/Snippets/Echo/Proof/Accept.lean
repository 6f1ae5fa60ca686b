import Snippets.Lib.Threads
import Snippets.Echo.Proof.Main
import Snippets.Echo.Proof.Faithful
import Mathlib.Algebra.BigOperators.Group.Finset.Piecewise

/-!
# What failed accepts do to the echo servers

A failed accept closes its acceptor. In `server.cc` that is all; in `co_server.cc` it also costs the
thread that ran its handler (`Paid`), and the process if that is `main`.
-/

namespace Echo.Main

open Lts Threads

variable {n : Nat} {p : Program} {s s' : State n} {l : Label n} {ls : List (Label n)}

/-! ## Closed acceptors and lost threads -/

/-- 1 for a thread that has returned. -/
def Worker.gone (w : Worker) : Nat := if w = .returned then 1 else 0

/-- 1 for an acceptor that is closed. -/
def Acceptor.gone (a : Acceptor) : Nat := if a = .closed then 1 else 0

theorem setWorker_acceptors (s : State n) (r : Option (Fin n)) (w : Worker) :
    (s.setWorker r w).acceptors = s.acceptors := by
  cases r <;> rfl

theorem failed_finish (i : Fin 10) (r : Option (Fin n)) (t : Task) :
    (Label.finish r t).failed i = true ↔ t = .accept i true := by
  rcases t with _ | ⟨j, _ | _⟩ | _ | _ | _
  case accept.true =>
    exact decide_eq_true_iff.trans ⟨fun h => h ▸ rfl, fun h => by cases h; rfl⟩
  all_goals exact ⟨by rintro ⟨⟩, by rintro ⟨⟩⟩

theorem Step.closed (hp : p.Fits) (hi : Inv s) (hs : Step p s l s') (i : Fin 10) :
    (s'.acceptors i = .closed ↔ s.acceptors i = .closed ∨ l.failed i = true) ∧
      (l.failed i = true → s.acceptors i ≠ .closed) := by
  have hquiet : ∀ {q q' : Prop}, (q' ↔ q) → ((q' ↔ q ∨ false = true) ∧ (false = true → ¬q)) :=
    fun h => ⟨h.trans (or_iff_left (by decide)).symm, by simp⟩
  have hperform : ∀ {r t}, s.worker r = .running t →
      ((s.perform t).acceptors i = .closed ↔
        s.acceptors i = .closed ∨ (Label.finish r t).failed i = true) ∧
      ((Label.finish r t).failed i = true → s.acceptors i ≠ .closed) := by
    intro r t hr
    rw [failed_finish]
    refine ⟨(hi.tasks.performs hr).closed i, ?_⟩
    rintro rfl
    have hbusy : s.acceptors i = .busy := (hi.tasks.busy (.acceptor i)).2 ⟨r, _, hr, rfl⟩
    rw [hbusy]
    decide
  cases hs with
  | @make j hm =>
    have hfresh := (hi.made (by simp [hm]) j).2 (by rw [hm]; exact Nat.le_refl _)
    refine hquiet (update_eq_iff_of_ne ?_ (by rw [hfresh]; decide) i)
    rcases hp.listen with h | h <;>
    · rw [h]
      decide
  | take _ _ hready =>
    rw [setWorker_acceptors]
    exact hquiet (hready.claims.closed i)
  | finish hr _ | throw hr _ =>
    rw [setWorker_acceptors]
    exact hperform hr
  | terminate hr _ => exact hperform hr
  | leave =>
    rw [setWorker_acceptors]
    exact hquiet Iff.rfl
  | refuse | made | spawn | run | ran | join | joined => exact hquiet Iff.rfl

theorem update_spawned {i j : Fin 10} {a : Acceptor} (ha : a ≠ .spawned)
    (h : Function.update s.acceptors j a i = .spawned) : s.acceptors i = .spawned :=
  ((update_eq_iff ha).1 h).1

theorem claim_spawned {t : Task} {i : Fin 10} (h : (s.claim t).acceptors i = .spawned) :
    s.acceptors i = .spawned := by
  cases t with
  | listen | accept => exact update_spawned (by decide) h
  | wait | signal | session => exact h

theorem perform_spawned {t : Task} {i : Fin 10} (h : (s.perform t).acceptors i = .spawned) :
    s.acceptors i = .spawned := by
  rcases t with _ | ⟨_, _ | _⟩ | _ | _ | _
  case listen | accept.false | accept.true => exact update_spawned (by decide) h
  case wait | signal | session => exact h

/-- An acceptor has its coroutine to begin only where `start ()` spawns it. -/
theorem Step.spawned (hs : Step p s l s') {i : Fin 10} (h : s'.acceptors i = .spawned) :
    s.acceptors i = .spawned ∨ p.listen = .spawned := by
  cases hs with
  | make =>
    by_cases hp : p.listen = .spawned
    · exact .inr hp
    · exact .inl (update_spawned hp h)
  | take =>
    rw [setWorker_acceptors] at h
    exact .inl (claim_spawned h)
  | finish | throw =>
    rw [setWorker_acceptors] at h
    exact .inl (perform_spawned h)
  | terminate => exact .inl (perform_spawned h)
  | leave =>
    rw [setWorker_acceptors] at h
    exact .inl h
  | refuse | made | spawn | run | ran | join | joined => exact .inl h

theorem Step.stop_mono (hi : Inv s) (hs : Step p s l s') (h : s.stopped = true) :
    s'.stopped = true := by
  have hset : ∀ {s : State n} {r w}, s.stopped = true → (s.setWorker r w).stopped = true := by
    intro s r w h
    cases r <;> exact h
  cases hs with
  | take hr _ hready => exact hset ((claim_stopped s _).trans h)
  | finish hr _ | throw hr _ => exact hset ((hi.tasks.performs hr).stopped.2 (.inl h))
  | terminate hr _ => exact (hi.tasks.performs hr).stopped.2 (.inl h)
  | leave => exact hset h
  | make | refuse | made | spawn | run | ran | join | joined => exact h

theorem total_setWorker {f : Worker → Nat} {r : Option (Fin n)} {w : Worker}
    (h : f w = f (s.worker r)) : total f (s.setWorker r w).threads = total f s.threads := by
  cases r with
  | none => rfl
  | some i => exact total_update_same h

/-- Every failed accept has cost a thread, if it throws. -/
def Paid (p : Program) (s : State n) : Prop :=
  total Worker.gone s.threads = if p.throws then total Acceptor.gone s.acceptors else 0

theorem Paid.same (h : Paid p s)
    (hthreads : total Worker.gone s'.threads = total Worker.gone s.threads)
    (hacceptors : p.throws = true → ∀ i, s'.acceptors i = .closed ↔ s.acceptors i = .closed) :
    Paid p s' := by
  unfold Paid at h ⊢
  rw [hthreads, h]
  cases hp : p.throws with
  | false => rfl
  | true =>
    refine total_congr fun i => ?_
    unfold Acceptor.gone
    rw [if_congr (hacceptors hp i).symm rfl rfl]

theorem Paid.throw {i : Fin n} {t : Task} (h : Paid p s) (hi : Inv s)
    (hr : s.worker (some i) = .running t) (hthrow : (p.throws && t.fails) = true) :
    Paid p ((s.perform t).setWorker (some i) .returned) := by
  obtain ⟨hp, hfails⟩ := Bool.and_eq_true_iff.1 hthrow
  obtain ⟨j, rfl⟩ : ∃ j, t = .accept j true := by
    rcases t with _ | ⟨j, _ | _⟩ | _ | _ | _ <;> first | exact ⟨j, rfl⟩ | cases hfails
  have hrun : s.threads i = .running (.accept j true) := hr
  have hbusy : s.acceptors j = .busy := (hi.tasks.busy (.acceptor j)).2 ⟨_, _, hr, rfl⟩
  have hthreads := total_update Worker.gone s.threads i .returned
  have hacceptors := total_update Acceptor.gone s.acceptors j .closed
  rw [hrun] at hthreads
  rw [hbusy] at hacceptors
  unfold Paid at h ⊢
  rw [if_pos hp] at h ⊢
  exact hthreads.trans ((congrArg (· + 1) h).trans hacceptors.symm)

theorem Step.paid (hp : p.Fits) (hi : Inv s) (hs : Step p s l s') (hrun : s'.phase ≠ .terminated)
    (hopen : s'.stopped = false) (h : Paid p s) : Paid p s' := by
  have hclosed := fun i => (hs.closed hp hi i).1
  have hquiet : ∀ {q : Prop}, (q ∨ false = true ↔ q) := or_iff_left (by decide)
  cases hs with
  | throw hr hthrow => exact h.throw hi hr hthrow
  | terminate => exact absurd rfl hrun
  | @spawn i hm =>
    have hfresh := (hi.spawned i).2 (by rw [hm]; exact Nat.le_refl _)
    refine h.same (total_update_same ?_) fun _ i => (hclosed i).trans hquiet
    rw [hfresh]
    rfl
  | @take r t hr _ _ =>
    refine h.same ?_ fun _ i => (hclosed i).trans hquiet
    rw [total_setWorker, claim_threads]
    rw [worker_congr (claim_phase s t) (claim_threads s t), hr]
    rfl
  | @finish r t hr hno =>
    refine h.same ?_ fun hthrows i => (hclosed i).trans (or_iff_left fun hf => ?_)
    · rw [total_setWorker, perform_threads]
      rw [worker_congr (perform_phase s t) (perform_threads s t), hr]
      rfl
    · rw [failed_finish] at hf
      rw [hthrows, hf] at hno
      cases hno
  | @leave r hr hl =>
    have hstop := hi.stopped_of_leave hl
    have hstop' : (s.setWorker r .returned).stopped = s.stopped := by cases r <;> rfl
    cases (hstop'.symm.trans hopen).symm.trans hstop
  | make | refuse | made | run | ran | join | joined =>
    exact h.same rfl fun _ i => (hclosed i).trans hquiet

/-- `std::terminate ()` is for a failed accept on the thread of `main`. -/
theorem Step.terminated (hs : Step p s l s') (hrun : s.phase ≠ .terminated) :
    s'.phase = .terminated ↔ p.throws = true ∧ ∃ i, l = .finish none (.accept i true) := by
  have hquiet : ∀ {q : Prop}, ¬q → (∀ i, l ≠ .finish none (.accept i true)) →
      (q ↔ p.throws = true ∧ ∃ i, l = .finish none (.accept i true)) := fun hq hl =>
    ⟨fun h => absurd h hq, fun ⟨_, i, h⟩ => absurd h (hl i)⟩
  have hset : ∀ {s₁ : State n} {r w}, s₁.phase = s.phase →
      (s₁.setWorker r w).phase ≠ .terminated := by
    intro s₁ r w h
    cases r with
    | none => rintro ⟨⟩
    | some i =>
      change s₁.phase ≠ _
      rwa [h]
  cases hs with
  | take _ _ _ => exact hquiet (hset (claim_phase s _)) (by rintro i ⟨⟩)
  | @finish r t hr hno =>
    refine ⟨fun h => absurd h (hset (perform_phase s t)), fun ⟨hp, i, h⟩ => ?_⟩
    cases h
    rw [hp] at hno
    cases hno
  | throw => exact hquiet (hset (perform_phase s _)) (by rintro i ⟨⟩)
  | @terminate t hr hthrow =>
    obtain ⟨hp, hfails⟩ := Bool.and_eq_true_iff.1 hthrow
    refine ⟨fun _ => ⟨hp, ?_⟩, fun _ => rfl⟩
    rcases t with _ | ⟨j, _ | _⟩ | _ | _ | _ <;> first | exact ⟨j, rfl⟩ | cases hfails
  | leave => exact hquiet (hset rfl) (by rintro i ⟨⟩)
  | join | joined | ran | make | refuse | made | spawn | run =>
    exact hquiet (by simp) (by rintro i ⟨⟩)

/-- What has happened so far. -/
structure Account (p : Program) (ls : List (Label n)) (s : State n) : Prop where
  inv : Inv s
  spawned : ∀ i, s.acceptors i = .spawned → p.listen = .spawned
  errors : ∀ i, ls.countP (Label.failed i) = if s.acceptors i = .closed then 1 else 0
  paid : s.phase ≠ .terminated → s.stopped = false → Paid p s
  terminated : s.phase = .terminated ↔
    p.throws = true ∧ ∃ i, Label.finish none (.accept i true) ∈ ls

theorem Account.step (hp : p.Fits) (h : Account p ls s) (hrun : s.phase ≠ .terminated)
    (hs : Step p s l s') : Account p (ls ++ [l]) s' := by
  refine ⟨h.inv.step hp hs, fun i hi => (hs.spawned hi).elim (h.spawned i) id, fun i => ?_,
    fun hrun' hopen => ?_, ?_⟩
  · obtain ⟨hclosed, hnew⟩ := hs.closed hp h.inv i
    rw [List.countP_append, List.countP_singleton, h.errors i, if_congr hclosed rfl rfl]
    by_cases hf : l.failed i = true
    · rw [if_neg (hnew hf), if_pos hf, if_pos (.inr hf)]
    · rw [if_neg hf, if_congr (or_iff_left hf) rfl rfl, Nat.add_zero]
  · have hopen₀ : s.stopped = false := Bool.eq_false_iff.2 fun h' => by
      cases hopen.symm.trans (hs.stop_mono h.inv h')
    exact hs.paid hp h.inv hrun' hopen (h.paid hrun hopen₀)
  · rw [hs.terminated hrun]
    have hbefore := (not_congr h.terminated).1 hrun
    refine and_congr_right fun hthrows => exists_congr fun i => ?_
    rw [List.mem_append, List.mem_singleton]
    exact ⟨fun h => .inr h.symm, fun h => h.elim (fun h => absurd ⟨hthrows, i, h⟩ hbefore) Eq.symm⟩

/-! ## The result -/

def program : Source → Program
  | .server => Server.main
  | .coServer => CoServer.main

section
variable {c : Nat} {s s' : State (numThreads c)} {l : Label (numThreads c)}
  {ls ls' : List (Label (numThreads c))}

end

end Echo.Main
