import Snippets.Echo.Proof.Accept

/-!
# How the signal stops the echo servers

Once the context is stopped no thread takes up a handler, so that every step lowers `State.left`:
what `main` has to do, and what the threads have left of the handlers that they are in.
-/

namespace Echo.Main

open Lts Threads

variable {n : Nat} {p : Program} {s s' : State n} {l : Label n}

/-! ## What the signal leaves to do -/

/-- The steps of a thread once the context is stopped: the end of its task, and `run ()` returns. -/
def Worker.left : Worker → Nat
  | .returned => 0
  | .unspawned | .polling => 1
  | .running _ => 2

/-- The steps of `main` once the context is stopped, apart from those of its `run ()`. -/
def Phase.left (n : Nat) : Phase → Nat
  | .spawning i => 2 * n + 4 - i
  | .serving w => n + 2 + w.left
  | .joining i => n + 1 - i
  | .making _ | .refused | .returned | .terminated => 0

/-- The steps that are left once the context is stopped. -/
def State.left (s : State n) : Nat := s.phase.left n + total Worker.left s.threads

theorem Worker.left_le (w : Worker) : w.left ≤ 2 := by
  cases w <;> exact Nat.le_of_ble_eq_true rfl

theorem State.left_le (s : State n) : s.left ≤ 4 * n + 4 := by
  have hphase : s.phase.left n ≤ 2 * n + 4 := by
    cases s.phase with
    | spawning i => exact Nat.sub_le ..
    | serving w =>
      have hw := w.left_le
      change n + 2 + w.left ≤ 2 * n + 4
      omega
    | joining i => exact (Nat.sub_le ..).trans (by omega)
    | _ => exact Nat.zero_le _
  have hthreads : total Worker.left s.threads ≤ n * 2 := by
    have hsum := Finset.sum_le_card_nsmul Finset.univ (fun i => (s.threads i).left) 2
      fun i _ => (s.threads i).left_le
    rwa [Finset.card_univ, Fintype.card_fin] at hsum
  unfold State.left
  omega

theorem left_congr (hphase : s'.phase = s.phase) (hthreads : s'.threads = s.threads) :
    s'.left = s.left := by
  unfold State.left
  rw [hphase, hthreads]

theorem left_setWorker {r : Option (Fin n)} {w : Worker} (hr : s.worker r ≠ .unspawned)
    (h : w.left + 1 ≤ (s.worker r).left) : (s.setWorker r w).left + 1 ≤ s.left := by
  cases r with
  | none =>
    have hm := worker_none rfl hr
    change n + 2 + w.left + total Worker.left s.threads + 1 ≤ _
    unfold State.left
    rw [hm]
    change _ ≤ n + 2 + (s.worker none).left + _
    omega
  | some i =>
    have htotal := total_update Worker.left s.threads i w
    change w.left + 1 ≤ (s.threads i).left at h
    change s.phase.left n + total Worker.left (Function.update s.threads i w) + 1 ≤ _
    unfold State.left
    omega

theorem left_goOn {m : Phase} (h : m.left n + 1 ≤ s.phase.left n) :
    State.left { s with phase := m } + 1 ≤ s.left := by
  change m.left n + total Worker.left s.threads + 1 ≤ _
  unfold State.left
  omega

theorem Step.left (hi : Inv s) (hstop : s.stopped = true) (hs : Step p s l s') :
    s'.left + 1 ≤ s.left := by
  have hlate : ∀ {m}, s.phase = m → ¬m.Early := fun hm h => by
    cases hstop.symm.trans (hi.early (hm ▸ h))
  cases hs with
  | make hm | refuse hm | made hm => exact absurd trivial (hlate hm)
  | @spawn i hm =>
    have hfresh := (hi.spawned i).2 (by rw [hm]; exact Nat.le_refl _)
    have hthreads : total Worker.left (Function.update s.threads i .polling) =
        total Worker.left s.threads := total_update_same (by rw [hfresh]; rfl)
    have hlt := i.isLt
    change 2 * n + 4 - (i.1 + 1) + total Worker.left (Function.update s.threads i .polling) + 1 ≤ _
    unfold State.left
    rw [hthreads, hm]
    change _ ≤ 2 * n + 4 - i.1 + _
    omega
  | run hm =>
    refine left_goOn (m := .serving .polling) ?_
    rw [hm]
    change n + 2 + 1 + 1 ≤ 2 * n + 4 - n
    omega
  | take _ hopen _ => cases hopen.symm.trans hstop
  | @finish r t hr _ | @throw r t hr _ =>
    rw [← left_congr (perform_phase s t) (perform_threads s t)]
    rw [← worker_congr (perform_phase s t) (perform_threads s t)] at hr
    refine left_setWorker (by simp [hr]) ?_
    rw [hr]
    exact Nat.le_of_ble_eq_true rfl
  | @terminate t hr _ =>
    have hm := worker_none hr (by simp)
    rw [← left_congr (perform_phase s t) (perform_threads s t)]
    refine left_goOn (m := .terminated) ?_
    rw [perform_phase, hm]
    change 0 + 1 ≤ n + 2 + 2
    omega
  | leave hr _ =>
    refine left_setWorker (by simp [hr]) ?_
    rw [hr]
    exact Nat.le_refl _
  | ran hm =>
    refine left_goOn (m := .joining 0) ?_
    rw [hm]
    exact Nat.le_refl _
  | @join i hm _ =>
    have hlt := i.isLt
    refine left_goOn (m := .joining (i + 1)) ?_
    rw [hm]
    change n + 1 - (i.1 + 1) + 1 ≤ n + 1 - i.1
    omega
  | joined hm =>
    refine left_goOn (m := .returned) ?_
    rw [hm]
    change 0 + 1 ≤ n + 1 - n
    omega

/-! ## Going on -/

theorem exists_step_worker {r : Option (Fin n)} (hstop : s.stopped = true)
    (hr : s.worker r ≠ .unspawned) (hr' : s.worker r ≠ .returned) : ∃ l s', Step p s l s' := by
  cases hw : s.worker r with
  | unspawned => exact absurd hw hr
  | returned => exact absurd hw hr'
  | polling => exact ⟨_, _, .leave hw (.inl hstop)⟩
  | running t =>
    cases hthrow : p.throws && t.fails with
    | false => exact ⟨_, _, .finish hw hthrow⟩
    | true =>
      cases r with
      | none => exact ⟨_, _, .terminate hw hthrow⟩
      | some i => exact ⟨_, _, .throw hw hthrow⟩

theorem Inv.exists_step (hi : Inv s) (hstop : s.stopped = true) (hreturned : s.phase ≠ .returned)
    (hterminated : s.phase ≠ .terminated) : ∃ l s', Step p s l s' := by
  have hb := hi.bounds
  have hspawned := hi.spawned
  cases hm : s.phase with
  | making | refused =>
    cases hstop.symm.trans (hi.early (by rw [hm]; trivial))
  | spawning i =>
    rw [hm] at hb
    rcases Nat.lt_or_eq_of_le hb.spawned with hlt | heq
    · exact ⟨_, _, .spawn (i := ⟨i, hlt⟩) hm⟩
    · exact ⟨_, _, .run (hm.trans (congrArg Phase.spawning heq))⟩
  | serving w =>
    have hw : s.worker none = w := by
      unfold State.worker
      rw [hm]
    by_cases hret : w = .returned
    · exact ⟨_, _, .ran (hm.trans (congrArg Phase.serving hret))⟩
    · rw [hm] at hb
      exact exists_step_worker (r := none) hstop (by rw [hw]; exact fun h => hb.serving (h ▸ rfl))
        (by rwa [hw])
  | joining i =>
    rw [hm] at hb hspawned
    rcases Nat.lt_or_eq_of_le hb.joined with hlt | heq
    · by_cases hret : s.threads ⟨i, hlt⟩ = .returned
      · exact ⟨_, _, .join (i := ⟨i, hlt⟩) hm hret⟩
      · exact exists_step_worker (r := some ⟨i, hlt⟩) hstop
          ((not_congr (hspawned ⟨i, hlt⟩)).2 (Nat.not_le.2 hlt)) hret
    · exact ⟨_, _, .joined (hm.trans (congrArg Phase.joining heq))⟩
  | returned => exact absurd hm hreturned
  | terminated => exact absurd hm hterminated

/-! ## The result -/

section
variable {c : Nat} {s s' : State (numThreads c)} {ls ls' : List (Label (numThreads c))}

end

end Echo.Main
