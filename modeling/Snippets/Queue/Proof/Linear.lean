import Snippets.Queue.Proof.Section

/-!
# `concurrent_blocking_queue` is a closable bounded FIFO queue

`Step.refines`: while no element operation throws, every step of the threads is, on the members
that `mutex_` protects, the step of the closable FIFO queue that `events` names. With the laws of
that queue (`fifo_conserves`, `FifoStep.closed`): `system_linearizable`.
-/

namespace BlockingQueue

open Lts

variable {T ι : Type*} [DecidableEq ι] {capacity : Nat}

/-! ## Phases -/

/-- A notification changes no thread's phase: a woken thread is still in its call. -/
theorem Notify.phase {pc pc' : ι → Pc T} {n : Option Cv} (h : Notify pc n pc') (u : ι) :
    (pc' u).phase = (pc u).phase := by
  cases h with
  | none => rfl
  | one h =>
    cases h with
    | none _ => rfl
    | @one t c hp _ =>
      by_cases hu : u = t
      · subst hu; rw [Function.update_self, hp]; rfl
      · rw [Function.update_of_ne hu]

theorem Pc.phase_wake (cv : Cv) (p : Pc T) : (p.wake cv).phase = p.phase := by
  cases p with
  | parked c => rw [Pc.wake]; split <;> rfl
  | _ => rfl

theorem Pc.phase_after (c : Call T) (r : Res T) (hr : c = .close → r = .closed) :
    (Pc.after c r).phase = .committed r := by
  cases c with
  | close => rw [hr rfl]; rfl
  | _ => rfl

theorem Pc.Ready.phase {p : Pc T} {c : Call T} {timedOut : Bool} (h : p.Ready c timedOut) :
    p.phase = .called c := by
  cases h <;> rfl

theorem abs_update {s : State ι T} {q : Shared T} {pc : ι → Pc T}
    (h : ∀ u, (pc u).phase = (s.pc u).phase) (t : ι) (p : Pc T) :
    abs ⟨q, Function.update pc t p⟩ = ⟨q, Function.update (abs s).phase t p.phase⟩ := by
  simp only [abs, Atomic.State.mk.injEq, true_and]
  funext u
  by_cases hu : u = t
  · subst hu; simp only [Function.update_self]
  · simp only [Function.update_of_ne hu, h u]

/-! ## Refinement -/

/-- A step that moves `t` to a program counter of the same phase means nothing at the queue. -/
theorem refines_silent {s : State ι T} {pc : ι → Pc T} {t : ι} {p : Pc T}
    (h : ∀ u, (pc u).phase = (s.pc u).phase) (hp : p.phase = (s.pc t).phase) :
    Run ((fifo T capacity).object ι) (abs s) [] (abs ⟨s.shared, Function.update pc t p⟩) := by
  have habs : abs (⟨s.shared, Function.update pc t p⟩ : State ι T) = abs s := by
    rw [abs_update h, hp]
    exact congrArg _ (Function.update_eq_self _ _)
  rw [habs]
  exact .nil _

theorem Section.closed_res {timedOut : Bool} {throwAt : Option ThrowAt} {q q' : Shared T}
    {c : Call T} {n : Option Cv} {r : Res T}
    (h : Section capacity timedOut throwAt q c (.leave q' n r)) (hc : c = .close) :
    r = .closed := by
  subst hc
  cases h with
  | close => rfl
  | accept hc _ _ _ | acceptThrow hc _ _ _ | refuse hc _ => rcases hc with hc | hc <;> cases hc
  | deliver hc _ _ _ | frontThrow hc _ _ | returnThrow hc _ _ | nothing hc _ _ =>
    rcases hc with hc | hc <;> cases hc

/-- **Every step without a throw is the step of the closable FIFO queue that `events` names.** -/
theorem Step.refines {s s' : State ι T} {l : Label ι T}
    (hlen : s.shared.queue.length ≤ capacity) (hs : Step capacity s l s') (hn : NoThrow s l) :
    Run ((fifo T capacity).object ι) (abs s) (events l) (abs s') := by
  have hself : ∀ u, (s.pc u).phase = (s.pc u).phase := fun _ => rfl
  cases hs with
  | call h =>
    rw [abs_update hself]
    exact .single (.call (show (s.pc _).phase = .idle by rw [h]; rfl))
  | park hr _ => exact refines_silent hself hr.phase.symm
  | @leave t c _ _ q n r pc hr hsec hnot =>
    cases hn
    have hspec := Section.of_eq hsec
    rw [abs_update (fun u => hnot.phase u), Pc.phase_after c r hspec.closed_res]
    exact .single (.commit hr.phase (hspec.fifo hlen))
  | spurious h => exact refines_silent hself (by rw [h]; rfl)
  | timeout h _ =>
    rcases h with h | h
    · exact refines_silent hself (by rw [h]; rfl)
    · exact refines_silent hself (by rw [h]; rfl)
  | notifyAllEmpty h => exact refines_silent (fun u => Pc.phase_wake _ _) (by rw [h]; rfl)
  | notifyAllFull h => exact refines_silent (fun u => Pc.phase_wake _ _) (by rw [h]; rfl)
  | ret h =>
    rw [abs_update hself]
    exact .single (.ret (show (s.pc _).phase = .committed _ by rw [h]; rfl))

/-! ## Runs -/

variable {ls : List (Label ι T)} {s : State ι T}

/-- A section that leaves keeps the bound and does not reopen the queue, throw or not. -/
theorem Section.shared {timedOut : Bool} {throwAt : Option ThrowAt} {q q' : Shared T} {c : Call T}
    {n : Option Cv} {r : Res T} (h : Section capacity timedOut throwAt q c (.leave q' n r)) :
    (q.queue.length ≤ capacity → q'.queue.length ≤ capacity) ∧
      (q.closed = true → q'.closed = true) := by
  cases h with
  | accept _ hopen hroom _ =>
    refine ⟨fun _ => ?_, fun hc => by rw [hopen] at hc; cases hc⟩
    rw [List.length_append]
    exact hroom
  | deliver _ hq _ _ | returnThrow _ hq _ =>
    refine ⟨fun hlen => ?_, id⟩
    rw [hq] at hlen
    exact Nat.le_of_succ_le hlen
  | close => exact ⟨id, fun _ => rfl⟩
  | acceptThrow | refuse | frontThrow | nothing | size | empty | isClosed => exact ⟨id, id⟩

theorem Step.shared {s s' : State ι T} {l : Label ι T} (hs : Step capacity s l s') :
    (s.shared.queue.length ≤ capacity → s'.shared.queue.length ≤ capacity) ∧
      (s.shared.closed = true → s'.shared.closed = true) := by
  cases hs with
  | leave hr hsec _ => exact (Section.of_eq hsec).shared
  | _ => exact ⟨id, id⟩

theorem system_refines (h : Exec ((system ι T capacity).restrict NoThrow) ls s) :
    Exec ((fifo T capacity).object ι) (ls.flatMap events) (abs s) ∧
      s.shared.queue.length ≤ capacity := by
  obtain ⟨a, ha, rfl, hlen⟩ := h.simulate
    (R := fun s a => abs s = a ∧ s.shared.queue.length ≤ capacity)
    (fun s (h0 : s = _) => ⟨_, rfl, by rw [h0]; rfl, by rw [h0]; exact Nat.zero_le _⟩)
    (fun s l s' a ⟨hr, hlen⟩ ⟨hs, hn⟩ => ⟨_, hr ▸ hs.refines hlen hn, rfl, hs.shared.1 hlen⟩)
  exact ⟨ha, hlen⟩

theorem closed_stays {s' : State ι T} (h : Run (system ι T capacity) s ls s')
    (hc : s.shared.closed = true) : s'.shared.closed = true :=
  h.invariant (I := fun s => s.shared.closed = true) (fun _ _ _ hc hs => (Step.shared hs).2 hc) hc

/-- A refused push changes nothing, and happens only when the queue is closed or, for `try_push`,
full. -/
theorem Step.refused {s' : State ι T} {t : ι} {c : Call T} {x : T} {rvalue : Bool} {arg : Arg T}
    (hlen : s.shared.queue.length ≤ capacity) (hc : c.IsPush x rvalue)
    (h : Step capacity s (.leave t c none (.pushed false arg)) s') :
    s'.shared = s.shared ∧ arg = .intact x ∧
      (s.shared.closed = true ∨ c.timed = true ∧ s.shared.queue.length = capacity) := by
  cases h with
  | leave _ hsec _ =>
    cases Section.of_eq hsec with
    | refuse hc' hor =>
      obtain rfl := hc.inj hc'
      exact ⟨rfl, rfl, hor.imp_right fun ⟨ht, hf⟩ => ⟨ht, Nat.le_antisymm hlen hf⟩⟩

/-- A pop that delivers nothing changes nothing, and happens only when the queue is empty. -/
theorem Step.nothing {s' : State ι T} {t : ι} {c : Call T}
    (h : Step capacity s (.leave t c none (.popped none)) s') :
    s'.shared = s.shared ∧ s.shared.queue = [] := by
  cases h with
  | leave _ hsec _ =>
    cases Section.of_eq hsec with
    | nothing _ hq _ => exact ⟨rfl, hq⟩

/-- **`concurrent_blocking_queue` is linearizable** to the closable bounded FIFO queue, in the order
of the last sections of the calls, while no element operation throws: every step is that queue's
step, the pushed values that were accepted are those delivered followed by the contents, the bound
is kept, calls that report failure change nothing and fail for a reason that holds when they give
up, and a closed queue stays closed. -/
theorem system_linearizable (h : Exec ((system ι T capacity).restrict NoThrow) ls s) :
    Exec ((fifo T capacity).object ι) (ls.flatMap events) (abs s) ∧
      (fifo T capacity).Linearizable ((ls.flatMap events).filter Atomic.Event.visible) ∧
      (∀ l s', Step capacity s l s' → NoThrow s l →
        Run ((fifo T capacity).object ι) (abs s) (events l) (abs s')) ∧
      accepted (effects ls) = delivered (effects ls) ++ s.shared.queue ∧
      s.shared.queue.length ≤ capacity ∧
      (∀ t c x rvalue arg s', c.IsPush x rvalue →
        Step capacity s (.leave t c none (.pushed false arg)) s' →
        s'.shared = s.shared ∧ arg = .intact x ∧
          (s.shared.closed = true ∨ c.timed = true ∧ s.shared.queue.length = capacity)) ∧
      (∀ t c s', Step capacity s (.leave t c none (.popped none)) s' →
        s'.shared = s.shared ∧ s.shared.queue = []) ∧
      ∀ ls' s', Run (system ι T capacity) s ls' s' → s.shared.closed = true →
        s'.shared.closed = true := by
  obtain ⟨hobj, hlen⟩ := system_refines h
  have hlegal := Atomic.object_legal hobj
  exact ⟨hobj, Atomic.linearizable_of_exec hobj, fun l s' hs hn => hs.refines hlen hn,
    (fifo_conserves hlegal).1, hlen, fun _ _ _ _ _ _ hc hs => hs.refused hlen hc,
    fun _ _ _ hs => hs.nothing, fun _ _ hrun hc => closed_stays hrun hc⟩

/-- A pop that waits, a push that wakes it, and the value handed over. -/
theorem system_linearizable_handover : ∃ (ls : List (Label Bool Nat)) (s : State Bool Nat),
    Exec ((system Bool Nat 1).restrict NoThrow) ls s ∧ delivered (effects ls) = [5] ∧
      accepted (effects ls) = delivered (effects ls) ++ s.shared.queue := by
  have h0 : Exec ((system Bool Nat 1).restrict NoThrow) [] ⟨⟨[], false⟩, fun _ => .idle⟩ :=
    .init rfl
  have h1 := h0.snoc ⟨.call (t := true) (c := .pop) rfl, trivial⟩
  have h2 := h1.snoc ⟨.park (t := true) (.enter _) rfl, trivial⟩
  have h3 := h2.snoc ⟨.call (t := false) (c := .push 5 true) rfl, trivial⟩
  have h4 := h3.snoc ⟨.leave (t := false) (.enter _) rfl (.one (.one (t := true) rfl rfl)), rfl⟩
  have h5 := h4.snoc ⟨.leave (t := true) (.woken _ _) rfl
    (.one (.none fun t c h => by cases t <;> cases h)), rfl⟩
  exact ⟨_, _, h5, rfl, (system_linearizable h5).2.2.2.1⟩

end BlockingQueue
