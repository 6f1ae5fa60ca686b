import Snippets.Queue.Proof.Wakeup

/-!
# The threads come to rest

A thread that is woken may find nothing and park again, but each wakeup is paid for: by the section
that issued the `notify_one`, by a `close ()`, or by a spurious wakeup or a timeout. `Pc.work` is
what a thread can still do by itself, together with the wakeups it can still issue; every step
lowers the sum over the threads, unless it is a call, a spurious wakeup or a timeout
(`Step.work`). A thread that is neither outside nor parked can always go on
(`resting_iff`). So the threads come to rest, whatever throws (`queue_settles`).
-/

namespace BlockingQueue

open Lts Threads

variable {T ι : Type*} {capacity : Nat}

/-! ## Work -/

/-- Steps a call takes, with the wakeups it can issue, if it never waits: its section, its return
and one `notify_one`, or the two `notify_all` of `close` to up to `n` threads each. -/
def Call.work (n : Nat) : Call T → Nat
  | .close => 2 * n + 4
  | _ => 3

/-- The steps that are left of the call that a thread is in. -/
def Pc.work (n : Nat) : Pc T → Nat
  | .idle => 0
  | .enter c => c.work n
  | .parked c => c.work n - 1
  | .woken c _ => c.work n
  | .notifyAll .notEmpty => 2 * n + 3
  | .notifyAll .notFull => n + 2
  | .done _ => 1

def Label.isCall : Label ι T → Bool
  | .call .. => true
  | _ => false

def Label.isClose : Label ι T → Bool
  | .call _ .close => true
  | _ => false

/-- A spurious wakeup or a timeout. -/
def Label.interrupts : Label ι T → Bool
  | .spurious _ | .timeout _ => true
  | _ => false

/-- A step that a thread takes by itself inside a call. -/
def Label.Own (l : Label ι T) : Prop := l.isCall = false ∧ l.interrupts = false

/-- What a step adds to the work, itself included. -/
def Label.cost (n : Nat) : Label ι T → Nat
  | .call _ c => c.work n + 1
  | .spurious _ | .timeout _ => 2
  | _ => 0

/-- Every thread is outside or parked un-notified. -/
def State.Resting (s : State ι T) : Prop := ∀ t, s.pc t = .idle ∨ ∃ c, s.pc t = .parked c

theorem Call.three_le_work (c : Call T) (n : Nat) : 3 ≤ c.work n := by
  cases c <;> simp [Call.work]

theorem Pc.Ready.work {p : Pc T} {c : Call T} {timedOut : Bool} (h : p.Ready c timedOut)
    (n : Nat) : p.work n = c.work n := by
  cases h <;> rfl

theorem Pc.work_wake (cv : Cv) (n : Nat) (p : Pc T) : (p.wake cv).work n ≤ p.work n + 1 := by
  cases p with
  | parked c =>
    have h3 := c.three_le_work n
    by_cases hc : c.cv = some cv
    · rw [Pc.wake, if_pos hc]
      simp only [Pc.work]
      omega
    · rw [Pc.wake, if_neg hc]
      exact Nat.le_succ _
  | _ => exact Nat.le_succ _

section
variable [Fintype ι]

/-- The steps that are left of all calls. -/
def State.work (s : State ι T) : Nat := total (Pc.work (Fintype.card ι)) s.pc

variable [DecidableEq ι]

theorem Notify.work {pc pc' : ι → Pc T} {notify : Option Cv} (h : Notify pc notify pc') (n : Nat) :
    total (Pc.work n) pc' ≤ total (Pc.work n) pc + if notify.isSome then 1 else 0 := by
  cases h with
  | none => exact Nat.le_refl _
  | one h =>
    cases h with
    | none _ => exact Nat.le_succ _
    | @one u c hp _ =>
      have h1 := total_update (Pc.work n) pc u (.woken c false)
      have h3 := c.three_le_work n
      rw [hp] at h1
      simp only [Pc.work] at h1
      simp only [Option.isSome_some, if_true]
      omega

/-- A section that leaves lowers the work by more than its notification adds. -/
theorem Section.work {timedOut : Bool} {throwAt : Option ThrowAt} {q q' : Shared T} {c : Call T}
    {notify : Option Cv} {r : Res T}
    (h : Section capacity timedOut throwAt q c (.leave q' notify r)) (n : Nat) :
    (Pc.after c r).work n + (if notify.isSome then 1 else 0) + 1 ≤ c.work n := by
  cases h with
  | close => simp [Pc.after, Pc.work, Call.work]
  | size | empty | isClosed => simp [Pc.after, Pc.work, Call.work]
  | accept hc | acceptThrow hc | refuse hc =>
    rcases hc with rfl | rfl <;> simp [Pc.after, Pc.work, Call.work]
  | deliver hc | frontThrow hc | returnThrow hc | nothing hc =>
    rcases hc with rfl | rfl <;> simp [Pc.after, Pc.work, Call.work]

theorem work_update {pc : ι → Pc T} {t : ι} {p : Pc T} (ht : pc t = p) (p' : Pc T) (q : Shared T) :
    (State.mk q (Function.update pc t p')).work + p.work (Fintype.card ι) =
      total (Pc.work (Fintype.card ι)) pc + p'.work (Fintype.card ι) := by
  subst ht
  exact total_update (Pc.work (Fintype.card ι)) pc t p'

theorem notifyAll_work {s : State ι T} {t : ι} {cv : Cv} {p : Pc T} (ht : s.pc t = .notifyAll cv)
    (hp : p.work (Fintype.card ι) + Fintype.card ι + 1 ≤
      (Pc.notifyAll cv : Pc T).work (Fintype.card ι)) :
    (State.mk s.shared (Function.update (fun u => (s.pc u).wake cv) t p)).work + 1 ≤ s.work := by
  let woken := fun u => (s.pc u).wake cv
  have hwoken : woken t = .notifyAll cv := by simp only [woken, ht, Pc.wake]
  have h1 := work_update hwoken p s.shared
  have h2 : total (Pc.work (Fintype.card ι)) woken ≤ s.work + Fintype.card ι :=
    total_le_add_card fun u => Pc.work_wake cv _ (s.pc u)
  change (State.mk s.shared (Function.update woken t p)).work + 1 ≤ s.work
  omega

/-- **Every step lowers the work by one, less what its label adds.** -/
theorem Step.work {s s' : State ι T} {l : Label ι T} (hs : Step capacity s l s') :
    s'.work + 1 ≤ s.work + l.cost (Fintype.card ι) := by
  have hwork : total (Pc.work (Fintype.card ι)) s.pc = s.work := rfl
  cases hs with
  | @call t c ht =>
    have h1 := work_update ht (.enter c) s.shared
    simp only [Pc.work, Label.cost] at h1 ⊢
    omega
  | @park t c _ hr _ =>
    have h1 := work_update (Eq.refl (s.pc t)) (.parked c) s.shared
    have h3 := c.three_le_work (Fintype.card ι)
    rw [hr.work] at h1
    simp only [Pc.work, Label.cost] at h1 ⊢
    omega
  | @leave t c _ _ q _ r pc hr hsec hnot =>
    have hpt : pc t = s.pc t := hnot.keeps fun c' hc' => by rw [hc'] at hr; cases hr
    have h1 := work_update hpt (.after c r) q
    have h2 := hnot.work (Fintype.card ι)
    have h3 := (Section.of_eq hsec).work (Fintype.card ι)
    rw [hr.work] at h1
    simp only [Label.cost]
    omega
  | @spurious t c ht =>
    have h1 := work_update ht (.woken c false) s.shared
    have h3 := c.three_le_work (Fintype.card ι)
    simp only [Pc.work, Label.cost] at h1 ⊢
    omega
  | @timeout t c ht _ =>
    have h3 := c.three_le_work (Fintype.card ι)
    rcases ht with ht | ht
    · have h1 := work_update ht (.woken c true) s.shared
      simp only [Pc.work, Label.cost] at h1 ⊢
      omega
    · have h1 := work_update ht (.woken c true) s.shared
      simp only [Pc.work, Label.cost] at h1 ⊢
      omega
  | notifyAllEmpty ht => exact notifyAll_work ht (by simp only [Pc.work]; omega)
  | notifyAllFull ht => exact notifyAll_work ht (by simp only [Pc.work]; omega)
  | @ret t r ht =>
    have h1 := work_update ht .idle s.shared
    simp only [Pc.work, Label.cost] at h1 ⊢
    omega

end

/-- What the labels of a run add to the work. -/
def paid (n : Nat) (ls : List (Label ι T)) : Nat :=
  4 * ls.countP Label.isCall + (2 * n + 1) * ls.countP Label.isClose +
    2 * ls.countP Label.interrupts

theorem paid_snoc (n : Nat) (ls : List (Label ι T)) (l : Label ι T) :
    paid n (ls ++ [l]) = paid n ls + l.cost n := by
  have hl : l.cost n = 4 * (if l.isCall then 1 else 0) +
      (2 * n + 1) * (if l.isClose then 1 else 0) + 2 * if l.interrupts then 1 else 0 := by
    cases l with
    | call t c =>
      cases c with
      | close =>
        simp only [Label.cost, Label.isCall, Label.isClose, Label.interrupts, Call.work]
        change _ = 4 * 1 + (2 * n + 1) * 1 + 2 * 0
        omega
      | _ => rfl
    | _ => rfl
  unfold paid
  rw [hl, List.countP_append, List.countP_append, List.countP_append, List.countP_singleton,
    List.countP_singleton, List.countP_singleton]
  simp only [Nat.mul_add]
  omega

/-! ## Rest -/

section
variable [DecidableEq ι] {s : State ι T}

theorem exists_notify (pc : ι → Pc T) (notify : Option Cv) : ∃ pc', Notify pc notify pc' := by
  cases notify with
  | none => exact ⟨pc, .none⟩
  | some cv =>
    by_cases h : ∃ t c, pc t = .parked c ∧ c.cv = some cv
    · obtain ⟨t, c, hp, hc⟩ := h
      exact ⟨_, .one (.one hp hc)⟩
    · exact ⟨pc, .one (.none fun t c hp hc => h ⟨t, c, hp, hc⟩)⟩

theorem Pc.Ready.exists_step {t : ι} {p : Pc T} {c : Call T} {timedOut : Bool}
    (h : p.Ready c timedOut) (hp : s.pc t = p) :
    ∃ l s', Step capacity s l s' ∧ NoThrow s l ∧ l.Own := by
  subst hp
  cases ho : runSection capacity timedOut none s.shared c with
  | park => exact ⟨_, _, .park h ho, trivial, rfl, rfl⟩
  | leave q notify r =>
    obtain ⟨pc, hnot⟩ := exists_notify s.pc notify
    exact ⟨_, _, .leave h ho hnot, rfl, rfl, rfl⟩
  | undefined => exact absurd ho runSection_defined

/-- No thread can go on by itself just when every thread is outside or parked. -/
theorem resting_iff : s.Resting ↔ ¬∃ l s', Step capacity s l s' ∧ NoThrow s l ∧ l.Own := by
  constructor
  · rintro hrest ⟨l, s', hs, -, hcall, hint⟩
    have hstuck : ∀ t, (∀ c timedOut, ¬(s.pc t).Ready c timedOut) ∧
        (∀ cv, s.pc t ≠ .notifyAll cv) ∧ ∀ r, s.pc t ≠ .done r := by
      intro t
      rcases hrest t with h | ⟨c, h⟩
      · rw [h]; exact ⟨nofun, nofun, nofun⟩
      · rw [h]; exact ⟨nofun, nofun, nofun⟩
    cases hs with
    | call _ => cases hcall
    | park hr _ => exact (hstuck _).1 _ _ hr
    | leave hr _ _ => exact (hstuck _).1 _ _ hr
    | spurious _ => cases hint
    | timeout _ _ => cases hint
    | notifyAllEmpty ht => exact (hstuck _).2.1 _ ht
    | notifyAllFull ht => exact (hstuck _).2.1 _ ht
    | ret ht => exact (hstuck _).2.2 _ ht
  · intro hstuck t
    by_contra hrest
    apply hstuck
    cases hp : s.pc t with
    | idle => exact absurd (.inl hp) hrest
    | enter c => exact (Pc.Ready.enter c).exists_step hp
    | parked c => exact absurd (.inr ⟨c, hp⟩) hrest
    | woken c timedOut => exact (Pc.Ready.woken c timedOut).exists_step hp
    | notifyAll cv =>
      cases cv with
      | notEmpty => exact ⟨_, _, .notifyAllEmpty hp, trivial, rfl, rfl⟩
      | notFull => exact ⟨_, _, .notifyAllFull hp, trivial, rfl, rfl⟩
    | done r => exact ⟨_, _, .ret hp, trivial, rfl, rfl⟩

end

theorem Label.Own.cost_eq {l : Label ι T} (h : l.Own) (n : Nat) : l.cost n = 0 := by
  obtain ⟨hcall, hint⟩ := h
  cases l with
  | call => cases hcall
  | spurious | timeout => cases hint
  | park | leave | notifyAll | ret => rfl

/-- **The threads come to rest.** Any run of any number of threads, throws included, has at most
four steps for each call, two more for each `close ()` and thread and one for itself, and two for
each spurious wakeup or timeout; the threads can go on by themselves until every thread is outside
or parked, and exactly until then. -/
theorem queue_settles [Fintype ι] [DecidableEq ι] {s : State ι T} {ls : List (Label ι T)}
    (h : Exec (system ι T capacity) ls s) :
    ls.length ≤ 4 * ls.countP Label.isCall +
        (2 * Fintype.card ι + 1) * ls.countP Label.isClose + 2 * ls.countP Label.interrupts ∧
      (s.Resting ↔ ¬∃ l s', Step capacity s l s' ∧ NoThrow s l ∧ l.Own) ∧
      ∃ ls' s', Run ((system ι T capacity).restrict fun s l => NoThrow s l ∧ l.Own) s ls' s' ∧
        s'.Resting := by
  refine ⟨?_, resting_iff, ?_⟩
  · obtain ⟨s₀, h0, hrun⟩ := h.exists_run
    have hlen := hrun.length_le_paid (paid_snoc (Fintype.card ι)) fun _ _ _ hs => Step.work hs
    have hzero : s₀.work = 0 := by
      cases h0
      exact total_eq_zero.2 fun _ => rfl
    unfold paid at hlen
    omega
  · refine Run.exists_of_measure (m := State.work) (fun s hs => ?_) s
    have hgo : ∃ l s', Step capacity s l s' ∧ NoThrow s l ∧ l.Own := by
      by_contra hstuck
      exact hs (resting_iff.2 hstuck)
    obtain ⟨l, s', hstep, hnothrow, hown⟩ := hgo
    have hwork := hstep.work
    rw [hown.cost_eq, Nat.add_zero] at hwork
    exact ⟨l, s', ⟨hstep, hnothrow, hown⟩, hwork⟩

/-- A consumer that waits, spuriously woken once, and a push that wakes it. -/
theorem queue_settles_two : ∃ (ls : List (Label Bool Nat)) (s : State Bool Nat),
    Exec (system Bool Nat 1) ls s ∧ s.pc true = .woken .pop false ∧
      ∃ ls' s', Run ((system Bool Nat 1).restrict fun s l => NoThrow s l ∧ l.Own) s ls' s' ∧
        s'.Resting := by
  have h0 : Exec (system Bool Nat 1) [] ⟨⟨[], false⟩, fun _ => .idle⟩ := .init rfl
  have h1 := h0.snoc (.call (t := true) (c := .pop) rfl)
  have h2 := h1.snoc (.park (t := true) (.enter _) rfl)
  have h3 := h2.snoc (.spurious (t := true) rfl)
  have h4 := h3.snoc (.park (t := true) (.woken _ _) rfl)
  have h5 := h4.snoc (.call (t := false) (c := .push 5 true) rfl)
  have h6 : Exec (system Bool Nat 1) (_ ++ [.leave false (.push 5 true) none _]) _ :=
    h5.snoc (.leave (.enter _) rfl (.one (.one (t := true) rfl rfl)))
  exact ⟨_, _, h6, rfl, (queue_settles h6).2.2⟩

end BlockingQueue
