import Snippets.Lib.Threads
import Snippets.Queue.Proof.Section

/-!
# No wakeup of `concurrent_blocking_queue` is lost

For each condition variable: while a thread is parked on it, the elements (for `not_empty_cv_`) or
the free slots (for `not_full_cv_`) are no more than the threads that were woken from it and do not
have the mutex yet, or the queue is closed and a `close ()` has its `notify_all` on it to come
(`Served`).

A thread parks only when there is nothing for it, so the count starts at zero; what is added to it
comes with a `notify_one`, which wakes one more thread unless none is parked; and a woken thread
that takes the mutex uses up one unit, or finds none left (`Step.served`). The invariant needs no
relation between the units and the wakeups of particular threads: spurious wakeups and timeouts
only add woken threads.

A woken thread that throws before it has changed the queue leaves its unit for nobody in
particular: the invariant survives that if another woken thread is left for every unit (`Spares`),
and always if nothing throws.
-/

namespace BlockingQueue

open Lts Threads

variable {T ι : Type*} {capacity : Nat}

/-! ## Counts -/

/-- 1 for a thread parked on `cv`. -/
def Pc.parkedOn (cv : Cv) : Pc T → Nat
  | .parked c => if c.cv = some cv then 1 else 0
  | _ => 0

/-- 1 for a thread woken from `cv` that does not have the mutex yet. -/
def Pc.wokenFrom (cv : Cv) : Pc T → Nat
  | .woken c _ => if c.cv = some cv then 1 else 0
  | _ => 0

/-- A `close ()` that still has its `notify_all` on `cv` to issue. -/
def Pc.WillNotifyAll (p : Pc T) : Cv → Prop
  | .notEmpty => p = .notifyAll .notEmpty
  | .notFull => p = .notifyAll .notEmpty ∨ p = .notifyAll .notFull

/-- What the threads that wait on a condition variable wait for. -/
def Shared.units (capacity : Nat) (q : Shared T) : Cv → Nat
  | .notEmpty => q.queue.length
  | .notFull => capacity - q.queue.length

section
variable [Fintype ι]

/-- How many threads are parked on `cv`. -/
def State.parked (s : State ι T) (cv : Cv) : Nat := total (Pc.parkedOn cv) s.pc

/-- How many threads were woken on `cv` and have not run. -/
def State.woken (s : State ι T) (cv : Cv) : Nat := total (Pc.wokenFrom cv) s.pc

/-- The invariant for one condition variable. -/
def Served (capacity : Nat) (s : State ι T) (cv : Cv) : Prop :=
  0 < s.parked cv →
    (s.shared.closed = false ∧ s.shared.units capacity cv ≤ s.woken cv) ∨
      (s.shared.closed = true ∧ ∃ t, (s.pc t).WillNotifyAll cv)

/-- The element operation of the call that comes before its change of the queue throws. -/
def Call.FailsAt (throwAt : Option ThrowAt) : Call T → Prop
  | .push .. | .tryPush .. => throwAt = some .pushBack
  | .pop | .tryPop => throwAt = some .moveFront
  | _ => False

/-- A woken thread fails only if, while others are parked where it was, more threads are woken from
there than there are units. -/
def Spares (capacity : Nat) (s : State ι T) : Label ι T → Prop
  | .leave t c throwAt _ => c.FailsAt throwAt → ∀ timedOut cv, s.pc t = .woken c timedOut →
      c.cv = some cv → s.shared.closed = false → 0 < s.shared.units capacity cv →
      0 < s.parked cv → s.shared.units capacity cv < s.woken cv
  | _ => True

end

theorem Pc.parkedOn_wake_self (cv : Cv) (p : Pc T) : (p.wake cv).parkedOn cv = 0 := by
  cases p with
  | parked c =>
    by_cases h : c.cv = some cv
    · rw [Pc.wake, if_pos h]; rfl
    · rw [Pc.wake, if_neg h, Pc.parkedOn, if_neg h]
  | _ => rfl

theorem Pc.wake_ne {cv cv' : Cv} (h : cv ≠ cv') (p : Pc T) :
    (p.wake cv').parkedOn cv = p.parkedOn cv ∧ (p.wake cv').wokenFrom cv = p.wokenFrom cv := by
  cases p with
  | parked c =>
    by_cases hc : c.cv = some cv'
    · have hne : ¬ c.cv = some cv := fun he => h (Option.some.inj (he.symm.trans hc))
      rw [Pc.wake, if_pos hc]
      simp only [Pc.parkedOn, Pc.wokenFrom, if_neg hne, and_self]
    · rw [Pc.wake, if_neg hc]
      exact ⟨rfl, rfl⟩
  | _ => exact ⟨rfl, rfl⟩

theorem Pc.WillNotifyAll.wake {cv cv' : Cv} {p : Pc T} (h : p.WillNotifyAll cv) :
    (p.wake cv').WillNotifyAll cv := by
  cases cv with
  | notEmpty => cases h; rfl
  | notFull => rcases h with rfl | rfl <;> simp [Pc.wake, Pc.WillNotifyAll]

theorem Pc.Ready.parkedOn {p : Pc T} {c : Call T} {timedOut : Bool} (h : p.Ready c timedOut)
    (cv : Cv) : p.parkedOn cv = 0 := by
  cases h <;> rfl

theorem Pc.Ready.wokenFrom {p : Pc T} {c : Call T} {timedOut : Bool} (h : p.Ready c timedOut)
    (cv : Cv) : p.wokenFrom cv ≤ if c.cv = some cv then 1 else 0 := by
  cases h with
  | enter => exact Nat.zero_le _
  | woken => exact Nat.le_refl _

theorem Pc.WillNotifyAll.eq {cv : Cv} {p : Pc T} (h : p.WillNotifyAll cv) :
    ∃ cv', p = .notifyAll cv' := by
  cases cv with
  | notEmpty => exact ⟨_, h⟩
  | notFull => rcases h with h | h <;> exact ⟨_, h⟩

theorem Pc.Ready.not_willNotifyAll {p : Pc T} {c : Call T} {timedOut : Bool}
    (h : p.Ready c timedOut) (cv : Cv) : ¬ p.WillNotifyAll cv := fun hw => by
  obtain ⟨cv', rfl⟩ := hw.eq
  cases h

theorem Pc.after_counts (c : Call T) (r : Res T) (cv : Cv) :
    (Pc.after c r).parkedOn cv = 0 ∧ (Pc.after c r).wokenFrom cv = 0 := by
  cases c <;> exact ⟨rfl, rfl⟩

/-! ## Notifications -/

section
variable [DecidableEq ι]

theorem Notify.keeps {pc pc' : ι → Pc T} {n : Option Cv} (h : Notify pc n pc') {u : ι}
    (hu : ∀ c, pc u ≠ .parked c) : pc' u = pc u := by
  cases h with
  | none => rfl
  | one h =>
    cases h with
    | none _ => rfl
    | one hp _ => exact Function.update_of_ne (fun he => hu _ (he ▸ hp)) _ _

variable [Fintype ι]

/-- A `notify_one` on `cv` moves one thread from parked to woken, unless none is parked. -/
theorem NotifyOne.counts {pc pc' : ι → Pc T} {cv : Cv} (h : NotifyOne cv pc pc') :
    (total (Pc.parkedOn cv) pc' + 1 = total (Pc.parkedOn cv) pc ∧
      total (Pc.wokenFrom cv) pc' = total (Pc.wokenFrom cv) pc + 1) ∨
      (pc' = pc ∧ total (Pc.parkedOn cv) pc = 0) := by
  cases h with
  | @one t c hp hc =>
    refine .inl ⟨?_, ?_⟩
    · have := total_update (Pc.parkedOn cv) pc t (.woken c false)
      simpa [hp, Pc.parkedOn, hc] using this
    · have := total_update (Pc.wokenFrom cv) pc t (.woken c false)
      simpa [hp, Pc.wokenFrom, hc] using this
  | none hnone =>
    refine .inr ⟨rfl, total_eq_zero.2 fun u => ?_⟩
    cases hu : pc u with
    | parked c => exact if_neg (hnone u c hu)
    | _ => rfl

theorem Notify.counts_ne {pc pc' : ι → Pc T} {n : Option Cv} {cv : Cv} (h : Notify pc n pc')
    (hn : n ≠ some cv) : total (Pc.parkedOn cv) pc' = total (Pc.parkedOn cv) pc ∧
      total (Pc.wokenFrom cv) pc' = total (Pc.wokenFrom cv) pc := by
  cases h with
  | none => exact ⟨rfl, rfl⟩
  | @one cv' _ h =>
    cases h with
    | none _ => exact ⟨rfl, rfl⟩
    | @one t c hp hc =>
      have hne : ¬ c.cv = some cv := fun he => hn (hc.symm.trans he)
      refine ⟨total_update_same ?_, total_update_same ?_⟩
      · simp [hp, Pc.parkedOn, hne]
      · simp [hp, Pc.wokenFrom, hne]

end

/-! ## One step -/

variable [Fintype ι]

/-- A step keeps the invariant of `cv` if it parks no thread on `cv`, leaves `closed_` alone, adds
no more units than woken threads and drops no `close ()` that has its `notify_all` to come. -/
theorem Served.of {s s' : State ι T} {cv : Cv} (h : Served capacity s cv)
    (hp : s'.parked cv ≤ s.parked cv) (hc : s'.shared.closed = s.shared.closed)
    (hu : s.shared.closed = false → 0 < s'.parked cv →
      s.shared.units capacity cv ≤ s.woken cv → s'.shared.units capacity cv ≤ s'.woken cv)
    (hn : ∀ u, (s.pc u).WillNotifyAll cv → ∃ t, (s'.pc t).WillNotifyAll cv) :
    Served capacity s' cv := by
  intro hpos
  rcases h (Nat.lt_of_lt_of_le hpos hp) with ⟨hopen, hle⟩ | ⟨hclosed, t, ht⟩
  · exact .inl ⟨hc.trans hopen, hu hopen hpos hle⟩
  · exact .inr ⟨hc.trans hclosed, hn t ht⟩

variable [DecidableEq ι]

/-- A step that only moves a thread, between program counters of which the second counts no more
as parked and no less as woken. -/
theorem Served.move {s : State ι T} {cv : Cv} (h : Served capacity s cv) {t : ι} {p : Pc T}
    (hp : p.parkedOn cv ≤ (s.pc t).parkedOn cv) (hw : (s.pc t).wokenFrom cv ≤ p.wokenFrom cv)
    (hn : ¬ (s.pc t).WillNotifyAll cv) :
    Served capacity { s with pc := Function.update s.pc t p } cv := by
  have h1 := total_update (Pc.parkedOn cv) s.pc t p
  have h2 := total_update (Pc.wokenFrom cv) s.pc t p
  have hparked : total (Pc.parkedOn cv) (Function.update s.pc t p) ≤ s.parked cv := by
    unfold State.parked; omega
  have hwoken : s.woken cv ≤ total (Pc.wokenFrom cv) (Function.update s.pc t p) := by
    unfold State.woken; omega
  refine h.of hparked rfl (fun _ _ hle => Nat.le_trans hle hwoken) fun u hu => ⟨u, ?_⟩
  have hne : u ≠ t := fun he => hn (he ▸ hu)
  show ((Function.update s.pc t p) u).WillNotifyAll cv
  rwa [Function.update_of_ne hne]

theorem Served.park {s : State ι T} {cv : Cv} (h : Served capacity s cv) {t : ι} {c : Call T}
    {timedOut : Bool} (hr : (s.pc t).Ready c timedOut)
    (hs : Section capacity timedOut none s.shared c .park) :
    Served capacity { s with pc := Function.update s.pc t (.parked c) } cv := by
  by_cases hcv : c.cv = some cv
  · have hnone : s.shared.closed = false ∧ s.shared.units capacity cv = 0 := by
      cases hs with
      | parkPush hc hopen hfull =>
        obtain rfl : cv = .notFull := by rcases hc with rfl | rfl <;> cases hcv <;> rfl
        exact ⟨hopen, Nat.sub_eq_zero_of_le hfull⟩
      | parkPop hc hopen hempty =>
        obtain rfl : cv = .notEmpty := by rcases hc with rfl | rfl <;> cases hcv <;> rfl
        exact ⟨hopen, by rw [Shared.units, hempty]; rfl⟩
    exact fun _ => .inl ⟨hnone.1, hnone.2 ▸ Nat.zero_le _⟩
  · have hw := hr.wokenFrom cv
    rw [if_neg hcv] at hw
    refine h.move ?_ (Nat.le_trans hw (Nat.zero_le _)) (hr.not_willNotifyAll cv)
    rw [Pc.parkedOn, if_neg hcv]
    exact Nat.zero_le _

/-- What a section that leaves does to the units of `cv` and to `closed_`. `n` is the notification
it issues. -/
def Shared.Uses (capacity : Nat) (q q' : Shared T) (c : Call T) (n : Option Cv) (cv : Cv) : Prop :=
  (n = some cv → c.cv ≠ some cv ∧ q'.units capacity cv ≤ q.units capacity cv + 1) ∧
    (n ≠ some cv → c.cv ≠ some cv → q'.units capacity cv ≤ q.units capacity cv) ∧
    (n ≠ some cv → c.cv = some cv → q'.units capacity cv ≤ q.units capacity cv - 1)

/-- A section that fails throws with the queue as it was and a unit left for it. -/
def Shared.Fails (capacity : Nat) (q q' : Shared T) (c : Call T) (throwAt : Option ThrowAt)
    (n : Option Cv) : Prop :=
  c.FailsAt throwAt ∧ q' = q ∧ n = none ∧ ∀ cv, c.cv = some cv → 0 < q.units capacity cv

theorem Section.uses {timedOut : Bool} {throwAt : Option ThrowAt} {q q' : Shared T} {c : Call T}
    {n : Option Cv} {r : Res T} (hs : Section capacity timedOut throwAt q c (.leave q' n r))
    (hopen : q.closed = false) :
    (∀ cv, q.Uses capacity q' c n cv) ∨ q.Fails capacity q' c throwAt n := by
  cases hs with
  | accept hc _ hroom _ =>
    refine .inl fun cv => ?_
    rcases hc with rfl | rfl <;> cases cv <;> simp [Shared.Uses, Shared.units, Call.cv] <;> omega
  | refuse hc hor =>
    refine .inl fun cv => ?_
    have hfull : capacity ≤ q.queue.length := by
      rcases hor with h | ⟨-, h⟩
      · rw [hopen] at h; cases h
      · exact h
    rcases hc with rfl | rfl <;> cases cv <;> simp [Shared.Uses, Shared.units, Call.cv] <;> omega
  | deliver hc hq _ _ | returnThrow hc hq _ =>
    refine .inl fun cv => ?_
    rcases hc with rfl | rfl <;> cases cv <;>
      simp [Shared.Uses, Shared.units, Call.cv, hq] <;> omega
  | nothing hc hq _ =>
    refine .inl fun cv => ?_
    rcases hc with rfl | rfl <;> cases cv <;> simp [Shared.Uses, Shared.units, Call.cv, hq]
  | close | size | empty | isClosed =>
    refine .inl fun cv => ?_
    cases cv <;> simp [Shared.Uses, Shared.units, Call.cv]
  | acceptThrow hc _ hroom ht =>
    refine .inr ⟨?_, rfl, rfl, ?_⟩
    · rcases hc with rfl | rfl <;> exact ht
    · have hfree : 0 < capacity - q.queue.length := Nat.sub_pos_of_lt hroom
      rcases hc with rfl | rfl <;> simpa [Call.cv, Shared.units] using hfree
  | frontThrow hc hq ht =>
    refine .inr ⟨?_, rfl, rfl, ?_⟩
    · rcases hc with rfl | rfl <;> exact ht
    · rcases hc with rfl | rfl <;> simp [Call.cv, Shared.units, hq]

theorem Section.closed_eq {timedOut : Bool} {throwAt : Option ThrowAt} {q q' : Shared T}
    {c : Call T} {n : Option Cv} {r : Res T}
    (hs : Section capacity timedOut throwAt q c (.leave q' n r)) :
    q'.closed = q.closed ∨ (q'.closed = true ∧ c = .close) := by
  cases hs with
  | close => exact .inr ⟨rfl, rfl⟩
  | _ => exact .inl rfl

omit [DecidableEq ι] in
/-- A thread that fails leaves its unit; the woken threads that remain are enough for all units. -/
theorem Spares.counts {s : State ι T} {cv : Cv} {t : ι} {c : Call T} {timedOut : Bool}
    {throwAt : Option ThrowAt} {r : Res T} (h : Spares capacity s (.leave t c throwAt r))
    (hr : (s.pc t).Ready c timedOut) (hfail : c.FailsAt throwAt)
    (hunits : ∀ cv, c.cv = some cv → 0 < s.shared.units capacity cv)
    (hopen : s.shared.closed = false) (hpos : 0 < s.parked cv)
    (hle : s.shared.units capacity cv ≤ s.woken cv) :
    s.shared.units capacity cv ≤ s.woken cv - (s.pc t).wokenFrom cv := by
  have hw := hr.wokenFrom cv
  by_cases hccv : c.cv = some cv
  · rw [if_pos hccv] at hw
    generalize hp : s.pc t = p at hr hw ⊢
    cases hr with
    | enter => exact hle
    | woken =>
      have := h hfail _ cv hp hccv hopen (hunits cv hccv) hpos
      omega
  · rw [if_neg hccv] at hw
    omega

/-- A section that leaves adds at most one unit, with a `notify_one`, and a woken thread uses one up
or finds none left, or else can be spared. -/
theorem Section.leave_counts {s : State ι T} (cv : Cv) {t : ι} {c : Call T} {timedOut : Bool}
    {throwAt : Option ThrowAt} {q : Shared T} {n : Option Cv} {r : Res T} {pc : ι → Pc T}
    (hr : (s.pc t).Ready c timedOut)
    (hs : Section capacity timedOut throwAt s.shared c (.leave q n r)) (hn : Notify s.pc n pc)
    (hspares : Spares capacity s (.leave t c throwAt r)) :
    total (Pc.parkedOn cv) pc ≤ s.parked cv ∧
      (s.shared.closed = false → 0 < total (Pc.parkedOn cv) pc →
        s.shared.units capacity cv ≤ s.woken cv →
        q.units capacity cv ≤ total (Pc.wokenFrom cv) pc - (s.pc t).wokenFrom cv) := by
  have hw := hr.wokenFrom cv
  by_cases hncv : n = some cv
  · subst hncv
    cases hn with
    | one hn =>
      rcases hn.counts with ⟨hp, hwk⟩ | ⟨rfl, hp⟩
      · refine ⟨by unfold State.parked; omega, fun hopen _ hle => ?_⟩
        rcases hs.uses hopen with huses | ⟨-, -, hnone, -⟩
        · obtain ⟨hccv, hu⟩ := (huses cv).1 rfl
          rw [if_neg hccv] at hw
          unfold State.woken at hle
          omega
        · cases hnone
      · exact ⟨Nat.le_refl _, fun _ hpos => absurd hp hpos.ne'⟩
  · obtain ⟨hp, hwk⟩ := hn.counts_ne hncv
    refine ⟨hp.le, fun hopen hpos hle => ?_⟩
    rcases hs.uses hopen with huses | ⟨hfail, rfl, -, hunits⟩
    · obtain ⟨-, hu2, hu3⟩ := huses cv
      unfold State.woken at hle
      by_cases hccv : c.cv = some cv
      · have := hu3 hncv hccv
        rw [if_pos hccv] at hw
        omega
      · have := hu2 hncv hccv
        rw [if_neg hccv] at hw
        omega
    · rw [hwk]
      rw [hp] at hpos
      exact hspares.counts hr hfail hunits hopen hpos hle

theorem Served.leave {s : State ι T} {cv : Cv} (h : Served capacity s cv) {t : ι} {c : Call T}
    {timedOut : Bool} {throwAt : Option ThrowAt} {q : Shared T} {n : Option Cv} {r : Res T}
    {pc : ι → Pc T} (hr : (s.pc t).Ready c timedOut)
    (hs : Section capacity timedOut throwAt s.shared c (.leave q n r)) (hn : Notify s.pc n pc)
    (hspares : Spares capacity s (.leave t c throwAt r)) :
    Served capacity ⟨q, Function.update pc t (.after c r)⟩ cv := by
  have hpt : pc t = s.pc t := hn.keeps fun c' hc' => by rw [hc'] at hr; cases hr
  -- the counts after the notification and the move of `t`
  have h1 := total_update (Pc.parkedOn cv) pc t (.after c r)
  have h2 := total_update (Pc.wokenFrom cv) pc t (.after c r)
  rw [hpt, hr.parkedOn, (Pc.after_counts c r cv).1] at h1
  rw [hpt, (Pc.after_counts c r cv).2] at h2
  have hpend : ∀ u, (s.pc u).WillNotifyAll cv →
      (Function.update pc t (.after c r) u).WillNotifyAll cv := by
    intro u hu
    have hne : u ≠ t := fun he => hr.not_willNotifyAll cv (he ▸ hu)
    rw [Function.update_of_ne hne, hn.keeps fun c' hc' => ?_]
    · exact hu
    · obtain ⟨cv', he⟩ := hu.eq
      rw [hc'] at he
      cases he
  rcases hs.closed_eq with hclosed | ⟨hclosed, rfl⟩
  · have hcounts := hs.leave_counts cv hr hn hspares
    refine h.of (Nat.le_trans (Nat.le_of_eq h1) hcounts.1) hclosed (fun hopen hpos hle => ?_)
      fun u hu => ⟨u, hpend u hu⟩
    have hpos' : 0 < total (Pc.parkedOn cv) (Function.update pc t (.after c r)) := hpos
    have := hcounts.2 hopen (by omega) hle
    show q.units capacity cv ≤ total (Pc.wokenFrom cv) (Function.update pc t (.after c r))
    omega
  · -- `close ()`: both `notify_all` are still to come
    refine fun _ => .inr ⟨hclosed, t, ?_⟩
    show (Function.update pc t (.after .close r) t).WillNotifyAll cv
    rw [Function.update_self]
    cases cv with
    | notEmpty => rfl
    | notFull => exact .inl rfl

/-- A `notify_all` on `cv'` leaves no thread parked on `cv'`; the thread's `notify_all` on another
condition variable is still to come if it was. -/
theorem Served.notifyAll {s : State ι T} {cv cv' : Cv} (h : Served capacity s cv) {t : ι} {p : Pc T}
    (ht : s.pc t = .notifyAll cv') (hp : ∀ cv, p.parkedOn cv = 0 ∧ p.wokenFrom cv = 0)
    (hnext : cv ≠ cv' → (s.pc t).WillNotifyAll cv → p.WillNotifyAll cv) :
    Served capacity { s with pc := Function.update (fun u => (s.pc u).wake cv') t p } cv := by
  have h1 := total_update (Pc.parkedOn cv) (fun u => (s.pc u).wake cv') t p
  have h2 := total_update (Pc.wokenFrom cv) (fun u => (s.pc u).wake cv') t p
  rw [ht] at h1 h2
  rw [(hp cv).1, show ((Pc.notifyAll cv' : Pc T).wake cv').parkedOn cv = 0 from rfl] at h1
  rw [(hp cv).2, show ((Pc.notifyAll cv' : Pc T).wake cv').wokenFrom cv = 0 from rfl] at h2
  by_cases hcv : cv = cv'
  · subst hcv
    have h0 : total (Pc.parkedOn cv) (fun u => (s.pc u).wake cv) = 0 :=
      total_eq_zero.2 fun u => Pc.parkedOn_wake_self cv _
    intro hpos
    have hpos' : 0 < total (Pc.parkedOn cv) (Function.update (fun u => (s.pc u).wake cv) t p) :=
      hpos
    omega
  · have hp' : total (Pc.parkedOn cv) (fun u => (s.pc u).wake cv') = s.parked cv :=
      total_congr fun u => (Pc.wake_ne hcv _).1
    have hw' : total (Pc.wokenFrom cv) (fun u => (s.pc u).wake cv') = s.woken cv :=
      total_congr fun u => (Pc.wake_ne hcv _).2
    refine h.of (Nat.le_of_eq (h1.trans hp')) rfl (fun _ _ hle => ?_) fun u hu => ?_
    · exact Nat.le_trans hle (Nat.le_of_eq (hw'.symm.trans h2.symm))
    · refine ⟨u, ?_⟩
      show (Function.update (fun u => (s.pc u).wake cv') t p u).WillNotifyAll cv
      by_cases hut : u = t
      · subst hut; rw [Function.update_self]; exact hnext hcv hu
      · rw [Function.update_of_ne hut]; exact hu.wake

/-- **Every step that spares a woken thread if one fails keeps the invariant of both condition
variables.** -/
theorem Step.served {s s' : State ι T} {l : Label ι T} (hs : Step capacity s l s')
    (hn : Spares capacity s l) {cv : Cv} (h : Served capacity s cv) : Served capacity s' cv := by
  have hidle : ∀ {t : ι}, (∀ cv', s.pc t ≠ .notifyAll cv') → ¬ (s.pc t).WillNotifyAll cv :=
    fun hne hw => by
      obtain ⟨cv', he⟩ := hw.eq
      exact hne cv' he
  cases hs with
  | call ht =>
    refine h.move (Nat.zero_le _) (by rw [ht]; exact Nat.le_refl _) (hidle fun _ he => ?_)
    rw [ht] at he
    cases he
  | park hr hsec => exact h.park hr (.of_eq hsec)
  | leave hr hsec hnot => exact h.leave hr (.of_eq hsec) hnot hn
  | spurious ht =>
    refine h.move (Nat.zero_le _) (by rw [ht]; exact Nat.zero_le _) (hidle fun _ he => ?_)
    rw [ht] at he
    cases he
  | timeout ht _ =>
    refine h.move (Nat.zero_le _) ?_ (hidle fun _ he => ?_)
    · rcases ht with ht | ht
      · rw [ht]; exact Nat.zero_le _
      · rw [ht]; exact Nat.le_refl _
    · rcases ht with ht | ht <;> rw [ht] at he <;> cases he
  | notifyAllEmpty ht =>
    refine h.notifyAll ht (fun _ => ⟨rfl, rfl⟩) fun hne _ => ?_
    cases cv with
    | notEmpty => exact absurd rfl hne
    | notFull => exact .inr rfl
  | notifyAllFull ht =>
    refine h.notifyAll ht (fun _ => ⟨rfl, rfl⟩) fun hne hw => ?_
    cases cv with
    | notEmpty => rw [ht] at hw; cases hw
    | notFull => exact absurd rfl hne
  | ret ht =>
    refine h.move (Nat.zero_le _) (by rw [ht]; exact Nat.le_refl _) (hidle fun _ he => ?_)
    rw [ht] at he
    cases he

/-! ## Runs -/

variable {ls : List (Label ι T)} {s : State ι T}

omit [DecidableEq ι] in
theorem NoThrow.spares {l : Label ι T} (h : NoThrow s l) : Spares capacity s l := by
  cases l with
  | leave t c throwAt r =>
    cases h
    intro hfail
    cases c <;> cases hfail
  | _ => trivial

theorem system_served (h : Exec ((system ι T capacity).restrict (Spares capacity)) ls s) (cv : Cv) :
    Served capacity s cv := by
  refine h.invariant (I := fun s => Served capacity s cv) (fun s h0 => ?_) fun s l s' hi hs => ?_
  · cases h0
    intro hpos
    obtain ⟨t, ht⟩ := exists_of_total_pos hpos
    exact absurd ht (Nat.lt_irrefl 0)
  · exact hs.1.served hs.2 hi

omit [DecidableEq ι] in
theorem parked_pos {cv : Cv} {t : ι} {c : Call T} (ht : s.pc t = .parked c)
    (hc : c.cv = some cv) : 0 < s.parked cv := by
  have hle : (s.pc t).parkedOn cv ≤ s.parked cv := le_total (Pc.parkedOn cv) s.pc t
  rw [ht, Pc.parkedOn, if_pos hc] at hle
  exact hle

/-- **No wakeup is lost** while no element operation throws: while a thread is parked on
`not_empty_cv_`, the queued elements are at most the threads woken from it that do not have the
mutex yet, or the queue is closed and a `close ()` has its `notify_all` on it to come; the same for
`not_full_cv_` and the free slots. So with a positive capacity, while both a consumer and a
producer are parked, some thread has been woken and is on its way, or a `close ()` is about to
notify. -/
theorem no_lost_wakeup (h : Exec ((system ι T capacity).restrict NoThrow) ls s) :
    ((∃ t c, s.pc t = .parked c ∧ c.cv = some .notEmpty) →
        (s.shared.closed = false ∧ s.shared.queue.length ≤ s.woken .notEmpty) ∨
          (s.shared.closed = true ∧ ∃ t, s.pc t = .notifyAll .notEmpty)) ∧
      ((∃ t c, s.pc t = .parked c ∧ c.cv = some .notFull) →
        (s.shared.closed = false ∧ capacity - s.shared.queue.length ≤ s.woken .notFull) ∨
          (s.shared.closed = true ∧
            ∃ t, s.pc t = .notifyAll .notEmpty ∨ s.pc t = .notifyAll .notFull)) ∧
      (0 < capacity → (∃ t c, s.pc t = .parked c ∧ c.cv = some .notEmpty) →
        (∃ t c, s.pc t = .parked c ∧ c.cv = some .notFull) →
        ∃ t, (∃ c timedOut, s.pc t = .woken c timedOut) ∨ ∃ cv, s.pc t = .notifyAll cv) := by
  have hserved := system_served (h.restrict_mono fun _ _ => NoThrow.spares)
  have hwoken : ∀ cv, 0 < s.woken cv → ∃ t, ∃ c timedOut, s.pc t = .woken c timedOut := by
    intro cv hpos
    obtain ⟨t, ht⟩ := exists_of_total_pos hpos
    cases hp : s.pc t with
    | woken c timedOut => exact ⟨t, c, timedOut, hp⟩
    | _ => rw [hp] at ht; exact absurd ht (Nat.lt_irrefl 0)
  refine ⟨fun ⟨t, c, ht, hc⟩ => hserved .notEmpty (parked_pos ht hc),
    fun ⟨t, c, ht, hc⟩ => hserved .notFull (parked_pos ht hc), ?_⟩
  rintro hcap ⟨t, c, ht, hc⟩ ⟨t', c', ht', hc'⟩
  rcases hserved .notEmpty (parked_pos ht hc) with ⟨hopen, he⟩ | ⟨-, u, hu⟩
  · rcases hserved .notFull (parked_pos ht' hc') with ⟨-, hf⟩ | ⟨hclosed, -⟩
    · -- an element or a free slot: its waiter is on its way
      rcases Nat.eq_zero_or_pos s.shared.queue.length with hempty | hne
      · have hf' : capacity - s.shared.queue.length ≤ s.woken .notFull := hf
        obtain ⟨u, hu⟩ := hwoken .notFull (by omega)
        exact ⟨u, .inl hu⟩
      · obtain ⟨u, hu⟩ := hwoken .notEmpty (Nat.lt_of_lt_of_le hne he)
        exact ⟨u, .inl hu⟩
    · rw [hopen] at hclosed; cases hclosed
  · exact ⟨u, .inr ⟨_, hu⟩⟩

/-- A consumer that stays parked while another one has been woken for the element. -/
theorem no_lost_wakeup_two_consumers :
    ∃ (ls : List (Label (Fin 3) Nat)) (s : State (Fin 3) Nat),
      Exec ((system (Fin 3) Nat 1).restrict NoThrow) ls s ∧ s.pc 1 = .parked .pop ∧
        s.shared.queue = [5] ∧ s.shared.queue.length ≤ s.woken .notEmpty := by
  have h0 : Exec ((system (Fin 3) Nat 1).restrict NoThrow) [] ⟨⟨[], false⟩, fun _ => .idle⟩ :=
    .init rfl
  have h1 := h0.snoc ⟨.call (t := 0) (c := .pop) rfl, trivial⟩
  have h2 := h1.snoc ⟨.park (t := 0) (.enter _) rfl, trivial⟩
  have h3 := h2.snoc ⟨.call (t := 1) (c := .pop) rfl, trivial⟩
  have h4 := h3.snoc ⟨.park (t := 1) (.enter _) rfl, trivial⟩
  have h5 := h4.snoc ⟨.call (t := 2) (c := .push 5 true) rfl, trivial⟩
  have h6 := h5.snoc ⟨.leave (t := 2) (.enter _) rfl (.one (.one (t := 0) rfl rfl)), rfl⟩
  refine ⟨_, _, h6, rfl, rfl, ?_⟩
  rcases (no_lost_wakeup h6).1 ⟨1, _, rfl, rfl⟩ with h | ⟨h, -⟩
  · exact h.2
  · cases h

end BlockingQueue
