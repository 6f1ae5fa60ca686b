import Snippets.Echo.Main

/-!
# Where the threads of the echo servers are

A thread that runs the handler of an acceptor or of the signal has it to itself (`Tasks`): taking a
task that is ready makes it busy, and performing it gives it back. With where `main` is this gives
`Inv`: which acceptors are made, which threads are started and joined, and that `run ()` returns
only when the context is stopped.
-/

namespace Echo.Main

open Lts

variable {n : Nat} {p : Program} {s s' : State n} {l : Label n}

/-! ## Workers -/

theorem worker_setWorker (s : State n) (r r' : Option (Fin n)) (w : Worker) :
    (s.setWorker r w).worker r' = if r' = r then w else s.worker r' := by
  cases r with
  | none =>
    cases r' with
    | none => rfl
    | some j => rfl
  | some i =>
    cases r' with
    | none => rfl
    | some j =>
      change Function.update s.threads i w j = _
      by_cases hij : j = i
      · subst hij
        rw [Function.update_self, if_pos rfl]
      · rw [Function.update_of_ne hij, if_neg fun h => hij (Option.some.inj h)]
        rfl

theorem worker_none {w : Worker} (h : s.worker none = w) (hw : w ≠ .unspawned) :
    s.phase = .serving w := by
  unfold State.worker at h
  generalize s.phase = ph at h
  cases ph with
  | serving => exact congrArg Phase.serving h
  | _ => exact absurd h.symm hw

@[simp] theorem claim_phase (s : State n) (t : Task) : (s.claim t).phase = s.phase := by
  cases t <;> rfl

@[simp] theorem claim_threads (s : State n) (t : Task) : (s.claim t).threads = s.threads := by
  cases t <;> rfl

@[simp] theorem claim_stopped (s : State n) (t : Task) : (s.claim t).stopped = s.stopped := by
  cases t <;> rfl

@[simp] theorem perform_phase (s : State n) (t : Task) : (s.perform t).phase = s.phase := by
  rcases t with _ | ⟨_, _ | _⟩ | _ | _ | _ <;> rfl

@[simp] theorem perform_threads (s : State n) (t : Task) : (s.perform t).threads = s.threads := by
  rcases t with _ | ⟨_, _ | _⟩ | _ | _ | _ <;> rfl

theorem worker_congr (hphase : s'.phase = s.phase) (hthreads : s'.threads = s.threads)
    (r : Option (Fin n)) : s'.worker r = s.worker r := by
  unfold State.worker
  rw [hphase, hthreads]

/-! ## Who has what -/

/-- Some thread runs a handler of it. -/
def State.Busy (s : State n) : Resource → Prop
  | .acceptor i => s.acceptors i = .busy
  | .signals => s.signals = .busy

/-- A busy acceptor is one whose handler some thread runs, and only one does. -/
structure Tasks (s : State n) : Prop where
  busy : ∀ x, s.Busy x ↔ ∃ r t, s.worker r = .running t ∧ t.resource = some x
  alone : ∀ r r' t t' x, s.worker r = .running t → s.worker r' = .running t' →
    t.resource = some x → t'.resource = some x → r = r'

theorem update_eq_iff {α : Type*} {f : Fin 10 → α} {i j : Fin 10} {a b : α} (hab : a ≠ b) :
    Function.update f i a j = b ↔ f j = b ∧ j ≠ i := by
  by_cases hij : j = i
  · subst hij
    rw [Function.update_self]
    exact ⟨fun h => absurd h hab, fun h => absurd rfl h.2⟩
  · rw [Function.update_of_ne hij]
    exact ⟨fun h => ⟨h, hij⟩, fun h => h.1⟩

theorem claim_busy (s : State n) (t : Task) (x : Resource) :
    (s.claim t).Busy x ↔ s.Busy x ∨ t.resource = some x := by
  cases t with
  | listen i | accept i =>
    cases x with
    | acceptor j =>
      change Function.update s.acceptors i .busy j = .busy ↔ _
      by_cases hij : j = i
      · subst hij
        rw [Function.update_self]
        exact ⟨fun _ => .inr rfl, fun _ => rfl⟩
      · rw [Function.update_of_ne hij]
        exact ⟨.inl, fun h => h.resolve_right fun h => by cases h; exact hij rfl⟩
    | signals => exact ⟨.inl, fun h => h.resolve_right (by rintro ⟨⟩)⟩
  | wait | signal =>
    cases x with
    | acceptor j => exact ⟨.inl, fun h => h.resolve_right (by rintro ⟨⟩)⟩
    | signals => exact ⟨fun _ => .inr rfl, fun _ => rfl⟩
  | session => exact ⟨.inl, fun h => h.resolve_right (by rintro ⟨⟩)⟩

theorem perform_busy (s : State n) (t : Task) (x : Resource) :
    (s.perform t).Busy x ↔ s.Busy x ∧ t.resource ≠ some x := by
  have hacceptor : ∀ {i : Fin 10} {a : Acceptor}, a ≠ .busy → ∀ j : Fin 10,
      Function.update s.acceptors i a j = .busy ↔
        s.acceptors j = .busy ∧ some (Resource.acceptor i) ≠ some (Resource.acceptor j) := by
    intro i a ha j
    rw [update_eq_iff ha]
    exact and_congr_right fun _ => ⟨fun h h' => h (by cases h'; rfl), fun h h' => h (h' ▸ rfl)⟩
  rcases t with i | ⟨i, _ | _⟩ | _ | _ | _
  case listen | accept.false | accept.true =>
    cases x with
    | acceptor j => exact hacceptor (by decide) j
    | signals => exact ⟨fun h => ⟨h, by rintro ⟨⟩⟩, fun h => h.1⟩
  case wait | signal =>
    cases x with
    | acceptor j => exact ⟨fun h => ⟨h, by rintro ⟨⟩⟩, fun h => h.1⟩
    | signals => exact ⟨by rintro ⟨⟩, fun h => absurd rfl h.2⟩
  case session => exact ⟨fun h => ⟨h, by rintro ⟨⟩⟩, fun h => h.1⟩

theorem State.Ready.not_busy {t : Task} (h : s.Ready t) {x : Resource} (hx : t.resource = some x) :
    ¬s.Busy x := by
  cases t with
  | listen i | accept i =>
    cases hx
    exact fun hb => by cases h.symm.trans hb
  | wait | signal =>
    cases hx
    exact fun hb => by cases h.symm.trans hb
  | session => cases hx

theorem update_eq_iff_of_ne {α : Type*} {f : Fin 10 → α} {i : Fin 10} {a b : α} (hab : a ≠ b)
    (hi : f i ≠ b) (j : Fin 10) : Function.update f i a j = b ↔ f j = b := by
  rw [update_eq_iff hab]
  exact ⟨fun h => h.1, fun h => ⟨h, fun hj => hi (hj ▸ h)⟩⟩

/-- What taking a task leaves alone. -/
structure Claims (s s' : State n) : Prop where
  unmade : ∀ i, s'.acceptors i = .unmade ↔ s.acceptors i = .unmade
  closed : ∀ i, s'.acceptors i = .closed ↔ s.acceptors i = .closed
  handled : s'.signals = .handled ↔ s.signals = .handled

theorem State.Ready.claims {t : Task} (h : s.Ready t) : Claims s (s.claim t) := by
  cases t with
  | listen i | accept i =>
    have hne : ∀ a, a = .unmade ∨ a = .closed → s.acceptors i ≠ a := by
      rintro a (rfl | rfl) <;>
      · rw [h]
        decide
    exact ⟨update_eq_iff_of_ne (by decide) (hne _ (.inl rfl)),
      update_eq_iff_of_ne (by decide) (hne _ (.inr rfl)), Iff.rfl⟩
  | wait | signal =>
    refine ⟨fun _ => Iff.rfl, fun _ => Iff.rfl, by rintro ⟨⟩, fun hs => ?_⟩
    cases h.symm.trans hs
  | session => exact ⟨fun _ => Iff.rfl, fun _ => Iff.rfl, Iff.rfl⟩

/-- What a task does to the acceptors and the signal. -/
structure Performs (t : Task) (s s' : State n) : Prop where
  unmade : ∀ i, s'.acceptors i = .unmade ↔ s.acceptors i = .unmade
  closed : ∀ i, s'.acceptors i = .closed ↔ s.acceptors i = .closed ∨ t = .accept i true
  handled : s'.signals = .handled ↔ s.signals = .handled ∨ t = .signal
  stopped : s'.stopped = true ↔ s.stopped = true ∨ t = .signal

theorem performs {t : Task} (h : ∀ x, t.resource = some x → s.Busy x) :
    Performs t s (s.perform t) := by
  have hor : ∀ {q q' : Prop}, ¬q' → (q ↔ q ∨ q') := fun hq => (or_iff_left hq).symm
  rcases t with i | ⟨i, _ | _⟩ | _ | _ | _
  case listen | accept.false =>
    have hbusy : s.acceptors i = .busy := h _ rfl
    refine ⟨update_eq_iff_of_ne (by decide) (by rw [hbusy]; decide), fun j => ?_,
      hor (by simp), hor (by simp)⟩
    exact (update_eq_iff_of_ne (by decide) (by rw [hbusy]; decide) j).trans (hor (by simp))
  case accept.true =>
    have hbusy : s.acceptors i = .busy := h _ rfl
    refine ⟨update_eq_iff_of_ne (by decide) (by rw [hbusy]; decide), fun j => ?_,
      hor (by simp), hor (by simp)⟩
    change Function.update s.acceptors i .closed j = .closed ↔ _
    by_cases hij : j = i
    · subst hij
      rw [Function.update_self]
      exact ⟨fun _ => .inr rfl, fun _ => rfl⟩
    · rw [Function.update_of_ne hij]
      exact hor fun h => hij (by cases h; rfl)
  case wait =>
    have hbusy : s.signals = .busy := h _ rfl
    refine ⟨fun _ => Iff.rfl, fun _ => hor (by simp), ?_, hor (by simp)⟩
    refine ⟨by rintro ⟨⟩, fun hs => ?_⟩
    rw [hbusy] at hs
    rcases hs with ⟨⟨⟩⟩ | ⟨⟨⟩⟩
  case signal =>
    exact ⟨fun _ => Iff.rfl, fun _ => hor (by simp), ⟨fun _ => .inr rfl, fun _ => rfl⟩,
      ⟨fun _ => .inr rfl, fun _ => rfl⟩⟩
  case session =>
    exact ⟨fun _ => Iff.rfl, fun _ => hor (by simp), hor (by simp), hor (by simp)⟩

theorem Tasks.performs {r : Option (Fin n)} {t : Task} (h : Tasks s)
    (hr : s.worker r = .running t) : Performs t s (s.perform t) :=
  Main.performs fun x hx => (h.busy x).2 ⟨r, t, hr, hx⟩

theorem Tasks.same (h : Tasks s)
    (hworker : ∀ r t, s'.worker r = .running t ↔ s.worker r = .running t)
    (hbusy : ∀ x, s'.Busy x ↔ s.Busy x) : Tasks s' where
  busy x := by simp only [hbusy, h.busy, hworker]
  alone r r' t t' x hr hr' := h.alone r r' t t' x ((hworker r t).1 hr) ((hworker r' t').1 hr')

theorem Tasks.take {r : Option (Fin n)} {t : Task} (h : Tasks s) (hr : s.worker r = .polling)
    (hready : s.Ready t) : Tasks ((s.claim t).setWorker r (.running t)) := by
  have hworker : ∀ r' t', ((s.claim t).setWorker r (.running t)).worker r' = .running t' ↔
      (r' = r ∧ t' = t) ∨ s.worker r' = .running t' := by
    intro r' t'
    rw [worker_setWorker, worker_congr (claim_phase s t) (claim_threads s t)]
    by_cases hr' : r' = r
    · rw [if_pos hr', hr', hr]
      exact ⟨fun h => .inl ⟨rfl, (Worker.running.inj h).symm⟩,
        fun h => h.elim (fun h => h.2 ▸ rfl) (by simp)⟩
    · rw [if_neg hr']
      exact ⟨.inr, fun h => h.resolve_left fun h => hr' h.1⟩
  have hbusy : ∀ x, ((s.claim t).setWorker r (.running t)).Busy x ↔
      s.Busy x ∨ t.resource = some x := by
    intro x
    rw [← claim_busy]
    cases r <;> cases x <;> exact Iff.rfl
  refine ⟨fun x => ?_, fun r₁ r₂ t₁ t₂ x h₁ h₂ hx₁ hx₂ => ?_⟩
  · rw [hbusy, h.busy]
    constructor
    · rintro (⟨r', t', hr', hx⟩ | hx)
      · exact ⟨r', t', (hworker r' t').2 (.inr hr'), hx⟩
      · exact ⟨r, t, (hworker r t).2 (.inl ⟨rfl, rfl⟩), hx⟩
    · rintro ⟨r', t', hr', hx⟩
      rcases (hworker r' t').1 hr' with ⟨rfl, rfl⟩ | hr'
      · exact .inr hx
      · exact .inl ⟨r', t', hr', hx⟩
  · rcases (hworker r₁ t₁).1 h₁ with ⟨rfl, rfl⟩ | hr₁
    · rcases (hworker r₂ t₂).1 h₂ with ⟨rfl, rfl⟩ | hr₂
      · rfl
      · exact absurd ((h.busy x).2 ⟨r₂, t₂, hr₂, hx₂⟩) (hready.not_busy hx₁)
    · rcases (hworker r₂ t₂).1 h₂ with ⟨rfl, rfl⟩ | hr₂
      · exact absurd ((h.busy x).2 ⟨r₁, t₁, hr₁, hx₁⟩) (hready.not_busy hx₂)
      · exact h.alone r₁ r₂ t₁ t₂ x hr₁ hr₂ hx₁ hx₂

/-- A thread is done with its task. -/
theorem Tasks.drop {r : Option (Fin n)} {t : Task} (h : Tasks s) (hr : s.worker r = .running t)
    (hworker : ∀ r' t', s'.worker r' = .running t' ↔ r' ≠ r ∧ s.worker r' = .running t')
    (hbusy : ∀ x, s'.Busy x ↔ (s.perform t).Busy x) : Tasks s' := by
  refine ⟨fun x => ?_, fun r₁ r₂ t₁ t₂ x h₁ h₂ =>
    h.alone r₁ r₂ t₁ t₂ x ((hworker r₁ t₁).1 h₁).2 ((hworker r₂ t₂).1 h₂).2⟩
  rw [hbusy, perform_busy, h.busy]
  constructor
  · rintro ⟨⟨r', t', hr', hx⟩, hne⟩
    refine ⟨r', t', (hworker r' t').2 ⟨?_, hr'⟩, hx⟩
    rintro rfl
    obtain rfl := Worker.running.inj (hr.symm.trans hr')
    exact hne hx
  · rintro ⟨r', t', hr', hx⟩
    obtain ⟨hne, hr'⟩ := (hworker r' t').1 hr'
    exact ⟨⟨r', t', hr', hx⟩, fun ht => hne (h.alone r' r t' t x hr' hr hx ht)⟩

theorem Tasks.finish {r : Option (Fin n)} {t : Task} {w : Worker} (h : Tasks s)
    (hr : s.worker r = .running t) (hw : ∀ t', w ≠ .running t') :
    Tasks ((s.perform t).setWorker r w) := by
  refine h.drop hr (fun r' t' => ?_) fun x => by cases r <;> cases x <;> exact Iff.rfl
  rw [worker_setWorker, worker_congr (perform_phase s t) (perform_threads s t)]
  by_cases hr' : r' = r
  · rw [if_pos hr']
    exact ⟨fun h => absurd h (hw t'), fun h => absurd hr' h.1⟩
  · rw [if_neg hr']
    exact ⟨fun h => ⟨hr', h⟩, fun h => h.2⟩

theorem Tasks.idle {r : Option (Fin n)} {w : Worker} (h : Tasks s)
    (hr : ∀ t, s.worker r ≠ .running t) (hw : ∀ t, w ≠ .running t) : Tasks (s.setWorker r w) := by
  refine h.same (fun r' t' => ?_) fun x => by cases r <;> cases x <;> exact Iff.rfl
  rw [worker_setWorker]
  by_cases hr' : r' = r
  · rw [if_pos hr', hr']
    exact ⟨fun h => absurd h (hw t'), fun h => absurd h (hr t')⟩
  · rw [if_neg hr']

/-! ## Where `main` is -/

namespace Phase

/-- The threads that are started. -/
def spawned (n : Nat) : Phase → Nat
  | .making _ | .refused => 0
  | .spawning i => i
  | _ => n

/-- The threads that are joined. -/
def joined (n : Nat) : Phase → Nat
  | .joining i => i
  | .returned => n
  | _ => 0

/-- No thread is started yet. -/
def Early : Phase → Prop
  | .making _ | .refused => True
  | _ => False

/-- The counts of a loop in `main` are within its bounds. -/
structure Bounds (n : Nat) (ph : Phase) : Prop where
  made : ph.made ≤ 10
  spawned : ph.spawned n ≤ n
  joined : ph.joined n ≤ n
  serving : ph ≠ .serving .unspawned

end Phase

/-- What holds in every reachable state: where `main` is tells which acceptors are made and which
threads are started and joined, a busy acceptor is one that a thread is at, and the context is
stopped by the handler of the signal. -/
structure Inv (s : State n) : Prop where
  bounds : s.phase.Bounds n
  made : s.phase ≠ .refused → ∀ i, s.acceptors i = .unmade ↔ s.phase.made ≤ i
  spawned : ∀ i, s.threads i = .unspawned ↔ s.phase.spawned n ≤ i
  joined : ∀ i, i.1 < s.phase.joined n → s.threads i = .returned
  tasks : Tasks s
  stopped : s.stopped = true ↔ s.signals = .handled
  early : s.phase.Early → s.stopped = false
  past : s.phase.Past → s.stopped = true

theorem Inv.goOn {m : Phase} (hi : Inv s)
    (hbounds : m.Bounds n) (hearly : m.Early → s.phase.Early)
    (hmade : m ≠ .refused → s.phase ≠ .refused ∧ m.made = s.phase.made)
    (hspawned : m.spawned n = s.phase.spawned n)
    (hjoined : ∀ i, i.1 < m.joined n → s.threads i = .returned)
    (hpast : m.Past → s.stopped = true) (hs : ∀ t, s.phase ≠ .serving (.running t))
    (hph : ∀ t, m ≠ .serving (.running t)) : Inv { s with phase := m } := by
  refine ⟨hbounds, fun h i => ?_, fun i => hspawned ▸ hi.spawned i, hjoined, ?_, hi.stopped,
    fun h => hi.early (hearly h), hpast⟩
  · obtain ⟨hne, heq⟩ := hmade h
    exact heq ▸ hi.made hne i
  · have hnone : ∀ {s : State n} {t}, (∀ t, s.phase ≠ .serving (.running t)) →
        s.worker none ≠ .running t := fun h hr => h _ (worker_none hr (by simp))
    refine hi.tasks.same (fun r t => ?_) fun x => by cases x <;> exact Iff.rfl
    cases r with
    | none => exact ⟨fun h => absurd h (hnone hph), fun h => absurd h (hnone hs)⟩
    | some i => exact Iff.rfl

/-- `main` goes on, with all acceptors made and as many threads started as before. -/
theorem Inv.advance {m₀ m : Phase} (hi : Inv s) (hm : s.phase = m₀) (hbounds : m.Bounds n)
    (hkept : m₀ ≠ .refused ∧ m.made = m₀.made ∧ m.spawned n = m₀.spawned n) (hlate : ¬m.Early)
    (hquiet : ∀ t, m₀ ≠ .serving (.running t) ∧ m ≠ .serving (.running t))
    (hjoined : ∀ i, i.1 < m.joined n → s.threads i = .returned)
    (hpast : m.Past → s.stopped = true) : Inv { s with phase := m } := by
  subst hm
  exact hi.goOn hbounds (fun h => absurd h hlate) (fun _ => ⟨hkept.1, hkept.2.1⟩) hkept.2.2 hjoined
    hpast (fun t => (hquiet t).1) fun t => (hquiet t).2

/-- A thread that is started and has not returned moves. -/
theorem Inv.move {s₁ : State n} {r : Option (Fin n)} {w : Worker} (hi : Inv s)
    (hphase : s₁.phase = s.phase) (hthreads : s₁.threads = s.threads)
    (hlive : s.worker r ≠ .unspawned ∧ s.worker r ≠ .returned) (hw : w ≠ .unspawned)
    (hunmade : ∀ i, s₁.acceptors i = .unmade ↔ s.acceptors i = .unmade)
    (hstopped : s₁.stopped = true ↔ s₁.signals = .handled)
    (hmono : s.stopped = true → s₁.stopped = true)
    (hret : r = none → w = .returned → s₁.stopped = true)
    (htasks : Tasks (s₁.setWorker r w)) : Inv (s₁.setWorker r w) := by
  cases r with
  | none =>
    have hs := worker_none rfl hlive.1
    have hne : s.phase ≠ .refused := by
      rw [hs]
      rintro ⟨⟩
    have hmade := hi.made hne
    have hspawned := hi.spawned
    rw [hs] at hmade hspawned
    refine ⟨⟨Nat.le_refl _, Nat.le_refl _, Nat.zero_le _, fun h => hw (Phase.serving.inj h)⟩,
      fun _ i => (hunmade i).trans (hmade i), fun i => ?_,
      fun i hj => absurd hj (Nat.not_lt_zero _), htasks, hstopped, by rintro ⟨⟩, fun hpast => ?_⟩
    · change s₁.threads i = .unspawned ↔ n ≤ i.1
      rw [hthreads]
      exact hspawned i
    · change (Phase.serving w).Past at hpast
      cases w with
      | returned => exact hret rfl rfl
      | _ => exact hpast.elim
  | some j =>
    have hself : Function.update s₁.threads j w j = w := Function.update_self ..
    have hother : ∀ i, i ≠ j → Function.update s₁.threads j w i = s.threads i := fun i hij => by
      rw [Function.update_of_ne hij, hthreads]
    have hb := hi.bounds
    have hm := hi.made
    have hsp := hi.spawned
    have hj := hi.joined
    have hpast := hi.past
    have hlate : ¬s.phase.Early := fun h => hlive.1 ((hsp j).2 (by
      generalize s.phase = ph at h
      cases ph <;> first | exact Nat.zero_le _ | cases h))
    rw [← hphase] at hb hm hsp hj hpast hlate
    refine ⟨hb, fun hne i => (hunmade i).trans (hm hne i), fun i => ?_, fun i hlt => ?_, htasks,
      hstopped, fun h => absurd h hlate, fun h => hmono (hpast h)⟩
    · change Function.update s₁.threads j w i = .unspawned ↔ _
      by_cases hij : i = j
      · subst hij
        rw [hself]
        exact ⟨fun h => absurd h hw, fun h => absurd ((hsp i).2 h) hlive.1⟩
      · rw [hother i hij]
        exact hsp i
    · change Function.update s₁.threads j w i = .returned
      have hgone := hj i hlt
      rwa [hother i fun hij => hlive.2 (hij ▸ hgone)]

/-- What `start ()` may leave behind. -/
structure Program.Fits (p : Program) : Prop where
  listen : p.listen = .spawned ∨ p.listen = .accepting
  wait : p.wait = .spawned ∨ p.wait = .waiting

theorem Inv.make {i : Fin 10} (hp : p.Fits) (hi : Inv s) (hm : s.phase = .making i) :
    Inv { s with
      phase := .making (i + 1)
      acceptors := Function.update s.acceptors i p.listen } := by
  have hlisten : p.listen ≠ .unmade ∧ p.listen ≠ .busy := by
    rcases hp.listen with h | h <;>
    · rw [h]
      decide
  have hne : s.phase ≠ .refused := by
    rw [hm]
    rintro ⟨⟩
  have hspawned := hi.spawned
  have hmade := hi.made hne
  rw [hm] at hspawned hmade
  have hfresh : s.acceptors i ≠ .busy := by
    rw [(hmade i).2 (Nat.le_refl _)]
    decide
  refine ⟨⟨i.isLt, Nat.zero_le _, Nat.zero_le _, by simp⟩, fun _ j => ?_, hspawned,
    fun j hj => absurd hj (Nat.not_lt_zero _), ?_, hi.stopped, fun _ => hi.early ?_, by rintro ⟨⟩⟩
  · refine (update_eq_iff hlisten.1).trans ?_
    rw [hmade j]
    change i.1 ≤ j.1 ∧ j ≠ i ↔ i.1 + 1 ≤ j.1
    exact ⟨fun h => Nat.lt_of_le_of_ne h.1 fun hv => h.2 (Fin.ext hv.symm),
      fun h => ⟨Nat.le_of_lt h, fun hv => by rw [hv] at h; exact Nat.not_succ_le_self _ h⟩⟩
  · refine hi.tasks.same (fun r t => ?_) fun x => ?_
    · cases r with
      | none =>
        refine ⟨by rintro ⟨⟩, fun h => ?_⟩
        cases hm.symm.trans (worker_none h (by simp))
      | some j => exact Iff.rfl
    · cases x with
      | acceptor j => exact update_eq_iff_of_ne hlisten.2 hfresh j
      | signals => exact Iff.rfl
  · rw [hm]
    trivial

theorem Inv.spawn {i : Fin n} (hi : Inv s) (hm : s.phase = .spawning i) :
    Inv { s.setWorker (some i) .polling with phase := .spawning (i + 1) } := by
  have hmade := hi.made (by simp [hm])
  have hspawned := hi.spawned
  rw [hm] at hmade hspawned
  have hself : Function.update s.threads i .polling i = .polling := Function.update_self ..
  have hother : ∀ j, j ≠ i → Function.update s.threads i .polling j = s.threads j :=
    fun j hij => Function.update_of_ne hij ..
  refine ⟨⟨Nat.le_refl _, i.isLt, Nat.zero_le _, by simp⟩, fun _ => hmade, fun j => ?_,
    fun j hj => absurd hj (Nat.not_lt_zero _), ?_, hi.stopped, by rintro ⟨⟩, by rintro ⟨⟩⟩
  · change Function.update s.threads i .polling j = .unspawned ↔ i.1 + 1 ≤ j.1
    by_cases hij : j = i
    · subst hij
      rw [hself]
      exact ⟨by simp, fun h => absurd h (Nat.not_succ_le_self _)⟩
    · rw [hother j hij, hspawned j]
      exact ⟨fun h => Nat.lt_of_le_of_ne h fun hv => hij (Fin.ext hv.symm), Nat.le_of_lt⟩
  · refine hi.tasks.same (fun r t => ?_) fun x => by cases x <;> exact Iff.rfl
    cases r with
    | none =>
      refine ⟨by rintro ⟨⟩, fun h => ?_⟩
      cases hm.symm.trans (worker_none h (by simp))
    | some j =>
      change Function.update s.threads i .polling j = _ ↔ s.threads j = _
      by_cases hij : j = i
      · subst hij
        rw [hself, (hspawned j).2 (Nat.le_refl _)]
        exact ⟨by simp, by simp⟩
      · rw [hother j hij]

theorem Inv.terminate {t : Task} (hi : Inv s) (hr : s.worker none = .running t) :
    Inv { s.perform t with phase := .terminated } := by
  have hperforms := hi.tasks.performs hr
  have hm := worker_none hr (by simp)
  have hmade := hi.made (by simp [hm])
  have hspawned := hi.spawned
  rw [hm] at hmade hspawned
  refine ⟨⟨Nat.le_refl _, Nat.le_refl _, Nat.zero_le _, by simp⟩,
    fun _ i => (hperforms.unmade i).trans (hmade i), fun i => ?_,
    fun i hj => absurd hj (Nat.not_lt_zero _), hi.tasks.drop hr (fun r t' => ?_) fun x => ?_, ?_,
    by rintro ⟨⟩, by rintro ⟨⟩⟩
  · change (s.perform t).threads i = .unspawned ↔ n ≤ i.1
    rw [perform_threads]
    exact hspawned i
  · cases r with
    | none => exact ⟨by rintro ⟨⟩, fun h => absurd rfl h.1⟩
    | some i =>
      change (s.perform t).threads i = _ ↔ _
      rw [perform_threads]
      exact ⟨fun h => ⟨by simp, h⟩, fun h => h.2⟩
  · cases x <;> exact Iff.rfl
  · exact hperforms.stopped.trans ((or_congr_left hi.stopped).trans hperforms.handled.symm)

/-- A thread ends its task, in any way but the last. -/
theorem Inv.finish {r : Option (Fin n)} {t : Task} {w : Worker} (hi : Inv s)
    (hr : s.worker r = .running t) (hw : w = .polling ∨ (w = .returned ∧ r ≠ none)) :
    Inv ((s.perform t).setWorker r w) := by
  have hperforms := hi.tasks.performs hr
  have hrunning : ∀ t', w ≠ .running t' := by
    rcases hw with rfl | ⟨rfl, -⟩ <;> rintro t' ⟨⟩
  refine hi.move (perform_phase s t) (perform_threads s t) (by simp [hr]) ?_ hperforms.unmade
    (hperforms.stopped.trans ((or_congr_left hi.stopped).trans hperforms.handled.symm))
    (fun h => hperforms.stopped.2 (.inl h)) (fun hnone hret => ?_) (hi.tasks.finish hr hrunning)
  · rcases hw with rfl | ⟨rfl, -⟩ <;> rintro ⟨⟩
  · rcases hw with rfl | ⟨-, hne⟩
    · cases hret
    · exact absurd hnone hne

theorem Inv.take {r : Option (Fin n)} {t : Task} (hi : Inv s) (hr : s.worker r = .polling)
    (hready : s.Ready t) : Inv ((s.claim t).setWorker r (.running t)) :=
  hi.move (claim_phase s t) (claim_threads s t) (by simp [hr]) (by simp) hready.claims.unmade
    (by rw [claim_stopped, hready.claims.handled]; exact hi.stopped)
    (by rw [claim_stopped]; exact id) (by rintro - ⟨⟩) (hi.tasks.take hr hready)

/-- `run ()` returns only when the context is stopped, as the signal is waited for until then. -/
theorem Inv.stopped_of_leave (hi : Inv s) (h : s.stopped = true ∨ s.Workless) : s.stopped = true :=
  h.elim id fun h => hi.stopped.2 h.2.1

theorem Inv.step (hp : p.Fits) (hi : Inv s) (hs : Step p s l s') : Inv s' := by
  cases hs with
  | make hm => exact hi.make hp hm
  | refuse hm =>
    exact hi.goOn (m := .refused) ⟨Nat.le_refl _, Nat.zero_le _, Nat.zero_le _, by simp⟩
      (fun _ => by rw [hm]; trivial) (fun h => absurd rfl h) (by rw [hm]; rfl)
      (fun i hj => absurd hj (Nat.not_lt_zero _)) (by rintro ⟨⟩) (by simp [hm]) (by simp)
  | made hm =>
    exact hi.advance hm ⟨Nat.le_refl _, Nat.zero_le _, Nat.zero_le _, by simp⟩
      ⟨by simp, rfl, rfl⟩ id (by simp) (fun i hj => absurd hj (Nat.not_lt_zero _)) (by rintro ⟨⟩)
  | spawn hm => exact hi.spawn hm
  | run hm =>
    exact hi.advance hm ⟨Nat.le_refl _, Nat.le_refl _, Nat.zero_le _, by simp⟩
      ⟨by simp, rfl, rfl⟩ id (by simp) (fun i hj => absurd hj (Nat.not_lt_zero _)) (by rintro ⟨⟩)
  | take hr _ hready => exact hi.take hr hready
  | finish hr _ => exact hi.finish hr (.inl rfl)
  | throw hr _ => exact hi.finish hr (.inr ⟨rfl, by simp⟩)
  | terminate hr _ => exact hi.terminate hr
  | leave hr h =>
    exact hi.move rfl rfl (by simp [hr]) (by simp) (fun _ => Iff.rfl) hi.stopped id
      (fun _ _ => hi.stopped_of_leave h) (hi.tasks.idle (by simp [hr]) (by simp))
  | ran hm =>
    exact hi.advance hm ⟨Nat.le_refl _, Nat.le_refl _, Nat.zero_le _, by simp⟩
      ⟨by simp, rfl, rfl⟩ id (by simp) (fun i hj => absurd hj (Nat.not_lt_zero _))
      fun _ => hi.past (by rw [hm]; trivial)
  | @join i hm hret =>
    refine hi.advance hm ⟨Nat.le_refl _, Nat.le_refl _, i.isLt, by simp⟩ ⟨by simp, rfl, rfl⟩ id
      (by simp) (fun j hj => ?_) fun _ => hi.past (by rw [hm]; trivial)
    rcases Nat.lt_or_eq_of_le (Nat.le_of_lt_succ hj) with hlt | heq
    · exact hi.joined j (by rw [hm]; exact hlt)
    · rwa [Fin.ext heq]
  | joined hm =>
    exact hi.advance hm ⟨Nat.le_refl _, Nat.le_refl _, Nat.le_refl _, by simp⟩
      ⟨by simp, rfl, rfl⟩ id (by simp) (fun j hj => hi.joined j (by rw [hm]; exact hj))
      fun _ => hi.past (by rw [hm]; trivial)

theorem Inv.init {c : Nat} {s : State (numThreads c)} (hp : p.Fits)
    (h : (execution p c).init s) : Inv s := by
  obtain ⟨hm, hthreads, hacceptors, hsignals, -, hstopped⟩ := h
  have hwait : p.wait ≠ .handled ∧ p.wait ≠ .busy := by
    rcases hp.wait with h | h <;>
    · rw [h]
      decide
  have hnone : ∀ r t, s.worker r ≠ .running t := by
    intro r t hr
    cases r with
    | none => cases hm.symm.trans (worker_none hr (by simp))
    | some i => cases (hthreads i).symm.trans hr
  refine ⟨?_, fun _ i => ?_, fun i => ?_, fun i hj => ?_, ⟨fun x => ?_, ?_⟩, ?_, fun _ => hstopped,
    ?_⟩
  · rw [hm]
    exact ⟨Nat.zero_le _, Nat.zero_le _, Nat.zero_le _, by simp⟩
  · rw [hm, hacceptors]
    exact ⟨fun _ => Nat.zero_le _, fun _ => rfl⟩
  · rw [hm, hthreads]
    exact ⟨fun _ => Nat.zero_le _, fun _ => rfl⟩
  · rw [hm] at hj
    exact absurd hj (Nat.not_lt_zero _)
  · refine ⟨fun h => ?_, fun ⟨r, t, hr, _⟩ => absurd hr (hnone r t)⟩
    cases x with
    | acceptor i => cases (hacceptors i).symm.trans h
    | signals => exact absurd (hsignals.symm.trans h) hwait.2
  · exact fun r _ t _ _ hr => absurd hr (hnone r t)
  · rw [hstopped, hsignals]
    exact ⟨by simp, fun h => absurd h hwait.1⟩
  · rw [hm]
    rintro ⟨⟩

end Echo.Main
