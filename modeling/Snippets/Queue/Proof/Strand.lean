import Snippets.Queue.Proof.Wakeup

/-!
# Who is stranded by an exception

A thread that was woken and then throws while it stores its element, or while it moves the front
element out, leaves the free slot or the element it was woken for, and notifies nobody. The threads
that stay parked are stranded unless enough other threads are on their way (`StrandsNobody`).

In every run in which that happens only with a woken thread to spare (`Spares`) nobody is ever
stranded, and the next failure strands nobody exactly if it has one to spare
(`strands_nobody_iff`).
-/

namespace BlockingQueue

open Lts Threads

variable {T ι : Type*} {capacity : Nat} [Fintype ι]

/-- While the queue is open and there is something for the threads parked on `cv`, as many threads
as there are units have been woken from it and do not have the mutex yet. -/
def StrandsNobody (capacity : Nat) (s : State ι T) (cv : Cv) : Prop :=
  s.shared.closed = false → 0 < s.shared.units capacity cv →
    (∃ t c, s.pc t = .parked c ∧ c.cv = some cv) → s.shared.units capacity cv ≤ s.woken cv

theorem Served.strandsNobody {s : State ι T} {cv : Cv} (h : Served capacity s cv) :
    StrandsNobody capacity s cv := by
  rintro hopen - ⟨t, c, ht, hc⟩
  rcases h (parked_pos ht hc) with ⟨-, hle⟩ | ⟨hclosed, -⟩
  · exact hle
  · rw [hopen] at hclosed
    cases hclosed

theorem exists_parked {s : State ι T} {cv : Cv} (h : 0 < s.parked cv) :
    ∃ t c, s.pc t = .parked c ∧ c.cv = some cv := by
  obtain ⟨t, ht⟩ := exists_of_total_pos h
  cases hp : s.pc t with
  | parked c =>
    rw [hp, Pc.parkedOn] at ht
    refine ⟨t, c, hp, ?_⟩
    by_contra hc
    rw [if_neg hc] at ht
    exact Nat.lt_irrefl 0 ht
  | _ => rw [hp] at ht; exact absurd ht (Nat.lt_irrefl 0)

/-- A section that fails changes nothing and notifies nobody. -/
theorem Section.failed {timedOut : Bool} {throwAt : Option ThrowAt} {q q' : Shared T} {c : Call T}
    {n : Option Cv} (hs : Section capacity timedOut throwAt q c (.leave q' n .threw))
    (hfail : c.FailsAt throwAt) : q' = q ∧ n = none := by
  cases hs with
  | acceptThrow | frontThrow => exact ⟨rfl, rfl⟩
  | returnThrow hc _ ht =>
    subst ht
    rcases hc with rfl | rfl <;> cases hfail

variable [DecidableEq ι]

theorem woken_failed {s : State ι T} {t : ι} {c : Call T} {timedOut : Bool} {cv : Cv}
    (ht : s.pc t = .woken c timedOut) (hc : c.cv = some cv) (q : Shared T) (r : Res T) :
    (State.mk q (Function.update s.pc t (.after c r))).woken cv + 1 = s.woken cv ∧
      (State.mk q (Function.update s.pc t (.after c r))).parked cv = s.parked cv := by
  have hw := total_update (Pc.wokenFrom cv) s.pc t (.after c r)
  have hp := total_update (Pc.parkedOn cv) s.pc t (.after c r)
  rw [(Pc.after_counts c r cv).2, ht, Pc.wokenFrom, if_pos hc] at hw
  rw [(Pc.after_counts c r cv).1, ht] at hp
  exact ⟨hw, hp⟩

/-- A failure that strands nobody has a woken thread to spare. -/
theorem Step.spares_of_strandsNobody {s s' : State ι T} {t : ι} {c : Call T} {timedOut : Bool}
    {cv : Cv} {throwAt : Option ThrowAt} (ht : s.pc t = .woken c timedOut) (hc : c.cv = some cv)
    (hs : Step capacity s (.leave t c throwAt .threw) s') (h : StrandsNobody capacity s' cv) :
    Spares capacity s (.leave t c throwAt .threw) := by
  intro hfail timedOut' cv' ht' hc' hopen hunits hpos
  obtain rfl : cv = cv' := Option.some.inj (hc.symm.trans hc')
  cases hs with
  | leave _ hsec hnot =>
    obtain ⟨rfl, rfl⟩ := (Section.of_eq hsec).failed hfail
    cases hnot with
    | none =>
      obtain ⟨hwoken, hparked⟩ := woken_failed ht hc s.shared .threw
      have hle := h hopen hunits (exists_parked (hparked ▸ hpos))
      rw [← hwoken]
      exact Nat.lt_succ_of_le hle

/-- **A woken thread that throws strands nobody just when there is a woken thread to spare.** In a
run in which a woken thread throws while it stores its element, or while it moves the front element
out, only if more threads are woken from where it was than there are free slots, or elements, or
nobody is parked there: no state strands anybody, and the same condition decides for each further
throw of a woken thread, wherever in its section, whether it strands anybody. -/
theorem strands_nobody_iff {ls : List (Label ι T)} {s : State ι T}
    (h : Exec ((system ι T capacity).restrict (Spares capacity)) ls s) :
    (∀ cv, StrandsNobody capacity s cv) ∧
      ∀ t c timedOut cv throwAt s', s.pc t = .woken c timedOut → c.cv = some cv →
        Step capacity s (.leave t c throwAt .threw) s' →
        (StrandsNobody capacity s' cv ↔ Spares capacity s (.leave t c throwAt .threw)) := by
  refine ⟨fun cv => (system_served h cv).strandsNobody, ?_⟩
  intro t c timedOut cv throwAt s' ht hc hs
  constructor
  · exact hs.spares_of_strandsNobody ht hc
  · intro hspares
    exact (hs.served hspares (system_served h cv)).strandsNobody

/-- Three consumers, one woken for the pushed 5 and one woken by itself: the first of them fails,
and the other one is there for the third. -/
theorem strands_nobody_iff_spurious : ∃ (ls : List (Label (Fin 4) Nat)) (s : State (Fin 4) Nat),
    Exec ((system (Fin 4) Nat 1).restrict (Spares 1)) ls s ∧ s.pc 2 = .parked .pop ∧
      s.shared.queue = [5] ∧ s.pc 0 = .done .threw ∧ StrandsNobody 1 s .notEmpty := by
  have h0 : Exec ((system (Fin 4) Nat 1).restrict (Spares 1)) [] ⟨⟨[], false⟩, fun _ => .idle⟩ :=
    .init rfl
  have h1 := h0.snoc ⟨.call (t := 0) (c := .pop) rfl, trivial⟩
  have h2 := h1.snoc ⟨.park (t := 0) (.enter _) rfl, trivial⟩
  have h3 := h2.snoc ⟨.call (t := 1) (c := .pop) rfl, trivial⟩
  have h4 := h3.snoc ⟨.park (t := 1) (.enter _) rfl, trivial⟩
  have h5 := h4.snoc ⟨.call (t := 2) (c := .pop) rfl, trivial⟩
  have h6 := h5.snoc ⟨.park (t := 2) (.enter _) rfl, trivial⟩
  have h7 := h6.snoc ⟨.call (t := 3) (c := .push 5 true) rfl, trivial⟩
  have h8 : Exec ((system (Fin 4) Nat 1).restrict (Spares 1))
      (_ ++ [.leave 3 (.push 5 true) none _]) _ :=
    h7.snoc ⟨.leave (.enter _) rfl (.one (.one (t := 0) rfl rfl)), nofun⟩
  have h9 := h8.snoc ⟨.spurious (t := 1) rfl, trivial⟩
  have h10 : Exec ((system (Fin 4) Nat 1).restrict (Spares 1))
      (_ ++ [.leave 0 .pop (some .moveFront) .threw]) _ :=
    h9.snoc ⟨.leave (.woken _ _) rfl .none, fun _ _ cv _ hcv _ _ _ => by cases hcv; decide⟩
  exact ⟨_, _, h10, rfl, rfl, rfl, (strands_nobody_iff h10).1 .notEmpty⟩

/-- Two consumers wait for the pushed 5; the one that was woken for it throws while it moves it out,
and the other one stays parked with nobody on the way to it. -/
theorem pop_throw_strands : ∃ (ls : List (Label (Fin 3) Nat)) (s s' : State (Fin 3) Nat),
    Exec (system (Fin 3) Nat 1) ls s ∧ s.pc 0 = .woken .pop false ∧
      Step 1 s (.leave 0 .pop (some .moveFront) .threw) s' ∧ s'.shared = ⟨[5], false⟩ ∧
      s'.pc 1 = .parked .pop ∧ s'.woken .notEmpty = 0 ∧ ¬ StrandsNobody 1 s' .notEmpty := by
  have h0 : Exec (system (Fin 3) Nat 1) [] ⟨⟨[], false⟩, fun _ => .idle⟩ := .init rfl
  have h1 := h0.snoc (.call (t := 0) (c := .pop) rfl)
  have h2 := h1.snoc (.park (t := 0) (.enter _) rfl)
  have h3 := h2.snoc (.call (t := 1) (c := .pop) rfl)
  have h4 := h3.snoc (.park (t := 1) (.enter _) rfl)
  have h5 := h4.snoc (.call (t := 2) (c := .push 5 true) rfl)
  have h6 : Exec (system (Fin 3) Nat 1) (_ ++ [.leave 2 (.push 5 true) none _]) _ :=
    h5.snoc (.leave (.enter _) rfl (.one (.one (t := 0) rfl rfl)))
  refine ⟨_, _, _, h6, rfl, .leave (.woken _ _) rfl .none, rfl, rfl, by decide, fun h => ?_⟩
  have hle : 1 ≤ 0 := h rfl (by decide) ⟨1, .pop, rfl, rfl⟩
  exact absurd hle (by decide)

end BlockingQueue
