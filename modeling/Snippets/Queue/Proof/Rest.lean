import Snippets.Queue.Proof.Loss
import Snippets.Queue.Proof.Shutdown
import Snippets.Queue.Proof.Work

/-!
# Who waits when the threads are at rest

Every push or pop that was called has given up, has taken effect or is still going on
(`Step.tallied`, `system_tallied`). Where no thread can go on by itself, those that are going on are
parked, and no wakeup is under way (`State.Resting.inCall`, `State.Resting.woken`). With the wakeup
invariant that fixes the state: whatever the order of the steps was, the queue holds what was pushed
beyond what was popped, and exactly the pops or pushes in excess wait (`rest_exact`).
-/

namespace BlockingQueue

open Lts Threads

variable {T ι : Type*} {capacity : Nat}

/-! ## What became of the calls -/

/-- 1 for a thread inside a call that waits on `cv`, before its last section. -/
def Pc.inCall (cv : Cv) : Pc T → Nat
  | .enter c | .parked c | .woken c _ => if c.cv = some cv then 1 else 0
  | _ => 0

/-- A push that stored nothing, or a pop that delivered nothing. -/
def Res.gaveUp : Res T → Bool
  | .pushed false _ | .popped none => true
  | _ => false

/-- The step is a call that waits on `cv`. -/
def Label.calls (cv : Cv) : Label ι T → Bool
  | .call _ c => c.cv = some cv
  | _ => false

/-- The step is the last section of a call that waits on `cv` and gives up. -/
def Label.givesUp (cv : Cv) : Label ι T → Bool
  | .leave _ c _ r => c.cv = some cv && r.gaveUp
  | _ => false

/-- A thread that is parked is in a call that waits. -/
def State.Waits (s : State ι T) : Prop := ∀ t c, s.pc t = .parked c → ∃ cv, c.cv = some cv

/-- The pushes (`notFull`) or pops (`notEmpty`) that were called and have not given up. -/
def demand (cv : Cv) (ls : List (Label ι T)) : Nat :=
  ls.countP (Label.calls cv) - ls.countP (Label.givesUp cv)

/-- The pushes that were accepted, or the pops that delivered. -/
def fulfilled (cv : Cv) (es : List (Call T × Res T)) : Nat :=
  match cv with
  | .notFull => (accepted es).length
  | .notEmpty => (delivered es).length

section
variable [Fintype ι]

/-- The threads in a call that can wait on `cv`. -/
def State.inCall (s : State ι T) (cv : Cv) : Nat := total (Pc.inCall cv) s.pc

/-- Every call has given up, was served or is going on. -/
def Tallied (ls : List (Label ι T)) (s : State ι T) : Prop :=
  ∀ cv, ls.countP (Label.calls cv) =
    ls.countP (Label.givesUp cv) + fulfilled cv (effects ls) + s.inCall cv

end

theorem fulfilled_append (cv : Cv) (es es' : List (Call T × Res T)) :
    fulfilled cv (es ++ es') = fulfilled cv es + fulfilled cv es' := by
  cases cv <;> simp [fulfilled, accepted, delivered]

theorem Pc.Ready.inCall {p : Pc T} {c : Call T} {timedOut : Bool} (h : p.Ready c timedOut)
    (cv : Cv) : p.inCall cv = if c.cv = some cv then 1 else 0 := by
  cases h <;> rfl

theorem Pc.inCall_wake (cv cv' : Cv) (p : Pc T) : (p.wake cv').inCall cv = p.inCall cv := by
  cases p with
  | parked c =>
    by_cases hc : c.cv = some cv'
    · rw [Pc.wake, if_pos hc]; rfl
    · rw [Pc.wake, if_neg hc]
  | _ => rfl

theorem Pc.inCall_after (c : Call T) (r : Res T) (cv : Cv) : (Pc.after c r).inCall cv = 0 := by
  cases c <;> rfl

/-- A section that leaves without a throw ends one call of its kind, given up or fulfilled. -/
theorem Section.tallied {timedOut : Bool} {q q' : Shared T} {c : Call T} {notify : Option Cv}
    {r : Res T} (h : Section capacity timedOut none q c (.leave q' notify r)) (t : ι) (cv : Cv) :
    (if c.cv = some cv then 1 else 0) =
      (if (Label.leave t c none r).givesUp cv then 1 else 0) +
        fulfilled cv (effects [Label.leave t c none r]) := by
  cases h with
  | accept hc | refuse hc => rcases hc with rfl | rfl <;> cases cv <;> rfl
  | deliver hc | nothing hc => rcases hc with rfl | rfl <;> cases cv <;> rfl
  | close | size | empty | isClosed => cases cv <;> rfl
  | acceptThrow _ _ _ h | frontThrow _ _ h | returnThrow _ _ h => cases h

variable [Fintype ι] [DecidableEq ι]

theorem Notify.inCall {pc pc' : ι → Pc T} {notify : Option Cv} (h : Notify pc notify pc')
    (cv : Cv) : total (Pc.inCall cv) pc' = total (Pc.inCall cv) pc := by
  cases h with
  | none => rfl
  | one h =>
    cases h with
    | none _ => rfl
    | one hp _ => exact total_update_same (by rw [hp]; rfl)

theorem inCall_update {pc : ι → Pc T} {t : ι} {p : Pc T} (ht : pc t = p) (p' : Pc T) (q : Shared T)
    (cv : Cv) : (State.mk q (Function.update pc t p')).inCall cv + p.inCall cv =
      total (Pc.inCall cv) pc + p'.inCall cv := by
  subst ht
  exact total_update (Pc.inCall cv) pc t p'

theorem notifyAll_inCall {s : State ι T} {t : ι} {cv' : Cv} {p : Pc T}
    (ht : s.pc t = .notifyAll cv') (cv : Cv) (hp : p.inCall cv = 0) :
    (State.mk s.shared (Function.update (fun u => (s.pc u).wake cv') t p)).inCall cv =
      s.inCall cv := by
  let woken := fun u => (s.pc u).wake cv'
  have hwoken : woken t = .notifyAll cv' := by simp only [woken, ht, Pc.wake]
  have hmove := inCall_update hwoken p s.shared cv
  have hsame : total (Pc.inCall cv) woken = s.inCall cv :=
    total_congr fun u => Pc.inCall_wake cv cv' (s.pc u)
  have hzero : (Pc.notifyAll cv' : Pc T).inCall cv = 0 := rfl
  change (State.mk s.shared (Function.update woken t p)).inCall cv = s.inCall cv
  omega

omit [DecidableEq ι] in
/-- A step that changes neither what is tallied of the labels nor the calls that are going on. -/
theorem Tallied.keep {ls : List (Label ι T)} {s s' : State ι T} {l : Label ι T} (h : Tallied ls s)
    (hcall : ∀ cv, l.calls cv = false) (hgive : ∀ cv, l.givesUp cv = false)
    (he : effects [l] = []) (hs : ∀ cv, s'.inCall cv = s.inCall cv) : Tallied (ls ++ [l]) s' := by
  intro cv
  have hcv := h cv
  rw [effects_snoc, he, List.append_nil, List.countP_append, List.countP_append,
    List.countP_singleton, List.countP_singleton, hcall, hgive, hs]
  simpa using hcv

theorem Step.tallied {ls : List (Label ι T)} {s s' : State ι T} {l : Label ι T}
    (hs : Step capacity s l s') (hn : NoThrow s l) (h : Tallied ls s) :
    Tallied (ls ++ [l]) s' := by
  have htotal : ∀ cv, total (Pc.inCall cv) s.pc = s.inCall cv := fun _ => rfl
  cases hs with
  | @call t c ht =>
    intro cv
    have hcv := h cv
    have hmove := inCall_update ht (.enter c) s.shared cv
    have hnone : fulfilled cv (effects [Label.call t c]) = 0 := by cases cv <;> rfl
    rw [effects_snoc, fulfilled_append, List.countP_append, List.countP_append,
      List.countP_singleton, List.countP_singleton, hnone]
    rw [htotal] at hmove
    simp only [Pc.inCall, Label.calls, Label.givesUp, decide_eq_true_eq, Bool.false_eq_true,
      if_false] at hmove ⊢
    omega
  | @park t c _ hr _ =>
    refine h.keep (fun _ => rfl) (fun _ => rfl) rfl fun cv => total_update_same ?_
    rw [hr.inCall]
    rfl
  | @leave t c _ throwAt q _ r pc hr hsec hnot =>
    intro cv
    cases hn
    have hcv := h cv
    have hpt : pc t = s.pc t := hnot.keeps fun c' hc' => by rw [hc'] at hr; cases hr
    have hmove := inCall_update hpt (.after c r) q cv
    have hone := (Section.of_eq hsec).tallied t cv
    rw [hr.inCall, Pc.inCall_after, hnot.inCall, htotal] at hmove
    rw [effects_snoc, fulfilled_append, List.countP_append, List.countP_append,
      List.countP_singleton, List.countP_singleton]
    simp only [Label.calls, Bool.false_eq_true, if_false]
    omega
  | spurious ht =>
    exact h.keep (fun _ => rfl) (fun _ => rfl) rfl fun cv => total_update_same (by rw [ht]; rfl)
  | timeout ht _ =>
    refine h.keep (fun _ => rfl) (fun _ => rfl) rfl fun cv => total_update_same ?_
    rcases ht with ht | ht
    · rw [ht]; rfl
    · rw [ht]; rfl
  | @notifyAllEmpty t ht =>
    refine h.keep (fun _ => rfl) (fun _ => rfl) rfl fun cv => ?_
    exact notifyAll_inCall ht cv rfl
  | @notifyAllFull t ht =>
    refine h.keep (fun _ => rfl) (fun _ => rfl) rfl fun cv => ?_
    exact notifyAll_inCall ht cv rfl
  | ret ht =>
    exact h.keep (fun _ => rfl) (fun _ => rfl) rfl fun cv => total_update_same (by rw [ht]; rfl)

variable {ls : List (Label ι T)} {s : State ι T}

theorem system_tallied (h : Exec ((system ι T capacity).restrict NoThrow) ls s) : Tallied ls s := by
  refine h.trace_invariant (I := Tallied) ?_ ?_
  · intro s h0 cv
    have hzero : s.inCall cv = 0 := by
      cases h0
      exact total_eq_zero.2 fun _ => rfl
    rw [hzero]
    cases cv <;> rfl
  · intro ls s l s' _ hi hs
    exact Step.tallied hs.1 hs.2 hi

/-! ## Rest -/

omit [Fintype ι] in
theorem Notify.parked {pc pc' : ι → Pc T} {notify : Option Cv} (h : Notify pc notify pc') {u : ι}
    {c : Call T} (hu : pc' u = .parked c) : pc u = .parked c := by
  cases h with
  | none => exact hu
  | one h =>
    cases h with
    | none _ => exact hu
    | one _ _ => exact (of_update hu nofun).2

theorem Pc.wake_parked {cv : Cv} {p : Pc T} {c : Call T} (h : p.wake cv = .parked c) :
    p = .parked c := by
  unfold Pc.wake at h
  split at h
  · split at h
    · cases h
    · exact h
  · exact h

omit [Fintype ι] in
theorem Step.waits {s s' : State ι T} {l : Label ι T} (hs : Step capacity s l s')
    (hi : s.Waits) : s'.Waits := by
  intro u c hu
  cases hs with
  | call _ | spurious _ | timeout _ _ | ret _ => exact hi u c (of_update hu nofun).2
  | @park t c' _ _ hsec =>
    by_cases hut : u = t
    · subst hut
      simp only [Function.update_self, Pc.parked.injEq] at hu
      subst hu
      cases Section.of_eq hsec with
      | parkPush hc _ _ => rcases hc with rfl | rfl <;> exact ⟨_, rfl⟩
      | parkPop hc _ _ => rcases hc with rfl | rfl <;> exact ⟨_, rfl⟩
    · simp only [Function.update_of_ne hut] at hu
      exact hi u c hu
  | @leave t c' _ _ _ _ r _ _ _ hnot =>
    have hafter : (Pc.after c' r : Pc T) ≠ .parked c := by cases c' <;> nofun
    exact hi u c (hnot.parked (of_update hu hafter).2)
  | notifyAllEmpty _ =>
    have hwoken := of_update (f := fun u => (s.pc u).wake .notEmpty) hu nofun
    exact hi u c (Pc.wake_parked hwoken.2)
  | notifyAllFull _ =>
    have hwoken := of_update (f := fun u => (s.pc u).wake .notFull) hu nofun
    exact hi u c (Pc.wake_parked hwoken.2)

omit [Fintype ι] in
theorem system_waits {ls : List (Label ι T)} {s : State ι T}
    (h : Exec (system ι T capacity) ls s) : s.Waits := by
  refine h.invariant (I := fun s => s.Waits) ?_ ?_
  · intro s h0
    cases h0
    exact nofun
  · intro s l s' hi hs
    exact hs.waits hi

omit [DecidableEq ι] in
theorem State.Resting.inCall (h : s.Resting) (cv : Cv) : s.inCall cv = s.parked cv := by
  unfold State.inCall State.parked total
  refine Finset.sum_congr rfl fun t _ => ?_
  rcases h t with ht | ⟨c, ht⟩
  · rw [ht]; rfl
  · rw [ht]; rfl

omit [DecidableEq ι] in
theorem State.Resting.woken (h : s.Resting) (cv : Cv) : s.woken cv = 0 := by
  unfold State.woken
  refine total_eq_zero.2 fun t => ?_
  rcases h t with ht | ⟨c, ht⟩
  · rw [ht]; rfl
  · rw [ht]; rfl

omit [DecidableEq ι] in
/-- At rest, nothing is there for a parked thread, and the queue is open. -/
theorem State.Resting.served (h : s.Resting) {cv : Cv} (hi : Served capacity s cv)
    (hpos : 0 < s.parked cv) : s.shared.closed = false ∧ s.shared.units capacity cv = 0 := by
  rcases hi hpos with ⟨hopen, hle⟩ | ⟨-, t, hw⟩
  · rw [h.woken] at hle
    exact ⟨hopen, Nat.le_zero.1 hle⟩
  · obtain ⟨cv', he⟩ := hw.eq
    rcases h t with ht | ⟨c, ht⟩
    · rw [ht] at he; cases he
    · rw [ht] at he; cases he

/-- **At rest, exactly the calls in excess wait.** While no element operation throws, in whatever
order the threads ran, and with room for a value (with none, pushes and pops wait for each other):
once no thread can go on by itself, everybody is outside if the queue is closed; if it is open, it
holds the values pushed beyond those popped, as many as fit, and the parked threads are exactly the
pops for which nothing was pushed or the pushes for which there is no room. -/
theorem rest_exact (hcap : 0 < capacity)
    (h : Exec ((system ι T capacity).restrict NoThrow) ls s) (hrest : s.Resting) :
    (s.shared.closed = true → ∀ t, s.pc t = .idle) ∧
      (s.shared.closed = false →
        s.shared.queue = (accepted (effects ls)).drop (demand .notEmpty ls) ∧
          s.shared.queue.length = min capacity (demand .notFull ls - demand .notEmpty ls) ∧
          s.parked .notEmpty = demand .notEmpty ls - demand .notFull ls ∧
          s.parked .notFull = demand .notFull ls - (demand .notEmpty ls + capacity)) := by
  have hserved : ∀ cv, Served capacity s cv :=
    system_served (h.restrict_mono fun _ _ => NoThrow.spares)
  constructor
  · intro hclosed t
    rcases hrest t with ht | ⟨c, ht⟩
    · exact ht
    · obtain ⟨cv, hc⟩ := system_waits h.of_restrict t c ht
      obtain ⟨hopen, -⟩ := hrest.served (hserved cv) (parked_pos ht hc)
      rw [hclosed] at hopen
      cases hopen
  · intro hopen
    obtain ⟨hobj, hlen⟩ := system_refines h
    have hacc : accepted (effects ls) = delivered (effects ls) ++ s.shared.queue :=
      (fifo_conserves (Atomic.object_legal hobj)).1
    have hlenacc := congrArg List.length hacc
    rw [List.length_append] at hlenacc
    have hempty := system_tallied h .notEmpty
    have hfull := system_tallied h .notFull
    rw [hrest.inCall] at hempty hfull
    have hpops : 0 < s.parked .notEmpty → s.shared.queue.length = 0 := fun hpos =>
      (hrest.served (hserved .notEmpty) hpos).2
    have hpushes : 0 < s.parked .notFull → capacity - s.shared.queue.length = 0 := fun hpos =>
      (hrest.served (hserved .notFull) hpos).2
    have hcalls : demand .notEmpty ls = (delivered (effects ls)).length + s.parked .notEmpty := by
      simp only [demand, fulfilled] at hempty ⊢
      omega
    have hcalls' : demand .notFull ls = (accepted (effects ls)).length + s.parked .notFull := by
      simp only [demand, fulfilled] at hfull ⊢
      omega
    refine ⟨?_, by omega, by omega, by omega⟩
    rw [hcalls, hacc]
    rcases Nat.eq_zero_or_pos (s.parked .notEmpty) with hzero | hpos
    · rw [hzero, Nat.add_zero, List.drop_left]
    · have hnil := List.eq_nil_of_length_eq_zero (hpops hpos)
      rw [hnil, List.append_nil, List.drop_eq_nil_of_le (Nat.le_add_right _ _)]

/-- A consumer that pops twice and a producer that pushes once: the consumer waits. -/
theorem rest_exact_two_pops : ∃ (ls : List (Label Bool Nat)) (s : State Bool Nat),
    Exec ((system Bool Nat 1).restrict NoThrow) ls s ∧ s.Resting ∧
      delivered (effects ls) = [5] ∧ s.shared.queue = [] ∧ s.parked .notEmpty = 1 := by
  have h0 : Exec ((system Bool Nat 1).restrict NoThrow) [] ⟨⟨[], false⟩, fun _ => .idle⟩ :=
    .init rfl
  have h1 := h0.snoc ⟨.call (t := true) (c := .pop) rfl, trivial⟩
  have h2 := h1.snoc ⟨.park (t := true) (.enter _) rfl, trivial⟩
  have h3 := h2.snoc ⟨.call (t := false) (c := .push 5 true) rfl, trivial⟩
  have h4 := h3.snoc ⟨.leave (t := false) (.enter _) rfl (.one (.one (t := true) rfl rfl)), rfl⟩
  have h5 := h4.snoc ⟨.leave (t := true) (.woken _ _) rfl
    (.one (.none fun t c h => by cases t <;> cases h)), rfl⟩
  have h6 := h5.snoc ⟨.ret (t := false) rfl, trivial⟩
  have h7 := h6.snoc ⟨.ret (t := true) rfl, trivial⟩
  have h8 := h7.snoc ⟨.call (t := true) (c := .pop) rfl, trivial⟩
  have h9 := h8.snoc ⟨.park (t := true) (.enter _) rfl, trivial⟩
  have hrest : ∀ {s : State Bool Nat}, s.pc false = .idle → s.pc true = .parked .pop → s.Resting :=
    fun hf ht => Bool.forall_bool.2 ⟨.inl hf, .inr ⟨_, ht⟩⟩
  obtain ⟨hq, -, hparked, -⟩ := (rest_exact Nat.one_pos h9 (hrest rfl rfl)).2 rfl
  exact ⟨_, _, h9, hrest rfl rfl, rfl, hq, hparked⟩

end BlockingQueue
