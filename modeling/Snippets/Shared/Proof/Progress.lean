import Snippets.Shared.Proof.Block
import Mathlib.Algebra.Order.BigOperators.Group.List
import Mathlib.Algebra.Order.Ring.Nat

/-!
# The control block is lock-free

`lock_use_count` tries again when its compare-exchange fails. `marked` marks the attempts that fail
spuriously, with the counter as it was loaded. Every other failure is due to an update by another
thread since the load (`Stack.stale`), and all functions but that one are done in at most five
steps, so what a thread still has to do (`Stack.toCome`) is paid for by its own calls, the updates
of others and the spurious failures (`Step.toCome`). Together: `lock_free`.
-/

namespace ControlBlock

open Lts

variable {ι : Type*} [DecidableEq ι] {s s' : State ι} {l : Label ι} {t : ι}

/-! ## The steps of a thread -/

/-- The thread that makes the step. -/
def Label.thread : Label ι → ι
  | .incUse t | .decUse t | .incWeakShared t | .incWeak t | .decWeak t | .lockLoad t
  | .lockFail t | .lockSucceed t | .lockRetry t | .dispose t | .disposed t | .decWeakLast t
  | .destroy t | .give t _ => t

/-- The first step of a function of the block. -/
def Label.starts : Label ι → Bool
  | .incUse _ | .decUse _ | .incWeakShared _ | .incWeak _ | .decWeak _ | .lockLoad _ => true
  | _ => false

/-- A later step of a function of the block. -/
def Label.goesOn : Label ι → Bool
  | .lockFail _ | .lockSucceed _ | .lockRetry _ | .dispose _ | .disposed _ | .decWeakLast _
  | .destroy _ => true
  | _ => false

/-- The step changes the use count. -/
def Label.updates : Label ι → Bool
  | .incUse _ | .decUse _ | .lockSucceed _ => true
  | _ => false

/-- A compare-exchange fails. -/
def Label.retries : Label ι → Bool
  | .lockRetry _ => true
  | _ => false

/-- A compare-exchange that fails though the counter is as it was loaded. -/
def State.spurious (s : State ι) : Label ι → Bool
  | .lockRetry t => (s.threads t).stack.head? = some (.lock s.useCount)
  | _ => false

/-- The system, with the spurious failures marked. -/
def marked (ι : Type*) [DecidableEq ι] [Fintype ι] : System (State ι) (Label ι × Bool) where
  init := (system ι).init
  step s l s' := (system ι).step s l.1 s' ∧ l.2 = s.spurious l.1

theorem exists_marked [Fintype ι] {ls : List (Label ι)} (h : Exec (system ι) ls s) :
    ∃ ms, Exec (marked ι) ms s ∧ ms.map Prod.fst = ls := by
  induction h with
  | init h0 => exact ⟨[], .init h0, rfl⟩
  | @snoc s s' ls l _ hs ih =>
    obtain ⟨ms, hms, hmap⟩ := ih
    refine ⟨ms ++ [(l, s.spurious l)], hms.snoc ⟨hs, rfl⟩, ?_⟩
    rw [List.map_append, hmap]
    rfl

/-! ## What is to come -/

/-- The steps that a frame still takes, if no compare-exchange fails. -/
def Frame.weight : Frame → Nat
  | .release => 4
  | .disposing => 3
  | .decWeak => 2
  | .destroy => 1
  | .lock _ => 1

/-- 1 if the counter was changed after the load. -/
def Stack.stale (stack : List Frame) (useCount : BitVec 64) : Nat :=
  match stack.head? with
  | some (.lock n) => if n = useCount then 0 else 1
  | _ => 0

/-- The steps that the calls of a thread still take, with an attempt for a load that is stale. -/
def Stack.toCome (stack : List Frame) (useCount : BitVec 64) : Nat :=
  (stack.map Frame.weight).sum + Stack.stale stack useCount

theorem Stack.stale_le (stack : List Frame) (n : BitVec 64) : Stack.stale stack n ≤ 1 := by
  unfold stale
  split
  · split <;> decide
  · decide

theorem Stack.stale_of_free {th : Thread} (h : th.Free) (n : BitVec 64) :
    Stack.stale th.stack n = 0 := by
  unfold stale
  rcases h with h | h
  · rw [h]
    rfl
  · rw [h]

theorem State.set_stack (s : State ι) (t : ι) {th : Thread} {stack : List Frame}
    (h : th.stack = stack) : ((s.set t th).threads t).stack = stack :=
  (congrArg Thread.stack (Function.update_self ..)).trans h

theorem State.set_stack_ne (s : State ι) {t u : ι} (h : u ≠ t) (th : Thread) :
    ((s.set u th).threads t).stack = (s.threads t).stack :=
  congrArg Thread.stack (Function.update_of_ne (Ne.symm h) ..)

/-- A thread is left alone by the steps of the others, but for the counter. -/
theorem Step.other (h : Step s l s') (ht : l.thread ≠ t) :
    (s'.threads t).stack = (s.threads t).stack := by
  cases h with
  | @give u v =>
    by_cases hv : v = t
    · subst hv
      exact State.set_stack _ _ rfl
    · exact (State.set_stack_ne _ hv _).trans (State.set_stack_ne _ ht _)
  | _ => exact State.set_stack_ne _ ht _

theorem Step.useCount_eq (h : Step s l s') (hl : l.updates = false) : s'.useCount = s.useCount := by
  cases h with
  | incUse | decUse | lockSucceed => cases hl
  | _ => rfl

theorem Stack.toCome_of_free {th : Thread} (h : th.Free) (n : BitVec 64) :
    Stack.toCome th.stack n = (th.stack.map Frame.weight).sum := by
  unfold toCome
  rw [stale_of_free h, Nat.add_zero]

/-- The innermost frame is one that was not overtaken by an update. -/
theorem Stack.stale_cons {f : Frame} {n : BitVec 64} (hf : ∀ k, f = .lock k → k = n)
    (rest : List Frame) : stale (f :: rest) n = 0 := by
  unfold stale
  cases f with
  | lock k => exact if_pos (hf k rfl)
  | _ => rfl

theorem Stack.toCome_cons {f : Frame} {n : BitVec 64} (hf : ∀ k, f = .lock k → k = n)
    (rest : List Frame) : toCome (f :: rest) n = f.weight + (rest.map Frame.weight).sum := by
  unfold toCome
  rw [stale_cons hf, List.map_cons, List.sum_cons, Nat.add_zero]

/-- From `stack` to `stack'`, a thread makes a step that costs `paid`. -/
def Stack.Goes (spent paid : Nat) (stack : List Frame) (useCount : BitVec 64)
    (stack' : List Frame) (useCount' : BitVec 64) : Prop :=
  stale stack' useCount' = 0 ∧ spent + toCome stack' useCount' ≤ toCome stack useCount + paid

section
variable {th th' : Thread} {f g : Frame} {rest : List Frame} {n m : BitVec 64}

theorem Stack.goes_free (hf : th.Free) (hst : th'.stack = th.stack) (paid : Nat) :
    Goes 0 paid th.stack n th'.stack m := by
  unfold Goes
  rw [hst, toCome_of_free hf, toCome_of_free hf]
  exact ⟨stale_of_free hf m, by omega⟩

theorem Stack.goes_start (hf : th.Free) (hst : th'.stack = f :: th.stack) (hw : f.weight ≤ 4)
    (hk : ∀ k, f = .lock k → k = m) : Goes 0 4 th.stack n th'.stack m := by
  unfold Goes
  rw [hst, toCome_cons hk, toCome_of_free hf]
  exact ⟨stale_cons hk _, by omega⟩

theorem Stack.goes_next (hst : th.stack = f :: rest) (hst' : th'.stack = g :: rest)
    (hw : g.weight + 1 ≤ f.weight) (hg : ∀ k, g = .lock k → k = m) :
    Goes 1 0 th.stack n th'.stack m := by
  unfold Goes
  rw [hst', toCome_cons hg, hst]
  refine ⟨stale_cons hg _, ?_⟩
  unfold toCome
  rw [List.map_cons, List.sum_cons]
  omega

theorem Stack.goes_ret (hok : th.Ok) (hst : th.stack = f :: rest) (hst' : th'.stack = rest) :
    Goes 1 0 th.stack n th'.stack m := by
  have hfree : (⟨0, 0, rest⟩ : Thread).Free := (hok.pop hst).2
  have hpos : 1 ≤ f.weight := by
    cases f with
    | lock => exact Nat.le_refl 1
    | _ => decide
  have hrest : toCome rest m = (rest.map Frame.weight).sum := toCome_of_free hfree m
  unfold Goes
  rw [hst', hrest, hst]
  refine ⟨stale_of_free hfree m, ?_⟩
  unfold toCome
  rw [List.map_cons, List.sum_cons]
  omega

/-- The compare-exchange of a lock has failed: the counter is not as it was loaded, or it is a
spurious failure. -/
theorem Stack.goes_retry (hst : th.stack = .lock n :: rest) (hst' : th'.stack = .lock m :: rest) :
    Goes 1 (if n = m then 1 else 0) th.stack m th'.stack m := by
  have hm : ∀ k, Frame.lock m = .lock k → k = m := fun k hk => (Frame.lock.inj hk).symm
  have hstale : stale (.lock n :: rest) m = if n = m then 0 else 1 := rfl
  unfold Goes
  rw [hst', toCome_cons hm, hst]
  refine ⟨stale_cons hm _, ?_⟩
  unfold toCome
  rw [hstale, List.map_cons, List.sum_cons]
  change 1 + (1 + _) ≤ 1 + _ + _ + _
  split <;> omega

end

omit [DecidableEq ι] in
theorem State.spurious_eq {n : BitVec 64} {rest : List Frame}
    (hst : (s.threads t).stack = .lock n :: rest) :
    s.spurious (.lockRetry t) = decide (n = s.useCount) := by
  change decide ((s.threads t).stack.head? = some (Frame.lock s.useCount)) = _
  rw [hst]
  simp

theorem Thread.afterDecUse_stack (th : Thread) (n : BitVec 64) :
    (th.afterDecUse n).stack = th.stack ∨ (th.afterDecUse n).stack = .release :: th.stack := by
  unfold afterDecUse
  split
  · exact .inr rfl
  · exact .inl rfl

theorem Thread.afterDecWeak_stack (th : Thread) (n : BitVec 64) :
    (th.afterDecWeak n).stack = th.stack ∨ (th.afterDecWeak n).stack = .destroy :: th.stack := by
  unfold afterDecWeak
  split
  · exact .inr rfl
  · exact .inl rfl

/-- What a thread's own step leaves to come. -/
theorem Step.own (h : Step s l s') (hok : (s.threads l.thread).Ok) :
    Stack.Goes (if l.goesOn then 1 else 0)
      (4 * (if l.starts then 1 else 0) + (if s.spurious l then 1 else 0))
      (s.threads l.thread).stack s.useCount (s'.threads l.thread).stack s'.useCount := by
  cases h with
  | incUse hf | incWeakShared hf | incWeak hf =>
    refine Stack.goes_free hf ?_ 4
    exact State.set_stack _ _ rfl
  | @decUse t n hf hn =>
    rcases Thread.afterDecUse_stack { s.threads t with shared := n } s.useCount with h | h
    · exact Stack.goes_free hf (State.set_stack _ _ h) 4
    · exact Stack.goes_start hf (State.set_stack _ _ h) (Nat.le_refl 4) nofun
  | @decWeak t n hf hn =>
    rcases Thread.afterDecWeak_stack { s.threads t with weak := n } s.weakCount with h | h
    · exact Stack.goes_free hf (State.set_stack _ _ h) 4
    · exact Stack.goes_start hf (State.set_stack _ _ h) (by decide) nofun
  | lockLoad hf =>
    apply Stack.goes_start hf (State.set_stack _ _ rfl)
    · exact Nat.le_add_left 1 3
    · exact fun k hk => (Frame.lock.inj hk).symm
  | lockFail hst | lockSucceed hst | destroy hst =>
    exact Stack.goes_ret hok hst (State.set_stack _ _ rfl)
  | @lockRetry t n rest hst hn =>
    rw [State.spurious_eq hst]
    simp only [decide_eq_true_eq]
    change Stack.Goes 1 (0 + _) _ _ _ _
    rw [Nat.zero_add]
    exact Stack.goes_retry hst (State.set_stack _ _ rfl)
  | dispose hst | disposed hst =>
    exact Stack.goes_next hst (State.set_stack _ _ rfl) (by decide) nofun
  | @decWeakLast t rest hst =>
    rcases Thread.afterDecWeak_stack { s.threads t with stack := rest } s.weakCount with h | h
    · exact Stack.goes_ret hok hst (State.set_stack _ _ h)
    · exact Stack.goes_next hst (State.set_stack _ _ h) (Nat.le_refl 2) nofun
  | @give t u a b c d htu hf hs hw =>
    refine Stack.goes_free hf ?_ 0
    exact (State.set_stack_ne _ (Ne.symm htu) _).trans (State.set_stack s t rfl)

/-! ## The steps of all threads -/

/-- A step of thread `t`. -/
def Label.byThread (f : Label ι → Bool) (t : ι) (l : Label ι × Bool) : Bool :=
  f l.1 && l.1.thread = t

/-- A step of another thread than `t`. -/
def Label.byOther (f : Label ι → Bool) (t : ι) (l : Label ι × Bool) : Bool :=
  f l.1 && l.1.thread ≠ t

/-- A failure of thread `t` that is spurious. -/
def Label.fails (t : ι) (l : Label ι × Bool) : Bool := l.2 && l.1.thread = t

section
variable (h : Step s l s') (hok : ∀ t, (s.threads t).Ok) (t : ι)
include h hok

/-- What a thread still has to do is paid for by its calls, the updates of others, and failures that
are spurious. -/
theorem Step.toCome :
    (if Label.byThread Label.goesOn t (l, s.spurious l) then 1 else 0) +
        Stack.toCome (s'.threads t).stack s'.useCount ≤
      Stack.toCome (s.threads t).stack s.useCount +
        (4 * (if Label.byThread Label.starts t (l, s.spurious l) then 1 else 0) +
          (if Label.byOther Label.updates t (l, s.spurious l) then 1 else 0) +
            (if Label.fails t (l, s.spurious l) then 1 else 0)) := by
  unfold Label.byThread Label.byOther Label.fails
  by_cases ht : l.thread = t
  · subst ht
    have hown := (h.own (hok _)).2
    simp only [decide_true, Bool.and_true, ne_eq, not_true_eq_false, decide_false, Bool.and_false,
      Bool.false_eq_true, if_false]
    omega
  · have hstack := h.other ht
    have hstale := Stack.stale_le (s.threads t).stack s'.useCount
    simp only [ht, decide_false, Bool.and_false, Bool.false_eq_true, if_false, ne_eq,
      not_false_eq_true, decide_true, Bool.and_true]
    unfold Stack.toCome
    rw [hstack]
    cases hl : l.updates with
    | false =>
      rw [h.useCount_eq hl]
      omega
    | true =>
      rw [if_pos rfl]
      omega

/-- A failure that is not spurious is due to an update by another thread. -/
theorem Step.stale :
    (if Label.byThread Label.retries t (l, s.spurious l) then 1 else 0) +
        Stack.stale (s'.threads t).stack s'.useCount ≤
      Stack.stale (s.threads t).stack s.useCount +
        ((if Label.byOther Label.updates t (l, s.spurious l) then 1 else 0) +
          (if Label.fails t (l, s.spurious l) then 1 else 0)) := by
  unfold Label.byThread Label.byOther Label.fails
  by_cases ht : l.thread = t
  · subst ht
    rw [(h.own (hok _)).1]
    simp only [decide_true, Bool.and_true, ne_eq, not_true_eq_false, decide_false, Bool.and_false,
      Bool.false_eq_true, if_false]
    cases h with
    | @lockRetry t n rest hst =>
      have hstale : Stack.stale (.lock n :: rest) s.useCount = if n = s.useCount then 0 else 1 :=
        rfl
      change 1 + 0 ≤ Stack.stale (s.threads t).stack s.useCount + _
      rw [State.spurious_eq hst, hst, hstale]
      by_cases hn : n = s.useCount
      · simp [hn]
      · simp [hn]
    | _ => exact Nat.zero_le _
  · have hstack := h.other ht
    have hstale := Stack.stale_le (s.threads t).stack s'.useCount
    simp only [ht, decide_false, Bool.and_false, Bool.false_eq_true, if_false, ne_eq,
      not_false_eq_true, decide_true, Bool.and_true]
    rw [hstack]
    cases hl : l.updates with
    | false =>
      rw [h.useCount_eq hl]
      omega
    | true =>
      rw [if_pos rfl]
      omega

end

/-! ## Runs -/

theorem exists_goesOn (hne : (s.threads t).stack ≠ []) :
    ∃ l s', l.thread = t ∧ l.goesOn = true ∧ s.spurious l = false ∧ Step s l s' := by
  match hst : (s.threads t).stack with
  | [] => exact absurd hst hne
  | .release :: rest => exact ⟨.dispose t, _, rfl, rfl, rfl, .dispose hst⟩
  | .disposing :: rest => exact ⟨.disposed t, _, rfl, rfl, rfl, .disposed hst⟩
  | .decWeak :: rest => exact ⟨.decWeakLast t, _, rfl, rfl, rfl, .decWeakLast hst⟩
  | .destroy :: rest => exact ⟨.destroy t, _, rfl, rfl, rfl, .destroy hst⟩
  | .lock n :: rest =>
    by_cases h0 : n = 0
    · subst h0
      exact ⟨.lockFail t, _, rfl, rfl, rfl, .lockFail hst⟩
    · by_cases hn : s.useCount = n
      · exact ⟨.lockSucceed t, _, rfl, rfl, rfl, .lockSucceed hst h0 hn⟩
      · refine ⟨.lockRetry t, _, rfl, rfl, ?_, .lockRetry hst h0⟩
        rw [State.spurious_eq hst]
        exact decide_eq_false (Ne.symm hn)

/-- The failures of thread `t` that are not its own doing. -/
def disturbed (t : ι) (ls : List (Label ι × Bool)) : Nat :=
  ls.countP (Label.byOther Label.updates t) + ls.countP (Label.fails t)

/-- What pays for the steps of thread `t`. -/
def paid (t : ι) (ls : List (Label ι × Bool)) : Nat :=
  4 * ls.countP (Label.byThread Label.starts t) + disturbed t ls

theorem disturbed_snoc (t : ι) (ls : List (Label ι × Bool)) (l : Label ι × Bool) :
    disturbed t (ls ++ [l]) = disturbed t ls + ((if Label.byOther Label.updates t l then 1 else 0) +
      (if Label.fails t l then 1 else 0)) := by
  unfold disturbed
  rw [List.countP_append, List.countP_append, List.countP_singleton, List.countP_singleton]
  omega

theorem paid_snoc (t : ι) (ls : List (Label ι × Bool)) (l : Label ι × Bool) :
    paid t (ls ++ [l]) = paid t ls + (4 * (if Label.byThread Label.starts t l then 1 else 0) +
      (if Label.byOther Label.updates t l then 1 else 0) + (if Label.fails t l then 1 else 0)) := by
  unfold paid
  rw [disturbed_snoc, List.countP_append, List.countP_singleton]
  omega

section
variable [Fintype ι] {ls : List (Label ι × Bool)}

/-- What every step of the system keeps. -/
def Kept (s : State ι) : Prop := Inv s ∧ s.handles < 2 ^ 63

theorem Kept.step {l : Label ι × Bool} (hi : Kept s) (hs : (marked ι).step s l s') : Kept s' :=
  system_step hi hs.1

/-- **The control block is lock-free.** In every run, beside the first steps of its calls a thread
makes at most four steps for each call, one for each update of the use count by another thread and
one for each of its compare-exchanges that fails spuriously. From any state on, its attempts to lock
that fail are at most one if the counter has been updated since its load, and one for each of these.
It can always go on with the call it is in. -/
theorem lock_free (h : Exec (marked ι) ls s) (t : ι) :
    ls.countP (Label.byThread Label.goesOn t) ≤
        4 * ls.countP (Label.byThread Label.starts t) + disturbed t ls ∧
      (∀ ls' s', Run (marked ι) s ls' s' → ls'.countP (Label.byThread Label.retries t) ≤
        Stack.stale (s.threads t).stack s.useCount + disturbed t ls') ∧
      ((s.threads t).stack ≠ [] →
        ∃ l s', l.thread = t ∧ l.goesOn = true ∧ s.spurious l = false ∧ Step s l s') := by
  obtain ⟨s₀, h0, hrun⟩ := h.exists_run
  have hinit : Kept s₀ := Inv.init h0
  have hcost : ∀ s (l : Label ι × Bool) s', Kept s → (marked ι).step s l s' → Kept s' ∧
      (if Label.byThread Label.goesOn t l then 1 else 0) +
        Stack.toCome (s'.threads t).stack s'.useCount ≤
      Stack.toCome (s.threads t).stack s.useCount +
        (4 * (if Label.byThread Label.starts t l then 1 else 0) +
          (if Label.byOther Label.updates t l then 1 else 0) +
            (if Label.fails t l then 1 else 0)) := by
    intro s ⟨l, b⟩ s' hi hs
    obtain rfl : b = s.spurious l := hs.2
    exact ⟨hi.step hs, hs.1.1.toCome hi.1.threads t⟩
  have hfail : ∀ s (l : Label ι × Bool) s', Kept s → (marked ι).step s l s' → Kept s' ∧
      (if Label.byThread Label.retries t l then 1 else 0) +
        Stack.stale (s'.threads t).stack s'.useCount ≤
      Stack.stale (s.threads t).stack s.useCount +
        ((if Label.byOther Label.updates t l then 1 else 0) +
          (if Label.fails t l then 1 else 0)) := by
    intro s ⟨l, b⟩ s' hi hs
    obtain rfl : b = s.spurious l := hs.2
    exact ⟨hi.step hs, hs.1.1.stale hi.1.threads t⟩
  refine ⟨?_, fun ls' s' hrun' => ?_, exists_goesOn⟩
  · have hle := (hrun.countP_le_paid (paid_snoc t) hcost hinit).2
    have hnone : Stack.toCome (s₀.threads t).stack s₀.useCount = 0 := by
      obtain ⟨u, rfl⟩ := h0
      have hst : (Function.update (fun _ => (⟨0, 0, []⟩ : Thread)) u ⟨1, 0, []⟩ t).stack = [] := by
        by_cases hu : t = u
        · subst hu
          exact (congrArg Thread.stack (Function.update_self ..)).trans rfl
        · exact (congrArg Thread.stack (Function.update_of_ne hu ..)).trans rfl
      exact congrArg (Stack.toCome · 1) hst
    rw [hnone, Nat.zero_add] at hle
    exact Nat.le_of_add_right_le hle
  · have hkept : Kept s := hrun.invariant (fun s l s' hi hs => Kept.step hi hs) hinit
    exact Nat.le_of_add_right_le (hrun'.countP_le_paid (disturbed_snoc t) hfail hkept).2

end

/-- One thread copies its handle while another one locks, which fails once and then succeeds. -/
theorem lock_free_overtaken : ∃ (ls ls' : List (Label Bool × Bool)) (s s' : State Bool),
    Exec (marked Bool) ls s ∧ Run (marked Bool) s ls' s' ∧ s'.useCount = 3 ∧
      ls'.countP (Label.byThread Label.retries true) = 1 ∧ disturbed true ls' = 1 ∧
      ls'.countP (Label.byThread Label.retries true) ≤
        Stack.stale (s.threads true).stack s.useCount + disturbed true ls' := by
  have h0 : Exec (marked Bool) []
      ⟨1, 1, Function.update (fun _ => ⟨0, 0, []⟩) false ⟨1, 0, []⟩, 0, 0, 0⟩ := .init ⟨false, rfl⟩
  have h1 := h0.snoc (l := (.incWeakShared false, false))
    ⟨⟨.incWeakShared (.inl rfl) Nat.one_pos, by decide⟩, rfl⟩
  have h2 := h1.snoc (l := (.give false true, false))
    ⟨⟨.give (t := false) (u := true) (a := 1) (b := 0) (c := 0) (d := 1) nofun (.inl rfl) rfl rfl,
      by decide⟩, rfl⟩
  have h3 := h2.snoc (l := (.lockLoad true, false))
    ⟨⟨.lockLoad (.inl rfl) Nat.one_pos, by decide⟩, rfl⟩
  have hnil : ∀ {ls s}, Exec (marked Bool) ls s → Run (marked Bool) s [] s := fun {_ s} _ => .nil s
  have hrun := (((hnil h3).snoc (l := (.incUse false, false))
    ⟨⟨.incUse (t := false) (n := 0) (.inl rfl) rfl, by decide⟩, rfl⟩).snoc
    (l := (.lockRetry true, false)) ⟨⟨.lockRetry rfl (by decide), by decide⟩, rfl⟩).snoc
    (l := (.lockSucceed true, false)) ⟨⟨.lockSucceed rfl (by decide) rfl, by decide⟩, rfl⟩
  exact ⟨_, _, _, _, h3, hrun, rfl, rfl, rfl, (lock_free h3 true).2.1 _ _ hrun⟩

end ControlBlock
