import Mathlib.Data.List.Basic
import Mathlib.Tactic.Common

/-!
# Labelled transition systems

`Lts.System σ ℓ` is a set of initial states and a labelled step relation. `Exec M ls s`: some
initial state leads to `s` by steps labelled `ls`. The rules:

* `Run.invariant`, `Exec.invariant`: what every step keeps, every run keeps.
* `Run.length_le`: runs are finite where every step lowers a measure.
* `Run.length_le_paid`, `Run.countP_le_paid`: the same where labels pay for steps, or where only
  some labels count; `Run.exists_of_measure`: a run to a state from which no step has to lower the
  measure.
* `Run.countP_le`: labels of one kind are no more than those of another kind that paid for them.
* `Exec.trace_invariant`: the same for a property of the labels so far and the state.
* `Exec.simulate`: a forward simulation carries executions of one system to executions of
  another, each step to the list of events it stands for.
* `Run.project`, `Exec.project`: the same when the other system's state is a function of the state.
* `latest`: the latest value that the labels of a run give.
* `Visits`: a run with the states it goes through (`Visits.invariant`, `Visits.exists_step`).
* `System.restrict`: the executions whose steps all meet a condition.
-/

namespace Lts

/-- Initial states and labelled steps. -/
structure System (σ ℓ : Type*) where
  init : σ → Prop
  step : σ → ℓ → σ → Prop

variable {σ ℓ α ε : Type*} {M : System σ ℓ} {A : System α ε}

/-- `Run M s ls s'`: steps labelled `ls`, in order, lead from `s` to `s'`. -/
inductive Run (M : System σ ℓ) : σ → List ℓ → σ → Prop
  | nil (s : σ) : Run M s [] s
  | snoc {s s' s'' : σ} {ls : List ℓ} {l : ℓ} :
      Run M s ls s' → M.step s' l s'' → Run M s (ls ++ [l]) s''

/-- `Exec M ls s`: an initial state leads to `s` by steps labelled `ls`. -/
inductive Exec (M : System σ ℓ) : List ℓ → σ → Prop
  | init {s : σ} : M.init s → Exec M [] s
  | snoc {s s' : σ} {ls : List ℓ} {l : ℓ} : Exec M ls s → M.step s l s' → Exec M (ls ++ [l]) s'

/-! ## Runs -/

theorem Run.single {s s' : σ} {l : ℓ} (h : M.step s l s') : Run M s [l] s' :=
  .snoc (.nil s) h

theorem Run.append {s s' s'' : σ} {ls ls' : List ℓ} (h : Run M s ls s') (h' : Run M s' ls' s'') :
    Run M s (ls ++ ls') s'' := by
  induction h' with
  | nil => simpa using h
  | snoc _ hs ih => rw [← List.append_assoc]; exact .snoc ih hs

/-- What every step keeps, every run keeps. -/
theorem Run.invariant {I : σ → Prop} (hstep : ∀ s l s', I s → M.step s l s' → I s') {s s' : σ}
    {ls : List ℓ} (h : Run M s ls s') (hi : I s) : I s' := by
  induction h with
  | nil => exact hi
  | snoc _ hs ih => exact hstep _ _ _ ih hs

/-- Runs are finite where every step lowers a measure. -/
theorem Run.length_le {I : σ → Prop} {m : σ → Nat}
    (hstep : ∀ s l s', I s → M.step s l s' → I s' ∧ m s' + 1 ≤ m s) {s s' : σ} {ls : List ℓ}
    (h : Run M s ls s') (hi : I s) : I s' ∧ ls.length + m s' ≤ m s := by
  induction h with
  | nil => exact ⟨hi, Nat.le_of_eq (Nat.zero_add _)⟩
  | snoc _ hs ih =>
    obtain ⟨hi', hlen⟩ := ih
    obtain ⟨hi'', hm⟩ := hstep _ _ _ hi' hs
    rw [List.length_append, List.length_singleton]
    exact ⟨hi'', by omega⟩

/-- Labels of one kind are few where each lowers a measure, less what the labels add to it. -/
theorem Run.countP_le_paid {I : σ → Prop} {f : ℓ → Bool} {m : σ → Nat} {cost : ℓ → Nat}
    {paid : List ℓ → Nat} (hpaid : ∀ ls l, paid (ls ++ [l]) = paid ls + cost l)
    (hstep : ∀ s l s', I s → M.step s l s' →
      I s' ∧ (if f l then 1 else 0) + m s' ≤ m s + cost l) {s s' : σ} {ls : List ℓ}
    (h : Run M s ls s') (hi : I s) : I s' ∧ ls.countP f + m s' ≤ m s + paid ls := by
  induction h with
  | nil => exact ⟨hi, Nat.le_trans (Nat.le_of_eq (Nat.zero_add _)) (Nat.le_add_right _ _)⟩
  | snoc _ hs ih =>
    obtain ⟨hi', hle⟩ := ih
    obtain ⟨hi'', hm⟩ := hstep _ _ _ hi' hs
    rw [hpaid, List.countP_append, List.countP_singleton]
    exact ⟨hi'', by omega⟩

/-- Runs are finite where every step lowers a measure, less what its label adds. -/
theorem Run.length_le_paid {m : σ → Nat} {cost : ℓ → Nat} {paid : List ℓ → Nat}
    (hpaid : ∀ ls l, paid (ls ++ [l]) = paid ls + cost l)
    (hstep : ∀ s l s', M.step s l s' → m s' + 1 ≤ m s + cost l) {s s' : σ} {ls : List ℓ}
    (h : Run M s ls s') : ls.length + m s' ≤ m s + paid ls := by
  have hle := (h.countP_le_paid (I := fun _ => True) (f := fun _ => true) (m := m) hpaid
    (fun s l s' _ hs => ⟨trivial, Nat.add_comm (m s') 1 ▸ hstep s l s' hs⟩) trivial).2
  rwa [List.countP_true] at hle

/-- Where some step from every state outside `P` lowers a measure, a run leads to `P`. -/
theorem Run.exists_of_measure {P : σ → Prop} {m : σ → Nat}
    (hstep : ∀ s, ¬P s → ∃ l s', M.step s l s' ∧ m s' + 1 ≤ m s) (s : σ) :
    ∃ ls s', Run M s ls s' ∧ P s' := by
  generalize hn : m s = n
  induction n using Nat.strongRecOn generalizing s with
  | ind n ih =>
    by_cases hp : P s
    · exact ⟨[], s, .nil s, hp⟩
    · obtain ⟨l, s', hs, hm⟩ := hstep s hp
      obtain ⟨ls, s'', hrun, hp'⟩ := ih (m s') (by omega) s' rfl
      exact ⟨[l] ++ ls, s'', (Run.single hs).append hrun, hp'⟩

/-- If a step labelled by `f` uses up what only a step labelled by `g` gives, there are no more of
the first than of the second. -/
theorem Run.countP_le {f g : ℓ → Bool} {m : σ → Nat}
    (hstep : ∀ s l s', M.step s l s' →
      (if f l then 1 else 0) + m s' ≤ (if g l then 1 else 0) + m s) {s s' : σ} {ls : List ℓ}
    (h : Run M s ls s') : ls.countP f + m s' ≤ ls.countP g + m s := by
  induction h with
  | nil => exact Nat.le_refl _
  | snoc _ hs ih =>
    have := hstep _ _ _ hs
    simp only [List.countP_append, List.countP_singleton]
    omega

/-! ## Executions -/

theorem Exec.append {s s' : σ} {ls ls' : List ℓ} (h : Exec M ls s) (h' : Run M s ls' s') :
    Exec M (ls ++ ls') s' := by
  induction h' with
  | nil => simpa using h
  | snoc _ hs ih => rw [← List.append_assoc]; exact .snoc ih hs

theorem Exec.exists_run {s : σ} {ls : List ℓ} (h : Exec M ls s) :
    ∃ s₀, M.init s₀ ∧ Run M s₀ ls s := by
  induction h with
  | init h0 => exact ⟨_, h0, .nil _⟩
  | snoc _ hs ih =>
    obtain ⟨s₀, h0, hrun⟩ := ih
    exact ⟨s₀, h0, hrun.snoc hs⟩

/-- A property of the labels so far and the state that holds initially and is kept by every
step holds of every execution. -/
theorem Exec.trace_invariant {I : List ℓ → σ → Prop} (hinit : ∀ s, M.init s → I [] s)
    (hstep : ∀ ls s l s', Exec M ls s → I ls s → M.step s l s' → I (ls ++ [l]) s')
    {ls : List ℓ} {s : σ} (h : Exec M ls s) : I ls s := by
  induction h with
  | init h0 => exact hinit _ h0
  | snoc h hs ih => exact hstep _ _ _ _ h ih hs

/-- What holds initially and is kept by every step holds of every state reached. -/
theorem Exec.invariant {I : σ → Prop} (hinit : ∀ s, M.init s → I s)
    (hstep : ∀ s l s', I s → M.step s l s' → I s') {ls : List ℓ} {s : σ} (h : Exec M ls s) : I s :=
  h.trace_invariant (I := fun _ s => I s) hinit fun _ _ _ _ _ hi hs => hstep _ _ _ hi hs

/-- Forward simulation: if every step of `M` from a related state is matched by a run of `A`
with the events `ev` of its label, every execution of `M` is matched by one of `A`. -/
theorem Exec.simulate {R : σ → α → Prop} {ev : ℓ → List ε}
    (hinit : ∀ s, M.init s → ∃ a, A.init a ∧ R s a)
    (hstep : ∀ s l s' a, R s a → M.step s l s' → ∃ a', Run A a (ev l) a' ∧ R s' a')
    {ls : List ℓ} {s : σ} (h : Exec M ls s) : ∃ a, Exec A (ls.flatMap ev) a ∧ R s a := by
  induction h with
  | init h0 =>
    obtain ⟨a, ha, hr⟩ := hinit _ h0
    exact ⟨a, .init ha, hr⟩
  | snoc _ hs ih =>
    obtain ⟨a, ha, hr⟩ := ih
    obtain ⟨a', hrun, hr'⟩ := hstep _ _ _ _ hr hs
    exact ⟨a', by simpa using ha.append hrun, hr'⟩

/-! ## Projection -/

section
variable {f : σ → α} {ev : ℓ → List ε}

/-- A system whose every step is a run of another system on a part of the state. -/
theorem Run.project (hstep : ∀ s l s', M.step s l s' → Run A (f s) (ev l) (f s')) {s s' : σ}
    {ls : List ℓ} (h : Run M s ls s') : Run A (f s) (ls.flatMap ev) (f s') := by
  induction h with
  | nil => exact .nil _
  | snoc _ hs ih => simpa using ih.append (hstep _ _ _ hs)

theorem Exec.project (hinit : ∀ s, M.init s → A.init (f s))
    (hstep : ∀ s l s', M.step s l s' → Run A (f s) (ev l) (f s')) {s : σ} {ls : List ℓ}
    (h : Exec M ls s) : Exec A (ls.flatMap ev) (f s) := by
  induction h with
  | init h0 => exact .init (hinit _ h0)
  | snoc _ hs ih => simpa using ih.append (hstep _ _ _ hs)

end

/-! ## The states of a run -/

/-- `Visits M s ls xs s'`: steps labelled `ls` lead from `s` to `s'` through the states `xs`, the
first and the last one included. -/
inductive Visits (M : System σ ℓ) : σ → List ℓ → List σ → σ → Prop
  | nil (s : σ) : Visits M s [] [s] s
  | snoc {s s' s'' : σ} {ls : List ℓ} {xs : List σ} {l : ℓ} :
      Visits M s ls xs s' → M.step s' l s'' → Visits M s (ls ++ [l]) (xs ++ [s'']) s''

section
variable {s s' : σ} {ls : List ℓ} {xs : List σ}

theorem Visits.run (h : Visits M s ls xs s') : Run M s ls s' := by
  induction h with
  | nil => exact .nil _
  | snoc _ hs ih => exact ih.snoc hs

theorem Visits.first_mem (h : Visits M s ls xs s') : s ∈ xs := by
  induction h with
  | nil => exact List.mem_singleton_self _
  | snoc _ _ ih => exact List.mem_append_left _ ih

theorem Visits.last_mem (h : Visits M s ls xs s') : s' ∈ xs := by
  cases h with
  | nil => exact List.mem_singleton_self _
  | snoc _ _ => simp

theorem Visits.append {s'' : σ} {ls' : List ℓ} {ys : List σ} (h : Visits M s ls xs s')
    (h' : Visits M s' ls' ys s'') :
    ∃ zs, Visits M s (ls ++ ls') zs s'' ∧ ∀ x ∈ zs, x ∈ xs ∨ x ∈ ys := by
  induction h' with
  | nil => exact ⟨xs, by simpa using h, fun _ => .inl⟩
  | @snoc _ x _ _ _ _ hs ih =>
    obtain ⟨zs, hz, hmem⟩ := ih
    refine ⟨zs ++ [x], by rw [← List.append_assoc]; exact hz.snoc hs, ?_⟩
    intro y hy
    rcases List.mem_append.1 hy with hy | hy
    · exact (hmem y hy).imp_right (List.mem_append_left _)
    · exact .inr (List.mem_append_right _ hy)

/-- What every step keeps holds of every state of the run. -/
theorem Visits.invariant {I : σ → Prop} (hstep : ∀ s l s', I s → M.step s l s' → I s')
    (h : Visits M s ls xs s') (hi : I s) : ∀ x ∈ xs, I x := by
  induction h with
  | nil => simpa using hi
  | snoc h hs ih =>
    intro x hx
    rcases List.mem_append.1 hx with hx | hx
    · exact ih x hx
    · rw [List.mem_singleton.1 hx]
      exact hstep _ _ _ (ih _ h.last_mem) hs

/-- Every step of the run is between two of its states. -/
theorem Visits.exists_step (h : Visits M s ls xs s') {l : ℓ} (hl : l ∈ ls) :
    ∃ x ∈ xs, ∃ x' ∈ xs, M.step x l x' := by
  induction h with
  | nil => cases hl
  | snoc h hs ih =>
    rcases List.mem_append.1 hl with hl | hl
    · obtain ⟨x, hx, x', hx', hstep⟩ := ih hl
      exact ⟨x, List.mem_append_left _ hx, x', List.mem_append_left _ hx', hstep⟩
    · rw [List.mem_singleton.1 hl]
      exact ⟨_, List.mem_append_left _ h.last_mem, _, by simp, hs⟩

end

/-! ## The latest label -/

/-- The latest value that the labels give. -/
def latest (f : ℓ → Option α) (ls : List ℓ) : Option α := (ls.filterMap f).getLast?

section
variable {f : ℓ → Option α} {ls : List ℓ} {l : ℓ}

theorem latest_of_none (h : f l = none) : latest f (ls ++ [l]) = latest f ls := by
  unfold latest
  rw [List.filterMap_append, List.filterMap_cons_none h, List.filterMap_nil, List.append_nil]

theorem latest_of_some {a : α} (h : f l = some a) : latest f (ls ++ [l]) = some a := by
  unfold latest
  rw [List.filterMap_append, List.filterMap_cons_some h, List.filterMap_nil, List.getLast?_concat]

end

/-! ## Restriction -/

/-- The steps of `M` that meet the condition `P`. -/
def System.restrict (M : System σ ℓ) (P : σ → ℓ → Prop) : System σ ℓ where
  init := M.init
  step s l s' := M.step s l s' ∧ P s l

theorem Exec.of_restrict {P : σ → ℓ → Prop} {s : σ} {ls : List ℓ} (h : Exec (M.restrict P) ls s) :
    Exec M ls s := by
  induction h with
  | init h0 => exact .init h0
  | snoc _ hs ih => exact ih.snoc hs.1

theorem Exec.restrict_true {s : σ} {ls : List ℓ} (h : Exec M ls s) :
    Exec (M.restrict fun _ _ => True) ls s := by
  induction h with
  | init h0 => exact .init h0
  | snoc _ hs ih => exact ih.snoc ⟨hs, trivial⟩

theorem Exec.restrict_mono {P Q : σ → ℓ → Prop} (hPQ : ∀ s l, P s l → Q s l) {s : σ}
    {ls : List ℓ} (h : Exec (M.restrict P) ls s) : Exec (M.restrict Q) ls s := by
  induction h with
  | init h0 => exact .init h0
  | snoc _ hs ih => exact ih.snoc ⟨hs.1, hPQ _ _ hs.2⟩

theorem Visits.restrict {P : ℓ → Prop} {s s' : σ} {ls : List ℓ} {xs : List σ}
    (h : Visits M s ls xs s') (hP : ∀ l ∈ ls, P l) :
    Visits (M.restrict fun _ => P) s ls xs s' := by
  induction h with
  | nil => exact .nil _
  | snoc _ hs ih =>
    exact (ih fun l hl => hP l (List.mem_append_left _ hl)).snoc ⟨hs, hP _ (by simp)⟩

end Lts
