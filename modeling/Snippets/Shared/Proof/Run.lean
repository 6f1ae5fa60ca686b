import Mathlib.Algebra.GroupWithZero.Nat
import Snippets.Shared.Proof.Counts

/-!
# The calls run to their end

No step of a call touches a handle or a control block that is gone (`Inv.progress`), and every
step makes `State.work` smaller, so the calls on the stack end (`run_total`): a destructor that
starts further destructors uses up a handle for each.
-/

namespace SharedPtr

variable {ι τ P D : Type*} {s s' : State ι τ P D} {b : Nat} {cast : τ → τ → P → P}
  {members : P → List ι} {f : Frame ι} {rest : List (Frame ι)}

/-! ## What every step leaves alone -/

/-- Blocks are neither created nor readopted, the log grows. -/
structure Later (s s' : State ι τ P D) : Prop where
  origin : SameOrigin s.blocks s'.blocks
  absent : ∀ b, s.blocks b = none → s'.blocks b = none
  log : s.log <+: s'.log

theorem Later.refl (s : State ι τ P D) : Later s s :=
  ⟨.refl _, fun _ => id, List.prefix_refl _⟩

theorem Later.trans {s'' : State ι τ P D} (h : Later s s') (h' : Later s' s'') : Later s s'' :=
  ⟨h.origin.trans h'.origin, fun b hb => h'.absent b (h.absent b hb), h.log.trans h'.log⟩

section
variable [DecidableEq ι]

theorem step_later (he : s.step members = some s') : Later s s' := by
  cases step_spec he with
  | decUse hs hB | decWeak hs hB | destroy hs hB =>
    obtain ⟨hB, -⟩ := blocks_of_block hB
    exact ⟨sameOrigin_setBlock hB rfl rfl rfl, fun c hc => setBlock_none hB hc,
      List.prefix_refl _⟩
  | dispose hs hB => exact ⟨.refl _, fun _ => id, List.prefix_append _ _⟩
  | destruct hs hx => exact ⟨.refl _, fun _ => id, List.prefix_refl _⟩

/-- What every step keeps, a run keeps. -/
theorem run_induction {J : State ι τ P D → Prop}
    (hstep : ∀ s s', J s → s.step members = some s' → J s') {n : Nat}
    (hrun : s.run members n = some s') (hs : J s) : J s' ∧ s'.stack = [] := by
  induction n generalizing s with
  | zero =>
    obtain ⟨he, h⟩ := Option.ite_none_right_eq_some.1 hrun
    exact Option.some.inj h ▸ ⟨hs, by simpa using he⟩
  | succ n ih =>
    simp only [State.run] at hrun
    split at hrun
    · rename_i he
      exact Option.some.inj hrun ▸ ⟨hs, by simpa using he⟩
    · obtain ⟨s₁, h₁, hrun⟩ := Option.bind_eq_some_iff.1 hrun
      exact ih hrun (hstep s s₁ hs h₁)

end

/-! ## Work -/

/-- The steps a call can still cause, but for the members its deleter destroys. -/
def Frame.work : Frame ι → Nat
  | .dec .shared _ => 4
  | .dispose _ => 3
  | .dec .weak _ => 2
  | .destroy _ => 1
  | .destruct _ => 0

/-- The steps the destructor of a handle can cause. -/
def handleWork : Option (Handle τ P) → Nat
  | none => 0
  | some x => match x.kind with
    | .shared => 5
    | .weak => 3

theorem work_drop (x : Handle τ P) :
    ((x.drop : List (Frame ι)).map Frame.work).sum < handleWork (some x) := by
  obtain ⟨kind, type, px, pb⟩ := x
  cases pb <;> cases kind <;> simp [Handle.drop, Frame.work, handleWork]

theorem work_destruct (hs : List ι) :
    ((hs.map .destruct : List (Frame ι)).map Frame.work).sum = 0 := by
  induction hs with
  | nil => rfl
  | cons h hs ih => simpa [Frame.work] using ih

variable [DecidableEq ι] [Fintype ι]

/-! ## Progress -/

theorem Inv.progress (hi : Inv cast s) (hs : s.stack = f :: rest)
    (hd : ∀ h, f = .destruct h → (s.handles h).isSome) : ∃ s', s.step members = some s' := by
  have hblock : ∀ b, f.block = some b → ∃ B, s.block b = some B := by
    intro b hb
    have hpos : 0 < (s.tally b).shared + (s.tally b).weak + (s.tally b).dispose +
        (s.tally b).destroy := by
      rw [tally_pop hs]
      cases f with
      | dec kind c =>
        obtain rfl : c = b := Option.some.inj hb
        cases kind <;> simp only [Frame.add, if_true] <;> omega
      | dispose c | destroy c =>
        obtain rfl : c = b := Option.some.inj hb
        simp only [Frame.add, if_true]
        omega
      | destruct h => cases hb
    obtain ⟨B, -, hB⟩ := hi.block hpos
    exact ⟨B, hB⟩
  cases f with
  | dec kind b =>
    obtain ⟨B, hB⟩ := hblock b rfl
    cases kind <;> exact ⟨_, by simp only [State.step, hs, hB, Option.map_some]; rfl⟩
  | dispose b | destroy b =>
    obtain ⟨B, hB⟩ := hblock b rfl
    exact ⟨_, by simp only [State.step, hs, hB, Option.map_some]; rfl⟩
  | destruct h =>
    obtain ⟨x, hx⟩ := Option.isSome_iff_exists.1 (hd h rfl)
    exact ⟨_, by simp only [State.step, hs, hx, Option.map_some]; rfl⟩

/-! ## Termination -/

/-- The steps of the destructors that are running and of those of all handles. -/
def State.work (s : State ι τ P D) : Nat :=
  Threads.total handleWork s.handles + (s.stack.map Frame.work).sum

theorem step_work (he : s.step members = some s') : s'.work < s.work := by
  cases step_spec he with
  | @decUse b B rest hs hB =>
    by_cases hl : B.useCount = 1 <;>
      simp [State.work, State.push, State.setBlock, State.pop, hs, hl, Frame.work]
  | @decWeak b B rest hs hB =>
    by_cases hl : B.weakCount = 1 <;>
      simp [State.work, State.push, State.setBlock, State.pop, hs, hl, Frame.work]
  | @dispose b B rest hs hB =>
    have hwork := work_destruct (B.p.elim [] members)
    simp only [State.work, State.push, State.dispose, State.pop, hs, List.map_append,
      List.sum_append, List.map_cons, List.map_nil, List.sum_cons, List.sum_nil, List.tail_cons,
      hwork, Frame.work]
    omega
  | destroy hs hB => simp [State.work, State.setBlock, State.pop, hs, Frame.work]
  | @destruct h x rest hs hx =>
    have hupdate := Threads.total_update handleWork s.handles h none
    have hdrop : ((x.drop : List (Frame ι)).map Frame.work).sum < handleWork (some x) :=
      work_drop x
    simp only [hx, handleWork] at hupdate hdrop
    simp only [State.work, State.push, State.set, State.pop, hs, List.map_append,
      List.sum_append, List.map_cons, List.sum_cons, List.tail_cons, Frame.work]
    omega

/-- Calls that can always go on, by an invariant, end, and the invariant holds of the end. -/
theorem run_total {J : State ι τ P D → Prop}
    (hstep : ∀ s s', J s → s.step members = some s' → J s')
    (hprogress : ∀ s, J s → s.stack ≠ [] → ∃ s', s.step members = some s') (hs : J s) :
    ∃ s', s'.stack = [] ∧ J s' ∧ ∀ n, s.work ≤ n → s.run members n = some s' := by
  induction hw : s.work using Nat.strong_induction_on generalizing s with
  | _ w ih =>
    subst hw
    by_cases hnil : s.stack = []
    · refine ⟨s, hnil, hs, fun n _ => ?_⟩
      cases n <;> simp [State.run, hnil]
    · obtain ⟨s₁, h₁⟩ := hprogress s hs hnil
      have hlt := step_work h₁
      obtain ⟨s', hnil', hs', hrun⟩ := ih _ hlt (hstep s s₁ hs h₁) rfl
      refine ⟨s', hnil', hs', fun n hn => ?_⟩
      obtain ⟨m, rfl⟩ : ∃ m, n = m + 1 := ⟨n - 1, by omega⟩
      have hempty : s.stack.isEmpty = false := by simpa using hnil
      simp only [State.run, hempty, h₁, Option.bind_some]
      exact hrun m (by omega)

end SharedPtr
