import Snippets.Shared.Proof.Run

/-!
# Sequences of operations on handles

Any sequence of operations on any handles, with deleters that do not touch handles: the counters
are the numbers of handles, the fields of a handle belong together, and an object is released
once, by the operation that removes its last `shared_ptr` (`handles_sound`).
-/

namespace SharedPtr

open Lts

variable {ι τ P D : Type*} {s s' s₁ : State ι τ P D} {b : Nat} {B : Block τ P D} {h : ι}
  {cast : τ → τ → P → P} {op : Op ι τ P D} {kind : Kind} {type : τ} {src : Source ι τ P D}
  {t : Handle τ P}

/-! ## Destructors that destroy no handles -/

/-- No handle is about to be destroyed. -/
def Flat (s : State ι τ P D) : Prop := ∀ f ∈ s.stack, f.block ≠ none

theorem flat_drop (x : Handle τ P) : ∀ f ∈ (x.drop : List (Frame ι)), f.block ≠ none := by
  intro f hf
  obtain ⟨b, -, rfl⟩ := List.mem_map.1 hf
  simp [Frame.block]

variable [DecidableEq ι]

theorem Flat.step (hf : Flat s) (he : s.step (fun _ => []) = some s') :
    Flat s' ∧ s'.handles = s.handles := by
  have hpop : Flat s.pop := fun f hm => hf f (List.mem_of_mem_tail hm)
  have hpush : ∀ (s : State ι τ P D) f, Flat s → f.block ≠ none → Flat (s.push [f]) := by
    intro s f hs hfb g hg
    rcases List.mem_cons.1 hg with rfl | hg
    · exact hfb
    · exact hs g hg
  cases step_spec he with
  | decUse hs hB | decWeak hs hB =>
    split
    · exact ⟨hpush _ _ hpop (by simp [Frame.block]), rfl⟩
    · exact ⟨hpop, rfl⟩
  | @dispose b B rest hs hB =>
    have hmembers : B.p.elim ([] : List ι) (fun _ => []) = [] := by cases B.p <;> rfl
    rw [hmembers]
    exact ⟨hpush _ (.dec .weak b) hpop (by simp [Frame.block]), rfl⟩
  | destroy hs hB => exact ⟨hpop, rfl⟩
  | @destruct h x rest hs hx => exact absurd rfl (hf (.destruct h) (by simp [hs]))

/-! ## Moving -/

section
variable [DecidableEq τ]

end

variable [Fintype ι]

/-! ## What holds after an operation -/

/-- What holds after every operation. -/
structure Sound (cast : τ → τ → P → P) (s : State ι τ P D) : Prop where
  use : ∀ b B, s.blocks b = some B → B.useCount = s.count .shared b
  weak : ∀ b B, s.blocks b = some B →
    B.weakCount = s.count .weak b + if 0 < B.useCount then 1 else 0
  stems : ∀ h x, s.handles h = some x → x.Stems cast s.blocks
  released : ∀ b B, s.blocks b = some B →
    s.log.filter (·.block = b) = if 0 < B.useCount then [] else [⟨b, B.p, B.d⟩]

theorem filter_block (hi : Inv cast s) (hB : s.blocks b = some B) :
    s.released b ≤ 1 → s.log.filter (·.block = b) =
      if s.released b = 0 then [] else [⟨b, B.p, B.d⟩] := by
  intro hle
  unfold State.released at hle ⊢
  rw [List.countP_eq_length_filter] at hle ⊢
  have hmem : ∀ r ∈ s.log.filter (·.block = b), r = ⟨b, B.p, B.d⟩ := by
    intro r hr
    obtain ⟨hr, hb⟩ := List.mem_filter.1 hr
    obtain ⟨B', hB', hp, hd⟩ := hi.log r hr
    obtain rfl : r.block = b := by simpa using hb
    obtain rfl : B = B' := Option.some.inj (hB.symm.trans hB')
    rw [← hp, ← hd]
  generalize s.log.filter (fun r => decide (r.block = b)) = l at hle hmem ⊢
  rcases l with _ | ⟨r, _ | ⟨r', l⟩⟩
  · rfl
  · simp [hmem r (by simp)]
  · simp at hle

theorem Inv.sound (hi : Inv cast s) (hs : s.stack = []) : Sound cast s := by
  have htally : ∀ b, s.tally b = ⟨s.count .shared b, s.count .weak b, 0, 0, s.released b⟩ := by
    intro b
    simp [State.tally, hs]
  have hok : ∀ b B, s.blocks b = some B → (s.tally b).Ok (some B) := fun b B hB => hB ▸ hi.counts b
  refine ⟨?_, ?_, hi.stems, ?_⟩
  · intro b B hB
    cases htally b ▸ hok b B hB with
    | present hu => exact hu
  · intro b B hB
    cases htally b ▸ hok b B hB with
    | present hu hpos hzero =>
      simp only at hu hpos hzero
      split <;> omega
  · intro b B hB
    cases htally b ▸ hok b B hB with
    | present hu hpos hzero =>
      simp only at hu hpos hzero
      rw [filter_block hi hB (by omega)]
      split <;> split <;> first | rfl | omega

theorem Flat.run (hi : Inv cast s) (hf : Flat s) : ∃ s' n, s.run (fun _ => []) n = some s' := by
  have hprogress : ∀ s : State ι τ P D, Inv cast s ∧ Flat s → s.stack ≠ [] →
      ∃ s', s.step (fun _ => []) = some s' := by
    intro s hJ hne
    obtain ⟨f, rest, hs⟩ := List.exists_cons_of_ne_nil hne
    apply hJ.1.progress hs
    intro h hfh
    exact absurd (by simp [hfh, Frame.block]) (hJ.2 f (by simp [hs]))
  obtain ⟨s', -, -, hrun⟩ := run_total (J := fun s => Inv cast s ∧ Flat s)
    (fun s s' hJ he => ⟨hJ.1.step he, (hJ.2.step he).1⟩) hprogress ⟨hi, hf⟩
  exact ⟨s', _, hrun _ (Nat.le_refl _)⟩

/-- What holds between operations. -/
structure Idle (cast : τ → τ → P → P) (s : State ι τ P D) : Prop where
  inv : Inv cast s
  stack : s.stack = []

theorem Idle.absent (hi : Idle cast s) (hb : s.blocks b = none) :
    s.count .shared b = 0 ∧ s.released b = 0 := by
  have hok := hi.inv.counts b
  rw [hb] at hok
  cases hok with
  | absent h0 =>
    have h1 := congrArg Tally.shared h0
    have h2 := congrArg Tally.released h0
    simp only [State.tally, hi.stack, List.count_nil] at h1 h2
    exact ⟨h1, h2⟩

theorem Idle.present (hi : Idle cast s) (hB : s.blocks b = some B) :
    (0 < s.count .shared b → s.released b = 0) ∧ (s.count .shared b = 0 → s.released b = 1) := by
  have hok := hi.inv.counts b
  rw [hB] at hok
  cases hok with
  | present hu hpos hzero =>
    simp only [State.tally, hi.stack, List.count_nil] at hpos hzero
    omega

/-! ## Operations -/

/-- What an operation does before the destructors run. -/
structure Started (s s₁ : State ι τ P D) : Prop where
  origin : SameOrigin s.blocks s₁.blocks
  new : ∀ b, s.blocks b = none → s₁.blocks b = none ∨ 0 < s₁.count .shared b
  log : s₁.log = s.log
  stack : ∃ drops : List (Handle τ P), s₁.stack = drops.flatMap Handle.drop ++ s.stack

theorem Temp.started {h : ι} (ht : Temp cast s kind type t s₁) (x : Option (Handle τ P)) :
    Started s ((s₁.set h (some t)).push (x.elim [] Handle.drop)) where
  origin := ht.origin
  new b hb := by
    rcases ht.new b hb with hb | ⟨hk, hpb⟩
    · exact .inl hb
    · refine .inr (hk ▸ refers_self (h := h) (x := t) ?_ hpb)
      simp [State.push, State.set]
  log := ht.log
  stack := ⟨x.toList, by cases x <;> simp [State.push, State.set, ht.stack]⟩

variable [DecidableEq τ]

theorem Inv.temp_applies (hi : Inv cast s) (ha : src.Applies s kind) (type : τ) :
    (s.temp cast kind type src).isSome := by
  cases src with
  | null => rfl
  | adopt utype p d => simp [State.temp, show kind = .shared from ha]
  | copy other =>
    obtain ⟨x, hx, hk⟩ := ha
    have hne : ¬(kind = .shared ∧ x.kind = .weak) := fun h => by simp [hk h.1] at h
    cases hb : x.pb with
    | none => simp [State.temp, hx, if_neg hne, hb, State.inc]
    | some b =>
      obtain ⟨B, -, hB⟩ := hi.block_of_handle hx hb
      simp [State.temp, hx, if_neg hne, hb, State.inc, hB]
  | move other =>
    obtain ⟨x, hx, hk⟩ := ha
    simp [State.temp, hx, hk]
  | lock other =>
    obtain ⟨x, hx, hk⟩ := ha
    cases hb : x.pb with
    | none => simp [State.temp, hx, hk, State.lock, hb]
    | some b =>
      obtain ⟨B, -, hB⟩ := hi.block_of_handle hx hb
      simp [State.temp, hx, hk, State.lock, hb, State.lockUseCount, hB]

theorem Inv.op_applies (hi : Inv cast s) (ha : op.Applies s) : ∃ s₁, s.op cast op = some s₁ := by
  apply Option.isSome_iff_exists.1
  cases op with
  | construct h kind type src =>
    obtain ⟨hnone, ha⟩ := ha
    simp [State.op, hnone, hi.temp_applies ha type]
  | assign h src =>
    obtain ⟨x, hx, ha⟩ := ha
    obtain ⟨⟨t, s₁⟩, ht⟩ := Option.isSome_iff_exists.1 (hi.temp_applies ha x.type)
    obtain ⟨y, hy⟩ : ∃ y, s₁.handles h = some y := by
      rcases temp_handles ht h with ⟨-, z, -, -, -, hz⟩ | ⟨-, hsame⟩
      · exact ⟨_, hz⟩
      · exact ⟨x, hsame.trans hx⟩
    simp [State.op, hx, ht, hy]
  | swap a b =>
    obtain ⟨x, y, hx, hy, hxy⟩ := ha
    simp [State.op, hx, hy, hxy]
  | destroy h =>
    obtain ⟨x, hx⟩ := ha
    simp [State.op, hx]

theorem Inv.started (hi : Inv cast s) (he : s.op cast op = some s₁) : Started s s₁ := by
  cases op_spec he with
  | construct _ ht => exact (hi.temp ht).started none
  | assign _ ht _ => exact (hi.temp ht).started (some _)
  | swap => exact ⟨.refl _, fun _ => .inl, rfl, [], rfl⟩
  | @destroy h x => exact ⟨.refl _, fun _ => .inl, rfl, [x], by simp [State.push, State.set]⟩

/-! ## Runs of the API -/

theorem Idle.started (hi : Idle cast s) (he : s.op cast op = some s₁) : Flat s₁ := by
  obtain ⟨drops, hs⟩ := (hi.inv.started he).stack
  rw [hi.stack, List.append_nil] at hs
  intro f hf
  rw [hs] at hf
  obtain ⟨x, -, hf⟩ := List.mem_flatMap.1 hf
  exact flat_drop x f hf

theorem Idle.finish (hi : Idle cast s) (he : s.op cast op = some s₁) {n : Nat}
    (hr : s₁.run (fun _ => []) n = some s') :
    Idle cast s' ∧ s'.handles = s₁.handles ∧ Later s₁ s' := by
  have hrun := run_induction
    (J := fun s => Inv cast s ∧ Flat s ∧ s.handles = s₁.handles ∧ Later s₁ s)
    (fun s s' hJ he => ?_) hr ⟨hi.inv.op he, hi.started he, rfl, .refl _⟩
  · obtain ⟨⟨hi', -, hh, hl⟩, hs⟩ := hrun
    exact ⟨⟨hi', hs⟩, hh, hl⟩
  · obtain ⟨hf, hh⟩ := hJ.2.1.step he
    exact ⟨hJ.1.step he, hf, hh.trans hJ.2.2.1, hJ.2.2.2.trans (step_later he)⟩

theorem Idle.does (hi : Idle cast s) (hd : s.Does cast (fun _ => []) op s') : Idle cast s' := by
  obtain ⟨s₁, n, he, hr⟩ := hd
  exact (hi.finish he hr).1

omit [DecidableEq τ] in
theorem inv_init : Inv cast (⟨fun _ => none, fun _ => none, 0, [], []⟩ : State ι τ P D) := by
  refine ⟨fun b => .absent ?_, by simp, by simp, by simp⟩
  simp [State.tally, State.count, State.released, Threads.total, refers]

/-- A deleter is called in an operation exactly if it removes the last `shared_ptr`. -/
theorem Idle.released (hi : Idle cast s) (he : s.op cast op = some s₁) {n : Nat}
    (hr : s₁.run (fun _ => []) n = some s') :
    ∃ new, s'.log = s.log ++ new ∧ ∀ b, (∃ r ∈ new, r.block = b) ↔
      0 < s.count .shared b ∧ s'.count .shared b = 0 := by
  obtain ⟨hi', hh, hl⟩ := hi.finish he hr
  have hstart := hi.inv.started he
  obtain ⟨new, hnew⟩ := hl.log
  refine ⟨new, by rw [← hstart.log, hnew], fun b => ?_⟩
  have hcount : s'.released b = s.released b + new.countP (·.block = b) := by
    rw [State.released, ← hnew, List.countP_append, hstart.log]
    rfl
  have hpos : (∃ r ∈ new, r.block = b) ↔ 0 < new.countP (·.block = b) := by
    simp [List.countP_pos_iff]
  rw [hpos]
  cases hB : s.blocks b with
  | some B =>
    obtain ⟨B₁, hB₁, -⟩ := hstart.origin b B hB
    obtain ⟨B', hB', -⟩ := hl.origin b B₁ hB₁
    have h := hi.present hB
    have h' := hi'.present hB'
    omega
  | none =>
    have h := hi.absent hB
    -- a block made by this operation keeps the handle it was made for
    have h' : s'.released b = 0 := by
      cases hB' : s'.blocks b with
      | none => exact (hi'.absent hB').2
      | some B' =>
        rcases hstart.new b hB with hnone | hone
        · simp [hl.absent b hnone] at hB'
        · apply (hi'.present hB').1
          rwa [State.count, hh]
    omega

end SharedPtr
