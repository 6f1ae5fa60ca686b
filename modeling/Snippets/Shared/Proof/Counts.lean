import Snippets.Shared.Tally

/-!
# The counts of the control blocks

`Inv`: between any two steps, so in particular in the middle of a release, the counters of every
block are what its tally says, and every handle stems from one adoption.

`step_spec`, `temp_cases`, `op_spec`: what a step of a call does, what making a temporary does, and
what an operation does.

`Inv.temp`, `Inv.op`: the operations keep the invariant. `Inv.step`: so do the steps of the calls.
-/

namespace SharedPtr

variable {ι τ P D : Type*} [DecidableEq ι] {s s' s₁ : State ι τ P D} {b : Nat}
  {B : Block τ P D} {x y t : Handle τ P} {kind : Kind} {type : τ} {src : Source ι τ P D} {h : ι}
  {cast : τ → τ → P → P} {members : P → List ι} {rest : List (Frame ι)}

/-! ## What a step does -/

/-- A step of the innermost call. -/
inductive Stepped (members : P → List ι) (s : State ι τ P D) : State ι τ P D → Prop
  | decUse {b : Nat} {B : Block τ P D} {rest : List (Frame ι)} :
      s.stack = .dec .shared b :: rest → s.block b = some B →
      Stepped members s ((s.pop.setBlock b { B with useCount := B.useCount - 1 }).push
        (if B.useCount = 1 then [.dispose b] else []))
  | decWeak {b : Nat} {B : Block τ P D} {rest : List (Frame ι)} :
      s.stack = .dec .weak b :: rest → s.block b = some B →
      Stepped members s ((s.pop.setBlock b { B with weakCount := B.weakCount - 1 }).push
        (if B.weakCount = 1 then [.destroy b] else []))
  | dispose {b : Nat} {B : Block τ P D} {rest : List (Frame ι)} :
      s.stack = .dispose b :: rest → s.block b = some B →
      Stepped members s ((s.pop.dispose b B).push
        ((B.p.elim [] members).map .destruct ++ [.dec .weak b]))
  | destroy {b : Nat} {B : Block τ P D} {rest : List (Frame ι)} :
      s.stack = .destroy b :: rest → s.block b = some B →
      Stepped members s (s.pop.setBlock b { B with destroyed := true })
  | destruct {h : ι} {x : Handle τ P} {rest : List (Frame ι)} :
      s.stack = .destruct h :: rest → s.handles h = some x →
      Stepped members s ((s.pop.set h none).push x.drop)

theorem step_spec (he : s.step members = some s') : Stepped members s s' := by
  cases hs : s.stack with
  | nil => simp [State.step, hs] at he
  | cons f rest =>
    cases f with
    | dec kind b =>
      cases kind with
      | shared =>
        simp only [State.step, hs] at he
        obtain ⟨B, hB, rfl⟩ := Option.map_eq_some_iff.1 he
        exact .decUse hs hB
      | weak =>
        simp only [State.step, hs] at he
        obtain ⟨B, hB, rfl⟩ := Option.map_eq_some_iff.1 he
        exact .decWeak hs hB
    | dispose b =>
      simp only [State.step, hs] at he
      obtain ⟨B, hB, rfl⟩ := Option.map_eq_some_iff.1 he
      exact .dispose hs hB
    | destroy b =>
      simp only [State.step, hs] at he
      obtain ⟨B, hB, rfl⟩ := Option.map_eq_some_iff.1 he
      exact .destroy hs hB
    | destruct h =>
      simp only [State.step, hs] at he
      obtain ⟨x, hx, rfl⟩ := Option.map_eq_some_iff.1 he
      exact .destruct hs hx

/-! ## Making a temporary -/

section
variable [DecidableEq τ]

/-- What making a temporary does: a moved-from handle is left empty, an adoption makes a block, and
the other sources at most add to a counter. -/
theorem temp_cases (he : s.temp cast kind type src = some (t, s₁)) :
    (∃ other x, src = .move other ∧ s.handles other = some x ∧ x.kind = kind ∧
      t = x.convert cast kind type ∧ s₁ = s.set other (some (.empty x.kind x.type))) ∨
    (∃ utype p d, src = .adopt utype p d ∧ s₁ = s.newBlock utype p d) ∨
    (∀ other, src ≠ .move other) ∧
      (s₁ = s ∨ ∃ b B k, s.block b = some B ∧ s₁ = s.setBlock b (B.inc k)) := by
  cases src with
  | null =>
    cases he
    exact .inr (.inr ⟨nofun, .inl rfl⟩)
  | adopt utype p d =>
    obtain ⟨-, he⟩ := Option.ite_none_right_eq_some.1 he
    cases he
    exact .inr (.inl ⟨utype, p, d, rfl, rfl⟩)
  | copy other =>
    obtain ⟨x, hx, he⟩ := Option.bind_eq_some_iff.1 he
    obtain ⟨-, he⟩ := Option.ite_none_left_eq_some.1 he
    obtain ⟨s₂, hs, he⟩ := Option.map_eq_some_iff.1 he
    cases he
    refine .inr (.inr ⟨nofun, ?_⟩)
    cases hb : x.pb with
    | none =>
      rw [hb] at hs
      exact .inl (Option.some.inj hs).symm
    | some b =>
      rw [hb] at hs
      obtain ⟨B, hB, rfl⟩ := Option.map_eq_some_iff.1 hs
      exact .inr ⟨b, B, kind, hB, rfl⟩
  | move other =>
    obtain ⟨x, hx, he⟩ := Option.bind_eq_some_iff.1 he
    obtain ⟨hk, he⟩ := Option.ite_none_right_eq_some.1 he
    cases he
    exact .inl ⟨other, x, rfl, hx, hk, rfl, rfl⟩
  | lock other =>
    obtain ⟨x, hx, he⟩ := Option.bind_eq_some_iff.1 he
    obtain ⟨-, he⟩ := Option.ite_none_right_eq_some.1 he
    obtain ⟨⟨y, s₂⟩, hl, he⟩ := Option.map_eq_some_iff.1 he
    cases he
    refine .inr (.inr ⟨nofun, ?_⟩)
    unfold State.lock at hl
    split at hl
    · cases hl
      exact .inl rfl
    · obtain ⟨⟨locked, s₃⟩, hl, hy⟩ := Option.map_eq_some_iff.1 hl
      obtain ⟨B, hB, hl⟩ := Option.map_eq_some_iff.1 hl
      split at hl <;> cases hl <;> cases hy
      · exact .inl rfl
      · exact .inr ⟨_, B, .shared, hB, rfl⟩

/-- An operation on the handles, up to the destructors it leaves on the stack. -/
inductive Operated (cast : τ → τ → P → P) (s : State ι τ P D) :
    Op ι τ P D → State ι τ P D → Prop
  | construct {h : ι} {kind : Kind} {type : τ} {src : Source ι τ P D} {t : Handle τ P}
      {s₁ : State ι τ P D} : s.handles h = none → s.temp cast kind type src = some (t, s₁) →
      Operated cast s (.construct h kind type src) (s₁.set h (some t))
  | assign {h : ι} {src : Source ι τ P D} {t x x₁ : Handle τ P} {s₁ : State ι τ P D} :
      s.handles h = some x → s.temp cast x.kind x.type src = some (t, s₁) →
      s₁.handles h = some x₁ →
      Operated cast s (.assign h src) ((s₁.set h (some t)).push x₁.drop)
  | swap {a b : ι} {x y : Handle τ P} : s.handles a = some x → s.handles b = some y →
      Operated cast s (.swap a b) ((s.set a (some y)).set b (some x))
  | destroy {h : ι} {x : Handle τ P} : s.handles h = some x →
      Operated cast s (.destroy h) ((s.set h none).push x.drop)

theorem op_spec {op : Op ι τ P D} (he : s.op cast op = some s') : Operated cast s op s' := by
  cases op with
  | construct h kind type src =>
    obtain ⟨hnone, he⟩ := Option.ite_none_right_eq_some.1 he
    obtain ⟨⟨t, s₁⟩, ht, rfl⟩ := Option.map_eq_some_iff.1 he
    exact .construct hnone ht
  | assign h src =>
    obtain ⟨x, hx, he⟩ := Option.bind_eq_some_iff.1 he
    obtain ⟨⟨t, s₁⟩, ht, he⟩ := Option.bind_eq_some_iff.1 he
    obtain ⟨x₁, hx₁, rfl⟩ := Option.map_eq_some_iff.1 he
    exact .assign hx ht hx₁
  | swap a b =>
    obtain ⟨x, hx, he⟩ := Option.bind_eq_some_iff.1 he
    obtain ⟨y, hy, he⟩ := Option.bind_eq_some_iff.1 he
    obtain ⟨-, he⟩ := Option.ite_none_right_eq_some.1 he
    cases he
    exact .swap hx hy
  | destroy h =>
    obtain ⟨x, hx, rfl⟩ := Option.map_eq_some_iff.1 he
    exact .destroy hx

/-- A temporary changes no handle but the one it is moved from, which it leaves empty. -/
theorem temp_handles (he : s.temp cast kind type src = some (t, s₁)) (k : ι) :
    (src = .move k ∧ ∃ x, s.handles k = some x ∧ x.kind = kind ∧
      t = x.convert cast kind type ∧ s₁.handles k = some (.empty x.kind x.type)) ∨
    (src ≠ .move k ∧ s₁.handles k = s.handles k) := by
  rcases temp_cases he with ⟨other, x, rfl, hx, hk, rfl, rfl⟩ | ⟨utype, p, d, rfl, rfl⟩ |
    ⟨hmove, rfl | ⟨b, B, kind', hB, rfl⟩⟩
  · rcases eq_or_ne k other with rfl | hne
    · exact .inl ⟨rfl, x, hx, hk, rfl, by simp [State.set]⟩
    · exact .inr ⟨by simpa using hne.symm, by simp [State.set, Function.update_of_ne hne]⟩
  · exact .inr ⟨nofun, rfl⟩
  · exact .inr ⟨hmove k, rfl⟩
  · exact .inr ⟨hmove k, rfl⟩

theorem temp_new (he : s.temp cast kind type src = some (t, s₁)) (hb : s.blocks b = none)
    (hB : s₁.blocks b = some B) : ∃ utype d, src = .adopt utype B.p d := by
  rcases temp_cases he with ⟨other, x, -, -, -, -, rfl⟩ | ⟨utype, p, d, rfl, rfl⟩ |
    ⟨-, rfl | ⟨c, C, kind', hC, rfl⟩⟩
  · simp [State.set, hb] at hB
  · rcases eq_or_ne b s.next with rfl | hne
    · obtain rfl : _ = B := by simpa [State.newBlock, State.setBlock] using hB
      exact ⟨utype, d, rfl⟩
    · simp [State.newBlock, State.setBlock, Function.update_of_ne hne, hb] at hB
  · simp [hb] at hB
  · simp [setBlock_none (blocks_of_block hC).1 hb] at hB

end

variable [Fintype ι]

/-- What holds between any two steps. -/
structure Inv (cast : τ → τ → P → P) (s : State ι τ P D) : Prop where
  counts : ∀ b, (s.tally b).Ok (s.blocks b)
  stems : ∀ h x, s.handles h = some x → x.Stems cast s.blocks
  fresh : ∀ b, s.next ≤ b → s.blocks b = none
  log : ∀ r ∈ s.log, ∃ B, s.blocks r.block = some B ∧ r.p = B.p ∧ r.d = B.d

/-! ## Blocks that are referred to -/

theorem Inv.block (hi : Inv cast s)
    (ht : 0 < (s.tally b).shared + (s.tally b).weak + (s.tally b).dispose + (s.tally b).destroy) :
    ∃ B, s.blocks b = some B ∧ s.block b = some B := by
  have hok := hi.counts b
  obtain ⟨B, hB⟩ := hok.exists (by omega)
  rw [hB] at hok
  exact ⟨B, hB, by simp [State.block, hB, hok.live ht]⟩

theorem Inv.block_of_handle (hi : Inv cast s) (hx : s.handles h = some x) (hb : x.pb = some b) :
    ∃ B, s.blocks b = some B ∧ s.block b = some B := by
  apply hi.block
  have hc := refers_self hx hb
  simp only [State.tally]
  cases hk : x.kind <;> rw [hk] at hc <;> omega

/-! ## Changes of one block -/

/-- A step that changes the counters of one block, or marks it destroyed, and its tally. -/
theorem Inv.setBlock {B' : Block τ P D} (hi : Inv cast s) (hB : s.blocks b = some B)
    (hblocks : s'.blocks = (s.setBlock b B').blocks) (ht : B'.type = B.type) (hp : B'.p = B.p)
    (hd : B'.d = B.d) (hnext : s'.next = s.next)
    (hhandles : s'.handles = s.handles) (hlog : s'.log = s.log)
    (hok : (s'.tally b).Ok (some B')) (hother : ∀ c, c ≠ b → s'.tally c = s.tally c) :
    Inv cast s' := by
  have hsame := sameOrigin_setBlock hB ht hp hd
  rw [← hblocks] at hsame
  refine ⟨?_, ?_, ?_, ?_⟩
  · intro c
    rcases eq_or_ne c b with rfl | hne
    · rw [hblocks]
      simpa [State.setBlock] using hok
    · rw [hother c hne, hblocks]
      simpa [State.setBlock, Function.update_of_ne hne] using hi.counts c
  · intro h x hx
    exact (hi.stems h x (hhandles ▸ hx)).mono hsame
  · intro c hc
    have hne : c ≠ b := by
      rintro rfl
      rw [hi.fresh c (hnext ▸ hc)] at hB
      cases hB
    rw [hblocks]
    simpa [State.setBlock, Function.update_of_ne hne] using hi.fresh c (hnext ▸ hc)
  · intro r hr
    obtain ⟨C, hC, hrp, hrd⟩ := hi.log r (hlog ▸ hr)
    obtain ⟨C', hC', -, hp', hd'⟩ := hsame r.block C hC
    exact ⟨C', hC', hrp.trans hp'.symm, hrd.trans hd'.symm⟩

theorem Inv.inc (hi : Inv cast s) (hB : s.block b = some B)
    (hk : match kind with
      | .shared => 0 < (s.tally b).shared
      | .weak => 0 < (s.tally b).shared + (s.tally b).weak + (s.tally b).dispose) :
    Inv cast ((s.setBlock b (B.inc kind)).push [.dec kind b]) := by
  obtain ⟨hB, hdead⟩ := blocks_of_block hB
  have htally : ∀ c, ((s.setBlock b (B.inc kind)).push [.dec kind b]).tally c =
      (Frame.dec kind b).add c (s.tally c) := fun c => tally_push_cons _ []
  refine hi.setBlock hB rfl ?_ ?_ ?_ rfl rfl rfl ?_ fun c hc => ?_
  · cases kind <;> rfl
  · cases kind <;> rfl
  · cases kind <;> rfl
  · rw [htally]
    exact Tally.Ok.inc (hB ▸ hi.counts b) hdead hk
  · rw [htally, add_of_ne (by simpa [Frame.block] using hc.symm)]

theorem Inv.inc_copy (hi : Inv cast s) (hx : s.handles h = some x) (hb : x.pb = some b)
    (hB : s.block b = some B) (hk : kind = .shared → x.kind = .shared) :
    Inv cast ((s.setBlock b (B.inc kind)).push [.dec kind b]) := by
  apply hi.inc hB
  have hc := refers_self hx hb
  cases kind with
  | shared =>
    rw [hk rfl] at hc
    exact Nat.lt_of_lt_of_le hc (Nat.le_add_right _ _)
  | weak =>
    simp only [State.tally]
    cases hxk : x.kind <;> rw [hxk] at hc <;> omega

theorem Inv.newBlock_origin {type : τ} {p : Option P} {d : D} (hi : Inv cast s) :
    SameOrigin s.blocks (s.newBlock type p d).blocks := by
  intro c C hC
  have hne : c ≠ s.next := by
    rintro rfl
    simp [hi.fresh s.next (Nat.le_refl _)] at hC
  exact ⟨C, by simpa [State.newBlock, State.setBlock, Function.update_of_ne hne] using hC,
    rfl, rfl, rfl⟩

theorem Inv.newBlock (hi : Inv cast s) (type : τ) (p : Option P) (d : D) :
    Inv cast ((s.newBlock type p d).push [.dec .shared s.next]) := by
  have hnone := hi.fresh s.next (Nat.le_refl _)
  have htally : ∀ c, ((s.newBlock type p d).push [.dec .shared s.next]).tally c =
      (Frame.dec .shared s.next).add c (s.tally c) := fun c => tally_push_cons _ []
  have hsame : SameOrigin s.blocks (s.newBlock type p d).blocks := hi.newBlock_origin
  have hzero : s.tally s.next = ⟨0, 0, 0, 0, 0⟩ := by
    have hok := hi.counts s.next
    rw [hnone] at hok
    cases hok with
    | absent h0 => exact h0
  refine ⟨?_, fun h x hx => (hi.stems h x hx).mono hsame, ?_, ?_⟩
  · intro c
    rw [htally]
    rcases eq_or_ne c s.next with rfl | hne
    · simp only [hzero, Frame.add, if_true, State.push, State.newBlock, State.setBlock,
        Function.update_self]
      exact .present (by simp) (by simp) (by simp) (by simp) (by simp)
    · rw [add_of_ne (by simpa [Frame.block] using hne.symm)]
      simpa [State.push, State.newBlock, State.setBlock, Function.update_of_ne hne] using
        hi.counts c
  · intro c hc
    have hlt : s.next < c := hc
    simpa [State.push, State.newBlock, State.setBlock, Function.update_of_ne (Nat.ne_of_gt hlt)]
      using hi.fresh c (Nat.le_of_lt hlt)
  · intro r hr
    obtain ⟨C, hC, hp, hd⟩ := hi.log r hr
    obtain ⟨C', hC', -, hp', hd'⟩ := hsame r.block C hC
    exact ⟨C', hC', hp.trans hp'.symm, hd.trans hd'.symm⟩

/-! ## Moving handles -/

theorem Inv.move (hi : Inv cast s) (hblocks : s'.blocks = s.blocks) (hnext : s'.next = s.next)
    (hlog : s'.log = s.log) (htally : ∀ b, s'.tally b = s.tally b)
    (hstems : ∀ h x, s'.handles h = some x → x.Stems cast s.blocks) : Inv cast s' := by
  refine ⟨?_, ?_, ?_, ?_⟩
  · intro b
    rw [htally, hblocks]
    exact hi.counts b
  · intro h x hx
    rw [hblocks]
    exact hstems h x hx
  · intro b hb
    rw [hblocks]
    exact hi.fresh b (hnext ▸ hb)
  · intro r hr
    rw [hblocks]
    exact hi.log r (hlog ▸ hr)

theorem Inv.destruct (hi : Inv cast s) (hx : s.handles h = some x) :
    Inv cast ((s.set h none).push x.drop) := by
  refine hi.move rfl rfl rfl (fun b => (tally_set [] (fun k => ?_) ?_ ?_).trans rfl)
    fun k y hy => ?_
  · simp [hx, count_drop, refers]
  · simp [count_dispose_drop]
  · simp [count_destroy_drop]
  · rcases eq_or_ne k h with rfl | hne
    · simp [State.push, State.set] at hy
    · exact hi.stems k y (by simpa [State.push, State.set, Function.update_of_ne hne] using hy)

theorem Inv.swap {a b : ι} (hi : Inv cast s) (hx : s.handles a = some x)
    (hy : s.handles b = some y) : Inv cast ((s.set a (some y)).set b (some x)) := by
  have hb : (s.set a (some y)).handles b = some y := by
    rcases eq_or_ne b a with rfl | hne
    · simp [State.set]
    · simpa [State.set, Function.update_of_ne hne] using hy
  refine hi.move rfl rfl rfl (fun c => ?_) fun k z hz => ?_
  · have hcount : ∀ k, ((s.set a (some y)).set b (some x)).count k c = s.count k c := fun k => by
      have h1 := count_set k (s := s) (h := a) (v := some y) (b := c)
      have h2 := count_set k (s := s.set a (some y)) (h := b) (v := some x) (b := c)
      rw [hx] at h1
      rw [hb] at h2
      omega
    simp only [State.tally, hcount]
    rfl
  · rcases eq_or_ne k b with rfl | hne
    · obtain rfl : x = z := by simpa [State.set] using hz
      exact hi.stems a x hx
    · rcases eq_or_ne k a with rfl | hne'
      · obtain rfl : y = z := by simpa [State.set, Function.update_of_ne hne] using hz
        exact hi.stems b y hy
      · exact hi.stems k z (by simpa [State.set, Function.update_of_ne hne,
          Function.update_of_ne hne'] using hz)

/-! ## The steps of the calls -/

/-- A step that decrements a counter of block `b`, or marks it destroyed. -/
theorem Inv.step_block {f : Frame ι} (fs : List (Frame ι)) {B' : Block τ P D} (hi : Inv cast s)
    (hs : s.stack = f :: rest) (hf : f.block = some b) (hB : s.block b = some B)
    (ht : B'.type = B.type) (hp : B'.p = B.p) (hd : B'.d = B.d)
    (hok : (f.add b (s.pop.tally b)).Ok (some B) → ((s.pop.push fs).tally b).Ok (some B'))
    (hfs : ∀ c, c ≠ b → (s.pop.push fs).tally c = s.pop.tally c) :
    Inv cast ((s.pop.setBlock b B').push fs) := by
  obtain ⟨hB, -⟩ := blocks_of_block hB
  refine hi.setBlock hB rfl ht hp hd rfl rfl rfl ?_ fun c hc => ?_
  · exact hok (tally_pop hs b ▸ hB ▸ hi.counts b)
  · rw [tally_pop hs, add_of_ne (by simpa [hf] using hc.symm)]
    exact hfs c hc

theorem Inv.step_decUse (hi : Inv cast s) (hs : s.stack = .dec .shared b :: rest)
    (hB : s.block b = some B) :
    Inv cast ((s.pop.setBlock b { B with useCount := B.useCount - 1 }).push
      (if B.useCount = 1 then [.dispose b] else [])) := by
  refine hi.step_block _ hs rfl hB rfl rfl rfl (fun hok => ?_) fun c hc => tally_push_if rfl hc
  have hok := hok.decUse
  split at hok
  · rename_i hlast
    rw [if_pos hlast, tally_push_cons]
    exact hok
  · rename_i hlast
    rw [if_neg hlast]
    exact hok

theorem Inv.step_decWeak (hi : Inv cast s) (hs : s.stack = .dec .weak b :: rest)
    (hB : s.block b = some B) :
    Inv cast ((s.pop.setBlock b { B with weakCount := B.weakCount - 1 }).push
      (if B.weakCount = 1 then [.destroy b] else [])) := by
  refine hi.step_block _ hs rfl hB rfl rfl rfl (fun hok => ?_) fun c hc => tally_push_if rfl hc
  have hok := hok.decWeak
  split at hok
  · rename_i hlast
    rw [if_pos hlast, tally_push_cons]
    exact hok
  · rename_i hlast
    rw [if_neg hlast]
    exact hok

theorem Inv.step_dispose (hi : Inv cast s) (hs : s.stack = .dispose b :: rest)
    (hB : s.block b = some B) :
    Inv cast ((s.pop.dispose b B).push
      ((B.p.elim [] members).map .destruct ++ [.dec .weak b])) := by
  obtain ⟨hB, -⟩ := blocks_of_block hB
  have htally : ∀ c, ((s.pop.dispose b B).push
      ((B.p.elim [] members).map .destruct ++ [.dec .weak b])).tally c =
      { (Frame.dec .weak b : Frame ι).add c (s.pop.tally c) with
        released := (s.pop.tally c).released + if b = c then 1 else 0 } := by
    intro c
    rw [tally_push_destruct, tally_push_cons]
    by_cases hc : b = c <;>
      simp [Frame.add, hc, State.tally, State.push, State.count, State.released, State.pop,
        State.dispose]
  refine ⟨?_, hi.stems, hi.fresh, ?_⟩
  · intro c
    rw [htally]
    have hok := hi.counts c
    rw [tally_pop hs] at hok
    by_cases hc : b = c
    · subst hc
      rw [if_pos rfl]
      change Tally.Ok _ (s.blocks b)
      rw [hB] at hok ⊢
      exact hok.dispose
    · rw [add_of_ne (by simpa [Frame.block] using hc)] at hok ⊢
      rw [if_neg hc, Nat.add_zero]
      exact hok
  · intro r hr
    rcases List.mem_append.1 hr with hr | hr
    · exact hi.log r hr
    · obtain rfl := List.mem_singleton.1 hr
      exact ⟨B, hB, rfl, rfl⟩

theorem Inv.step (hi : Inv cast s) (he : s.step members = some s') : Inv cast s' := by
  cases step_spec he with
  | decUse hs hB => exact hi.step_decUse hs hB
  | decWeak hs hB => exact hi.step_decWeak hs hB
  | dispose hs hB => exact hi.step_dispose hs hB
  | destroy hs hB =>
    exact hi.step_block [] hs rfl hB rfl rfl rfl
      (fun hok => hok.destroy (blocks_of_block hB).2) fun c _ => rfl
  | destruct hs hx =>
    have hpop : Inv cast s.pop := hi.move rfl rfl rfl (fun c => (tally_pop hs c).symm) hi.stems
    exact hpop.destruct hx

/-! ## Operations -/

/-- What constructing a temporary keeps. -/
structure Temp (cast : τ → τ → P → P) (s : State ι τ P D) (kind : Kind) (type : τ)
    (t : Handle τ P) (s₁ : State ι τ P D) : Prop where
  inv : Inv cast (s₁.push t.drop)
  kind_eq : t.kind = kind
  type_eq : t.type = type
  stems : t.Stems cast s₁.blocks
  stack : s₁.stack = s.stack
  log : s₁.log = s.log
  origin : SameOrigin s.blocks s₁.blocks
  new : ∀ b, s.blocks b = none → s₁.blocks b = none ∨ t.kind = .shared ∧ t.pb = some b

/-- Placing a temporary at a location, the value there before being destroyed. -/
theorem Temp.place {x : Option (Handle τ P)} (ht : Temp cast s kind type t s₁)
    (hx : s₁.handles h = x) : Inv cast ((s₁.set h (some t)).push (x.elim [] Handle.drop)) := by
  refine ht.inv.move rfl rfl rfl (fun b => tally_set _ (fun k => ?_) ?_ ?_) fun k y hy => ?_
  · cases x with
    | none => simp [hx, count_drop, refers]
    | some x =>
      simp only [Option.elim_some, count_drop, hx]
      exact Nat.add_comm _ _
  · cases x <;> simp [count_dispose_drop]
  · cases x <;> simp [count_destroy_drop]
  · rcases eq_or_ne k h with rfl | hne
    · obtain rfl : t = y := by simpa [State.push, State.set] using hy
      exact ht.stems
    · exact ht.inv.stems k y (by simpa [State.push, State.set, Function.update_of_ne hne] using hy)

variable [DecidableEq τ]

theorem Inv.temp_copy {other : ι} (hi : Inv cast s)
    (he : s.temp cast kind type (.copy other) = some (t, s₁)) : Temp cast s kind type t s₁ := by
  obtain ⟨x, hx, he⟩ := Option.bind_eq_some_iff.1 he
  split at he
  · cases he
  · rename_i hk
    obtain ⟨s₂, hs, he⟩ := Option.map_eq_some_iff.1 he
    cases he
    cases hb : x.pb with
    | none =>
      simp only [hb, State.inc, Option.some.injEq] at hs
      subst hs
      refine ⟨?_, rfl, rfl, (hi.stems other x hx).convert, rfl, rfl, .refl _, fun _ => .inl⟩
      simpa [Handle.drop, Handle.convert, hb, State.push] using hi
    | some b =>
      simp only [hb, State.inc] at hs
      obtain ⟨B, hB, rfl⟩ := Option.map_eq_some_iff.1 hs
      have hinc : Inv cast ((s.setBlock b (B.inc kind)).push [.dec kind b]) := by
        apply hi.inc_copy hx hb hB
        intro hs
        subst hs
        cases hxk : x.kind with
        | shared => rfl
        | weak => exact absurd ⟨rfl, hxk⟩ hk
      obtain ⟨hB, -⟩ := blocks_of_block hB
      have hsame : SameOrigin s.blocks (s.setBlock b (B.inc kind)).blocks := by
        refine sameOrigin_setBlock hB ?_ ?_ ?_ <;> cases kind <;> rfl
      refine ⟨by simpa [Handle.drop, Handle.convert, hb] using hinc, rfl, rfl,
        ((hi.stems other x hx).mono hsame).convert, rfl, rfl, hsame, fun c hc => ?_⟩
      exact .inl (setBlock_none hB hc)

theorem Inv.temp_move {other : ι} (hi : Inv cast s)
    (he : s.temp cast kind type (.move other) = some (t, s₁)) : Temp cast s kind type t s₁ := by
  obtain ⟨x, hx, he⟩ := Option.bind_eq_some_iff.1 he
  obtain ⟨hk, he⟩ := Option.ite_none_right_eq_some.1 he
  cases he
  have hstems := hi.stems other x hx
  refine ⟨hi.move rfl rfl rfl (fun b => ?_) fun k y hy => ?_, rfl, rfl, hstems.convert, rfl, rfl,
    .refl _, fun _ => .inl⟩
  · refine (tally_set [] (fun k => ?_) ?_ ?_).trans rfl
    · have hdrop : (x.convert cast kind type).drop = (x.drop : List (Frame ι)) := by
        simp [Handle.drop, Handle.convert, hk]
      rw [hdrop, count_drop, hx]
      simp [refers, Handle.empty]
    · simp [count_dispose_drop]
    · simp [count_destroy_drop]
  · rcases eq_or_ne k other with rfl | hne
    · obtain rfl : Handle.empty x.kind x.type = y := by simpa [State.push, State.set] using hy
      exact Handle.stems_empty
    · exact hi.stems k y (by simpa [State.push, State.set, Function.update_of_ne hne] using hy)

theorem Inv.temp_lock {other : ι} (hi : Inv cast s)
    (he : s.temp cast kind type (.lock other) = some (t, s₁)) : Temp cast s kind type t s₁ := by
  obtain ⟨x, hx, he⟩ := Option.bind_eq_some_iff.1 he
  obtain ⟨⟨hkind, hxk⟩, he'⟩ := Option.ite_none_right_eq_some.1 he
  subst hkind
  obtain ⟨⟨y, s₂⟩, hl, he'⟩ := Option.map_eq_some_iff.1 he'
  cases he'
  have hempty : Temp cast s .shared type ((Handle.empty .shared x.type).convert cast .shared type)
      s := by
    refine ⟨hi, rfl, rfl, ?_, rfl, rfl, .refl _, fun _ => .inl⟩
    exact Handle.stems_empty.convert
  unfold State.lock at hl
  split at hl
  · cases hl
    exact hempty
  · rename_i b hb
    obtain ⟨⟨locked, s₃⟩, hl, hy⟩ := Option.map_eq_some_iff.1 hl
    obtain ⟨B, hB, hl⟩ := Option.map_eq_some_iff.1 hl
    split at hl
    · cases hl
      cases hy
      exact hempty
    · rename_i huse
      cases hl
      cases hy
      have hshared : 0 < (s.tally b).shared := by
        have hok := hi.counts b
        rw [(blocks_of_block hB).1] at hok
        cases hok with
        | present hu => omega
      have hinc : Inv cast ((s.setBlock b (B.inc .shared)).push [.dec .shared b]) :=
        hi.inc hB hshared
      obtain ⟨hB, -⟩ := blocks_of_block hB
      have hsame : SameOrigin s.blocks (s.setBlock b (B.inc .shared)).blocks :=
        sameOrigin_setBlock hB rfl rfl rfl
      have hstems : Handle.Stems cast (s.setBlock b (B.inc .shared)).blocks
          { x with kind := .shared } := (hi.stems other x hx).mono hsame
      exact ⟨by simpa [Handle.drop, Handle.convert, hb] using hinc, rfl, rfl, hstems.convert, rfl,
        rfl, hsame, fun c hc => .inl (setBlock_none hB hc)⟩

theorem Inv.temp_adopt {utype : τ} {p : Option P} {d : D} (hi : Inv cast s)
    (he : s.temp cast kind type (.adopt utype p d) = some (t, s₁)) :
    Temp cast s kind type t s₁ := by
  obtain ⟨hkind, he'⟩ := Option.ite_none_right_eq_some.1 he
  subst hkind
  cases he'
  have hstems : Handle.Stems cast (s.newBlock utype p d).blocks ⟨.shared, utype, p, some s.next⟩ :=
    ⟨⟨1, 1, utype, p, d, false⟩, by simp [State.newBlock, State.setBlock], .refl⟩
  refine ⟨hi.newBlock utype p d, rfl, rfl, hstems.convert, rfl, rfl, hi.newBlock_origin,
    fun b hb => ?_⟩
  rcases eq_or_ne b s.next with rfl | hne
  · exact .inr ⟨rfl, rfl⟩
  · exact .inl (by simpa [State.newBlock, State.setBlock, Function.update_of_ne hne] using hb)

theorem Inv.temp (hi : Inv cast s) (he : s.temp cast kind type src = some (t, s₁)) :
    Temp cast s kind type t s₁ := by
  cases src with
  | null =>
    cases he
    exact ⟨hi, rfl, rfl, Handle.stems_empty, rfl, rfl, .refl _, fun _ => .inl⟩
  | adopt utype p d => exact hi.temp_adopt he
  | copy other => exact hi.temp_copy he
  | move other => exact hi.temp_move he
  | lock other => exact hi.temp_lock he

theorem Inv.op {op : Op ι τ P D} (hi : Inv cast s) (he : s.op cast op = some s') :
    Inv cast s' := by
  cases op_spec he with
  | @construct h kind type src t s₁ hnone ht =>
    have hnone₁ : s₁.handles h = none := by
      rcases temp_handles ht h with ⟨-, x, hx, -⟩ | ⟨-, hsame⟩
      · simp [hnone] at hx
      · rw [hsame, hnone]
    exact (hi.temp ht).place hnone₁
  | assign _ ht hx₁ => exact (hi.temp ht).place hx₁
  | swap hx hy => exact hi.swap hx hy
  | destroy hx => exact hi.destruct hx

end SharedPtr
