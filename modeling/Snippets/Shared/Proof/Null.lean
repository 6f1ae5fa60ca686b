import Snippets.Shared.Proof.Handles

/-!
# Empty handles

`Lawful`: a `shared_ptr` tests false exactly when its `use_count ()` is 0, and a `weak_ptr` is
expired exactly when its `lock ()` tests false. It holds where no control block holds a null
pointer (`Inv.lawful`), since the fields of a handle stem from one adoption. Only an adoption makes
a block (`op_new`), so every operation keeps this but `reset ()` of a `shared_ptr`, which adopts a
null pointer: it leaves a handle that tests false with a `use_count ()` of 1 (`reset_unlawful`).
-/

namespace SharedPtr

open Lts

variable {ι τ P D : Type*} [DecidableEq ι] {s s' s₁ : State ι τ P D} {b : Nat}
  {B : Block τ P D} {x t : Handle τ P} {h : ι} {kind : Kind} {type : τ} {src : Source ι τ P D}
  {cast : τ → τ → P → P} {members : P → List ι} {defaultDelete : τ → D}

/-- The law of empty handles. -/
structure Lawful (s : State ι τ P D) : Prop where
  shared : ∀ h x, s.handles h = some x → x.kind = .shared →
    ∃ n, s.useCount x = some n ∧ (x.test = false ↔ n = 0)
  weak : ∀ h x, s.handles h = some x → x.kind = .weak →
    ∃ e t s', s.expired x = some e ∧ s.lock x = some (t, s') ∧ (e = true ↔ t.test = false)

/-- No control block holds a null pointer. -/
def NonNull (s : State ι τ P D) : Prop := ∀ b B, s.blocks b = some B → B.p ≠ none

/-! ## Conversions -/

omit [DecidableEq ι] in
theorem Derived.ne_none {u v : τ} {p q : Option P} (hd : Derived cast u p v q) (hp : p ≠ none) :
    q ≠ none := by
  induction hd with
  | refl => exact hp
  | cast _ ih => simpa using ih

omit [DecidableEq ι] in
/-- A handle on a block has a pointer. -/
theorem NonNull.px (hn : NonNull s) (hx : x.Stems cast s.blocks) (hb : x.pb = some b) :
    x.px ≠ none := by
  unfold Handle.Stems at hx
  rw [hb] at hx
  obtain ⟨B, hB, hd⟩ := hx
  exact hd.ne_none (hn b B hB)

omit [DecidableEq ι] in
theorem Handle.Stems.px_empty {blocks : Nat → Option (Block τ P D)} (hx : x.Stems cast blocks)
    (hb : x.pb = none) : x.px = none := by
  unfold Handle.Stems at hx
  rwa [hb] at hx

/-! ## The law -/

section
variable [Fintype ι]

theorem Inv.useCount_pos (hi : Inv cast s) (hx : s.handles h = some x) (hk : x.kind = .shared)
    (hb : x.pb = some b) (hB : s.blocks b = some B) : 0 < B.useCount := by
  have hc := refers_self hx hb
  rw [hk] at hc
  have hok := hi.counts b
  rw [hB] at hok
  cases hok with
  | present hu =>
    simp only [State.tally] at hu
    omega

theorem Inv.lawful_shared (hi : Inv cast s) (hn : NonNull s) (hx : s.handles h = some x)
    (hk : x.kind = .shared) : ∃ n, s.useCount x = some n ∧ (x.test = false ↔ n = 0) := by
  have hstems := hi.stems h x hx
  cases hb : x.pb with
  | none =>
    exact ⟨0, by simp [State.useCount, hb], by simp [Handle.test, hstems.px_empty hb]⟩
  | some b =>
    obtain ⟨B, hblocks, hB⟩ := hi.block_of_handle hx hb
    have hpos := hi.useCount_pos hx hk hb hblocks
    have hpx := hn.px hstems hb
    refine ⟨B.useCount, by simp [State.useCount, hb, hB], ?_⟩
    simp only [Handle.test, Option.isSome_eq_false_iff, Option.isNone_iff_eq_none, hpx, false_iff]
    omega

theorem Inv.lawful_weak (hi : Inv cast s) (hn : NonNull s) (hx : s.handles h = some x) :
    ∃ e t s', s.expired x = some e ∧ s.lock x = some (t, s') ∧ (e = true ↔ t.test = false) := by
  have hstems := hi.stems h x hx
  cases hb : x.pb with
  | none =>
    exact ⟨true, .empty .shared x.type, s, by simp [State.expired, State.useCount, hb],
      by simp [State.lock, hb], by simp [Handle.test, Handle.empty]⟩
  | some b =>
    obtain ⟨B, -, hB⟩ := hi.block_of_handle hx hb
    have hpx := hn.px hstems hb
    by_cases hzero : B.useCount = 0
    · exact ⟨true, .empty .shared x.type, s, by simp [State.expired, State.useCount, hb, hB, hzero],
        by simp [State.lock, hb, State.lockUseCount, hB, hzero],
        by simp [Handle.test, Handle.empty]⟩
    · exact ⟨false, { x with kind := .shared }, s.setBlock b (B.inc .shared),
        by simp [State.expired, State.useCount, hb, hB, hzero],
        by simp [State.lock, hb, State.lockUseCount, hB, hzero],
        by simpa [Handle.test] using hpx⟩

/-- Where no block holds a null pointer the law holds. -/
theorem Inv.lawful (hi : Inv cast s) (hn : NonNull s) : Lawful s where
  shared _ _ hx hk := hi.lawful_shared hn hx hk
  weak _ _ hx _ := hi.lawful_weak hn hx

end

/-! ## What makes a block -/

section
variable [DecidableEq τ]

/-- Only an operation that adopts a pointer makes a block, and the block holds this pointer. -/
theorem op_new {op : Op ι τ P D} (he : s.op cast op = some s₁) (hb : s.blocks b = none)
    (hB : s₁.blocks b = some B) : op.passes = some B.p := by
  cases op_spec he with
  | construct _ ht | assign _ ht _ =>
    obtain ⟨utype, d, rfl⟩ := temp_new ht hb hB
    rfl
  | swap | destroy => exact absurd (hb.symm.trans hB) (Option.some_ne_none B).symm

omit [DecidableEq ι] [DecidableEq τ] in
theorem SameOrigin.nonNull {f g : Nat → Option (Block τ P D)} (hfg : SameOrigin f g)
    (hn : ∀ b B, f b = some B → B.p ≠ none) {C : Block τ P D} (hB : f b = some B)
    (hC : g b = some C) : C.p ≠ none := by
  obtain ⟨C', hC', -, hp, -⟩ := hfg b B hB
  obtain rfl : C = C' := Option.some.inj (hC.symm.trans hC')
  rw [hp]
  exact hn b B hB

variable [Fintype ι]

theorem NonNull.op {op : Op ι τ P D} (hn : NonNull s) (hi : Inv cast s)
    (hnull : op.passes ≠ some none) (he : s.op cast op = some s₁) : NonNull s₁ := by
  intro b B hB
  cases hb : s.blocks b with
  | none =>
    intro hp
    exact hnull (hp ▸ op_new he hb hB)
  | some C => exact (hi.started he).origin.nonNull hn hb hB

omit [DecidableEq τ] [Fintype ι] in
theorem NonNull.step (hn : NonNull s) (he : s.step members = some s') : NonNull s' := by
  intro b B hB
  have hlater := step_later he
  cases hb : s.blocks b with
  | none => exact absurd ((hlater.absent b hb).symm.trans hB) nofun
  | some C => exact hlater.origin.nonNull hn hb hB

/-! ## `reset ()` -/

omit [Fintype ι] in
/-- **`reset ()` of a `shared_ptr` leaves a handle that tests false and is counted.** -/
theorem reset_handle (he : s.reset cast defaultDelete h = some s') :
    ∃ x, s'.handles h = some x ∧ x.kind = .shared ∧ x.test = false ∧ s'.useCount x = some 1 := by
  obtain ⟨x, hx, he⟩ := Option.bind_eq_some_iff.1 he
  obtain ⟨hk, he⟩ := Option.ite_none_right_eq_some.1 he
  cases op_spec he with
  | assign _ ht _ =>
    obtain ⟨-, ht⟩ := Option.ite_none_right_eq_some.1 ht
    cases ht
    refine ⟨_, Function.update_self .., rfl, ?_, ?_⟩
    · simp [Handle.test, Handle.convert]
    · simp [State.useCount, Handle.convert, State.block, State.push, State.set, State.newBlock,
        State.setBlock]

omit [Fintype ι] in
theorem reset_unlawful (he : s.reset cast defaultDelete h = some s') : ¬Lawful s' := by
  intro hl
  obtain ⟨x, hx, hk, htest, hcount⟩ := reset_handle he
  obtain ⟨n, hn, hiff⟩ := hl.shared h x hx hk
  have hzero := hiff.1 htest
  rw [hcount, hzero] at hn
  cases hn

/-! ## Runs -/

theorem Acts.nonNull {a : Act ι τ P D} (hs : Acts cast members defaultDelete s a s')
    (ha : ∀ h, a ≠ .reset h) (hi : Inv cast s ∧ NonNull s) : Inv cast s' ∧ NonNull s' := by
  obtain ⟨hi, hn⟩ := hi
  cases hs with
  | op hnull he => exact ⟨hi.op he, hn.op hi hnull he⟩
  | reset _ => exact absurd rfl (ha _)
  | step he => exact ⟨hi.step he, hn.step he⟩

/-- **The law of empty handles.** It holds in every state of a run, destructors and deleters
running or not, exactly if `reset ()` is not called on a `shared_ptr`. -/
theorem null_law {s₀ : State ι τ P D} {as : List (Act ι τ P D)} {xs : List (State ι τ P D)}
    (h0 : (client cast members defaultDelete).init s₀)
    (hv : Visits (client cast members defaultDelete) s₀ as xs s) :
    (∀ x ∈ xs, Lawful x) ↔ ∀ h, .reset h ∉ as := by
  constructor
  · intro hlawful h hreset
    obtain ⟨x, -, x', hx', hs⟩ := hv.exists_step hreset
    cases hs with
    | reset he => exact reset_unlawful he (hlawful x' hx')
  · intro hno x hx
    obtain rfl : s₀ = _ := h0
    have hv' := hv.restrict (P := fun a => ∀ h, a ≠ .reset h) fun a ha h he => hno h (he ▸ ha)
    have hstep : ∀ s a s', Inv cast s ∧ NonNull s →
        ((client cast members defaultDelete).restrict fun _ a => ∀ h, a ≠ .reset h).step s a s' →
        Inv cast s' ∧ NonNull s' := fun _ _ _ hi hs => hs.1.nonNull hs.2 hi
    obtain ⟨hi, hn⟩ := hv'.invariant hstep ⟨inv_init, nofun⟩ x hx
    exact hi.lawful hn

end

/-- A handle, a weak one on its block, and the end of the object. -/
theorem null_law_expired : ∃ (xs : List (State (Fin 2) Unit Nat Unit)) (s : State _ _ _ _),
    (∀ x ∈ xs, Lawful x) ∧ s ∈ xs ∧ s.handles 0 = none ∧
      ∃ x, s.handles 1 = some x ∧ s.expired x = some true := by
  have h0 : Visits (client (fun _ _ p => p) (fun _ => []) fun _ => ())
    (⟨fun _ => none, fun _ => none, 0, [], []⟩ : State (Fin 2) Unit Nat Unit) [] [_] _ := .nil _
  have h1 := h0.snoc (.op (o := .construct 0 .shared () (.adopt () (some 5) ())) (by decide) rfl)
  have h2 := h1.snoc (.op (o := .construct 1 .weak () (.copy 0)) (by decide) rfl)
  have h3 := h2.snoc (.op (o := .destroy 0) (by decide) rfl)
  have h4 := h3.snoc (.step rfl)
  exact ⟨_, _, (null_law rfl h4).2 (by simp), h4.last_mem, rfl, _, rfl, rfl⟩

/-- `shared_ptr<T> h; h.reset (); weak_ptr<T> w (h);`: `h` tests false with a `use_count ()` of 1,
and `w` is not expired although `w.lock ()` tests false. -/
theorem reset_counterexample : ∃ (xs : List (State (Fin 2) Unit Nat Unit)) (s : State _ _ _ _),
    Visits (client (fun _ _ p => p) (fun _ => []) fun _ => ())
      ⟨fun _ => none, fun _ => none, 0, [], []⟩
      [.op (.construct 0 .shared () .null), .reset 0, .op (.construct 1 .weak () (.copy 0))] xs s ∧
    ¬Lawful s ∧
    (∃ x, s.handles 0 = some x ∧ x.test = false ∧ s.useCount x = some 1) ∧
    (∃ x t s', s.handles 1 = some x ∧ s.expired x = some false ∧ s.lock x = some (t, s') ∧
      t.test = false) := by
  have h0 : Visits (client (fun _ _ p => p) (fun _ => []) fun _ => ())
    (⟨fun _ => none, fun _ => none, 0, [], []⟩ : State (Fin 2) Unit Nat Unit) [] [_] _ := .nil _
  have h1 := h0.snoc (.op (o := .construct 0 .shared () .null) (by decide) rfl)
  have h2 := h1.snoc (.reset (h := 0) rfl)
  have h3 := h2.snoc (.op (o := .construct 1 .weak () (.copy 0)) (by decide) rfl)
  refine ⟨_, _, h3, fun hl => ?_, ⟨_, rfl, rfl, rfl⟩, _, _, _, rfl, rfl, rfl, rfl⟩
  obtain ⟨n, hn, hiff⟩ := hl.shared 0 _ rfl rfl
  cases hiff.1 rfl
  cases hn

end SharedPtr
