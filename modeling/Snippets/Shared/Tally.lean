import Snippets.Shared.Model

/-!
# What refers to a control block

`Tally`: how many handles, calls on the stack and calls of the deleter refer to a block; `Tally.Ok`
is what the counters of the block must be then. A handle in a temporary is one whose destructor is
on the stack (`Handle.drop`), so moving a handle changes no tally (`tally_set`), and a call on the
stack adds to the tally of its own block only (`tally_push_cons`).

`Handle.Stems`: the two fields of a handle stem from one adoption, through any conversions.
-/

namespace SharedPtr

variable {ι τ P D : Type*} {s : State ι τ P D} {b : Nat} {B : Block τ P D} {x : Handle τ P}
  {kind : Kind} {type : τ} {h : ι} {f : Frame ι} {rest : List (Frame ι)}
  {cast : τ → τ → P → P}

/-! ## Tallies -/

/-- 1 for a handle of the given kind on block `b`. -/
def refers (kind : Kind) (b : Nat) : Option (Handle τ P) → Nat
  | some x => if x.kind = kind ∧ x.pb = some b then 1 else 0
  | none => 0

/-- What refers to a block: handles and pending decrements of the two kinds, pending calls of
`dispose ()` and `destroy ()`, and calls of the deleter. -/
structure Tally where
  shared : Nat
  weak : Nat
  dispose : Nat
  destroy : Nat
  released : Nat

/-- The counters of a block against its tally; nothing refers to a block that does not exist. -/
inductive Tally.Ok (t : Tally) : Option (Block τ P D) → Prop
  | absent : t = ⟨0, 0, 0, 0, 0⟩ → Ok t none
  | present {B : Block τ P D} :
      B.useCount = t.shared →
      (0 < t.shared → B.weakCount = t.weak + t.dispose + 1 ∧ t.dispose + t.released = 0) →
      (t.shared = 0 → B.weakCount = t.weak + t.dispose ∧ t.dispose + t.released = 1) →
      (0 < t.shared + t.weak + t.dispose → t.destroy + B.destroyed.toNat = 0) →
      (t.shared + t.weak + t.dispose = 0 → t.destroy + B.destroyed.toNat = 1) →
      Ok t (some B)

theorem Tally.Ok.exists {t : Tally} {o : Option (Block τ P D)} (h : t.Ok o)
    (ht : 0 < t.shared + t.weak + t.dispose + t.destroy + t.released) : ∃ B, o = some B := by
  cases h with
  | absent h0 =>
    subst h0
    simp at ht
  | present => exact ⟨_, rfl⟩

theorem Tally.Ok.live {t : Tally} (h : t.Ok (some B))
    (ht : 0 < t.shared + t.weak + t.dispose + t.destroy) : B.destroyed = false := by
  cases h with
  | present _ _ _ hlive hdead =>
    have hB : B.destroyed.toNat = 0 := by
      rcases Nat.eq_zero_or_pos (t.shared + t.weak + t.dispose) with h0 | h0
      · have := hdead h0
        omega
      · have := hlive h0
        omega
    simpa using hB

/-! ## Calls on the stack -/

/-- The block a call on the stack is about. -/
def Frame.block : Frame ι → Option Nat
  | .dec _ b | .dispose b | .destroy b => some b
  | .destruct _ => none

/-- What a call on the stack adds to the tally of block `b`. -/
def Frame.add (b : Nat) : Frame ι → Tally → Tally
  | .dec .shared c, t => if c = b then { t with shared := t.shared + 1 } else t
  | .dec .weak c, t => if c = b then { t with weak := t.weak + 1 } else t
  | .dispose c, t => if c = b then { t with dispose := t.dispose + 1 } else t
  | .destroy c, t => if c = b then { t with destroy := t.destroy + 1 } else t
  | .destruct _, t => t

theorem add_of_ne {f : Frame ι} {t : Tally} (hf : f.block ≠ some b) : f.add b t = t := by
  cases f with
  | dec kind c => cases kind <;> simp_all [Frame.add, Frame.block]
  | destruct h => rfl
  | dispose c | destroy c => simp_all [Frame.add, Frame.block]

/-- A new reference of a kind to a block that has one that allows it. -/
theorem Tally.Ok.inc {t : Tally} (h : t.Ok (some B)) (hB : B.destroyed = false)
    (hk : match kind with
      | .shared => 0 < t.shared
      | .weak => 0 < t.shared + t.weak + t.dispose) :
    ((Frame.dec kind b : Frame ι).add b t).Ok (some (B.inc kind)) := by
  cases h with
  | present hu hpos hzero hlive hdead =>
    have hB' : B.destroyed.toNat = 0 := by simp [hB]
    cases kind <;> simp only at hk <;> simp only [Frame.add, if_pos, Block.inc] <;>
      exact .present (by simp only; omega) (by simp only; omega) (by simp only; omega)
        (by simp only; omega) (by simp only; omega)

theorem Tally.Ok.decUse {t : Tally} (h : ((Frame.dec .shared b : Frame ι).add b t).Ok (some B)) :
    if B.useCount = 1 then
      ((Frame.dispose b : Frame ι).add b t).Ok (some { B with useCount := B.useCount - 1 })
    else t.Ok (some { B with useCount := B.useCount - 1 }) := by
  simp only [Frame.add, if_pos] at h ⊢
  cases h with
  | present hu hpos hzero hlive hdead =>
    simp only at hu hpos hzero hlive hdead
    split <;>
      exact .present (by simp only; omega) (by simp only; omega) (by simp only; omega)
        (by simp only; omega) (by simp only; omega)

theorem Tally.Ok.decWeak {t : Tally} (h : ((Frame.dec .weak b : Frame ι).add b t).Ok (some B)) :
    if B.weakCount = 1 then
      ((Frame.destroy b : Frame ι).add b t).Ok (some { B with weakCount := B.weakCount - 1 })
    else t.Ok (some { B with weakCount := B.weakCount - 1 }) := by
  simp only [Frame.add, if_pos] at h ⊢
  cases h with
  | present hu hpos hzero hlive hdead =>
    simp only at hu hpos hzero hlive hdead
    split <;>
      exact .present (by simp only; omega) (by simp only; omega) (by simp only; omega)
        (by simp only; omega) (by simp only; omega)

theorem Tally.Ok.dispose {t : Tally} (h : ((Frame.dispose b : Frame ι).add b t).Ok (some B)) :
    ({ (Frame.dec .weak b : Frame ι).add b t with released := t.released + 1 }).Ok (some B) := by
  simp only [Frame.add, if_pos] at h ⊢
  cases h with
  | present hu hpos hzero hlive hdead =>
    simp only at hu hpos hzero hlive hdead
    exact .present (by simp only; omega) (by simp only; omega) (by simp only; omega)
        (by simp only; omega) (by simp only; omega)

theorem Tally.Ok.destroy {t : Tally} (h : ((Frame.destroy b : Frame ι).add b t).Ok (some B))
    (hB : B.destroyed = false) : t.Ok (some { B with destroyed := true }) := by
  have h0 : B.destroyed.toNat = 0 := by simp [hB]
  simp only [Frame.add, if_pos] at h
  cases h with
  | present hu hpos hzero hlive hdead =>
    simp only at hu hpos hzero hlive hdead
    exact .present hu hpos hzero (by simp only [Bool.toNat_true]; omega)
      (by simp only [Bool.toNat_true]; omega)

/-! ## The origin of a handle -/

/-- `px` results from the pointer `p₀` of type `type₀` by conversions. -/
inductive Derived (cast : τ → τ → P → P) (type₀ : τ) (p₀ : Option P) : τ → Option P → Prop
  | refl : Derived cast type₀ p₀ type₀ p₀
  | cast {type type' : τ} {p : Option P} : Derived cast type₀ p₀ type p →
      Derived cast type₀ p₀ type' (p.map (cast type type'))

/-- The two fields of a handle stem from one adoption, or the handle is empty. -/
def Handle.Stems (cast : τ → τ → P → P) (blocks : Nat → Option (Block τ P D)) (x : Handle τ P) :
    Prop :=
  match x.pb with
  | none => x.px = none
  | some b => ∃ B, blocks b = some B ∧ Derived cast B.type B.p x.type x.px

theorem Handle.stems_empty {blocks : Nat → Option (Block τ P D)} :
    (Handle.empty kind type : Handle τ P).Stems cast blocks :=
  rfl

theorem Handle.Stems.convert [DecidableEq τ] {blocks : Nat → Option (Block τ P D)}
    (h : x.Stems cast blocks) : (x.convert cast kind type).Stems cast blocks := by
  unfold Handle.Stems at h ⊢
  cases hb : x.pb with
  | none =>
    simp only [hb] at h
    simp [Handle.convert, hb, h]
  | some b =>
    simp only [hb] at h
    obtain ⟨B, hB, hd⟩ := h
    simp only [Handle.convert, hb]
    refine ⟨B, hB, ?_⟩
    split
    · rename_i heq
      exact heq ▸ hd
    · exact hd.cast

/-- The blocks of `f` are blocks of `g`, adopted with the same pointer and deleter. -/
def SameOrigin (f g : Nat → Option (Block τ P D)) : Prop :=
  ∀ b B, f b = some B → ∃ B', g b = some B' ∧ B'.type = B.type ∧ B'.p = B.p ∧ B'.d = B.d

theorem SameOrigin.refl (f : Nat → Option (Block τ P D)) : SameOrigin f f :=
  fun _ B hB => ⟨B, hB, rfl, rfl, rfl⟩

theorem SameOrigin.trans {f g k : Nat → Option (Block τ P D)} (h : SameOrigin f g)
    (h' : SameOrigin g k) : SameOrigin f k := by
  intro b B hB
  obtain ⟨B', hB', ht, hp, hd⟩ := h b B hB
  obtain ⟨B'', hB'', ht', hp', hd'⟩ := h' b B' hB'
  exact ⟨B'', hB'', ht'.trans ht, hp'.trans hp, hd'.trans hd⟩

theorem Handle.Stems.mono {f g : Nat → Option (Block τ P D)} (h : x.Stems cast f)
    (hfg : SameOrigin f g) : x.Stems cast g := by
  unfold Handle.Stems at h ⊢
  split
  · rename_i hpb
    rwa [hpb] at h
  · rename_i b hpb
    rw [hpb] at h
    obtain ⟨B, hB, hd⟩ := h
    obtain ⟨B', hB', ht, hp, -⟩ := hfg b B hB
    exact ⟨B', hB', by rwa [ht, hp]⟩

/-! ## Parts of a state -/

@[simp] theorem push_stack (fs : List (Frame ι)) : (s.push fs).stack = fs ++ s.stack := rfl

theorem pop_push {f : Frame ι} (hs : s.stack = f :: rest) : s = s.pop.push [f] := by
  cases s
  simp only at hs
  subst hs
  rfl

theorem blocks_of_block (h : s.block b = some B) : s.blocks b = some B ∧ B.destroyed = false := by
  obtain ⟨h, hd⟩ := Option.filter_eq_some_iff.1 h
  exact ⟨h, by simpa using hd⟩

theorem sameOrigin_setBlock {B' : Block τ P D} (hB : s.blocks b = some B) (ht : B'.type = B.type)
    (hp : B'.p = B.p) (hd : B'.d = B.d) : SameOrigin s.blocks (s.setBlock b B').blocks := by
  intro c C hC
  rcases eq_or_ne c b with rfl | hne
  · obtain rfl : B = C := Option.some.inj (hB.symm.trans hC)
    exact ⟨B', by simp [State.setBlock], ht, hp, hd⟩
  · exact ⟨C, by simpa [State.setBlock, Function.update_of_ne hne] using hC, rfl, rfl, rfl⟩

theorem setBlock_none {c : Nat} (hB : s.blocks b = some B) {B' : Block τ P D}
    (hc : s.blocks c = none) : (s.setBlock b B').blocks c = none := by
  have hne : c ≠ b := by
    rintro rfl
    simp [hB] at hc
  simpa [State.setBlock, Function.update_of_ne hne] using hc

section
variable [DecidableEq ι]

theorem count_drop : (x.drop : List (Frame ι)).count (.dec kind b) = refers kind b (some x) := by
  obtain ⟨k, type, px, pb⟩ := x
  cases pb with
  | none => simp [Handle.drop, refers]
  | some b' =>
    by_cases hk : k = kind <;> by_cases hb : b' = b <;>
      simp [Handle.drop, refers, hk, hb]

theorem count_dispose_drop : (x.drop : List (Frame ι)).count (.dispose b) = 0 := by
  cases hx : x.pb <;> simp [Handle.drop, hx]

theorem count_destroy_drop : (x.drop : List (Frame ι)).count (.destroy b) = 0 := by
  cases hx : x.pb <;> simp [Handle.drop, hx]

end

/-! ## The tally of a block -/

variable [Fintype ι]

/-- The live handles of a kind on a block. -/
def State.count (s : State ι τ P D) (kind : Kind) (b : Nat) : Nat :=
  Threads.total (refers kind b) s.handles

/-- The calls of a block's deleter so far. -/
def State.released (s : State ι τ P D) (b : Nat) : Nat := s.log.countP (·.block = b)

theorem refers_self (hx : s.handles h = some x) (hb : x.pb = some b) :
    0 < s.count x.kind b := by
  have h1 := Threads.le_total (refers x.kind b) s.handles h
  have h2 : refers x.kind b (s.handles h) = 1 := by simp [refers, hx, hb]
  exact Nat.lt_of_lt_of_le (by omega) h1

variable [DecidableEq ι]

/-- What there is for block `b`: handles with those that are being dropped, calls of `dispose ()`
and `destroy ()` to come, and calls of its deleter. -/
def State.tally (s : State ι τ P D) (b : Nat) : Tally where
  shared := s.count .shared b + s.stack.count (.dec .shared b)
  weak := s.count .weak b + s.stack.count (.dec .weak b)
  dispose := s.stack.count (.dispose b)
  destroy := s.stack.count (.destroy b)
  released := s.released b

theorem count_set (kind : Kind) {v : Option (Handle τ P)} :
    (s.set h v).count kind b + refers kind b (s.handles h) =
      s.count kind b + refers kind b v :=
  Threads.total_update (refers kind b) s.handles h v

/-- Putting `v` at a location, with pending destructors that make up for it. -/
theorem tally_set {v : Option (Handle τ P)} {fs : List (Frame ι)} (gs : List (Frame ι))
    (hdec : ∀ k, refers k b v + fs.count (.dec k b) =
      refers k b (s.handles h) + gs.count (.dec k b))
    (hdispose : fs.count (.dispose b) = gs.count (.dispose b))
    (hdestroy : fs.count (.destroy b) = gs.count (.destroy b)) :
    ((s.set h v).push fs).tally b = (s.push gs).tally b := by
  have hs := count_set .shared (s := s) (h := h) (v := v) (b := b)
  have hw := count_set .weak (s := s) (h := h) (v := v) (b := b)
  have h1 := hdec .shared
  have h2 := hdec .weak
  have hpush : ∀ (t : State ι τ P D) k fs, (t.push fs).count k b = t.count k b := fun _ _ _ => rfl
  have hstack : (s.set h v).stack = s.stack := rfl
  simp only [State.tally, Tally.mk.injEq, push_stack, List.count_append, hpush, hstack, hdispose,
    hdestroy, true_and]
  exact ⟨by omega, by omega, rfl⟩

theorem tally_push_cons (f : Frame ι) (fs : List (Frame ι)) :
    (s.push (f :: fs)).tally b = f.add b ((s.push fs).tally b) := by
  cases f with
  | dec kind c =>
    by_cases hc : c = b <;> cases kind <;>
      simp [State.tally, State.push, Frame.add, State.count, State.released, hc] <;> omega
  | dispose c | destroy c =>
    by_cases hc : c = b <;>
      simp [State.tally, State.push, Frame.add, State.count, State.released, hc]
  | destruct h => simp [State.tally, State.push, Frame.add, State.count, State.released]

theorem tally_push_destruct (hs : List ι) (fs : List (Frame ι)) :
    (s.push (hs.map .destruct ++ fs)).tally b = (s.push fs).tally b := by
  induction hs with
  | nil => rfl
  | cons h hs ih =>
    rw [List.map_cons, List.cons_append, tally_push_cons, ih]
    rfl

theorem tally_pop {f : Frame ι} (hs : s.stack = f :: rest) (c : Nat) :
    s.tally c = f.add c (s.pop.tally c) := by
  conv_lhs => rw [pop_push hs]
  exact tally_push_cons f []

theorem tally_push_if {q : Prop} [Decidable q] {f : Frame ι} (hf : f.block = some b) {c : Nat}
    (hc : c ≠ b) : (s.push (if q then [f] else [])).tally c = s.tally c := by
  split
  · exact (tally_push_cons f []).trans (add_of_ne (by simpa [hf] using hc.symm))
  · rfl

end SharedPtr
