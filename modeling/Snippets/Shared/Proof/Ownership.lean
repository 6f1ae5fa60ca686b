import Mathlib.Tactic.FinCases
import Snippets.Shared.Proof.Releasing

/-!
# Dropping and overwriting handles of an acyclic heap

`Assigned`: what an assignment changes before the destructors run. In an acyclic heap every object
is reachable, so afterwards only edges out of the holder of the handle are new (`Assigned.owns`),
and the holder is reachable itself, also where the handle is assigned from inside the object it
owns (`Assigned.holder`). Then `release` applies (`overwrite_releases`).

An object that holds the only handle on itself is never released (`overwrite_leaks`).
-/

namespace SharedPtr

variable {ι τ P D : Type*} [Fintype ι] {s s' s₁ : State ι τ P D} {a b : Nat} {h k : ι}
  {B : Block τ P D} {cast : τ → τ → P → P} {members : P → List ι} {src : Source ι τ P D}

/-! ## Assignments -/

/-- What an assignment to the handle at `h` changes. -/
structure Assigned (s s₁ : State ι τ P D) (h : ι) (src : Source ι τ P D) : Prop where
  started : Started s s₁
  target : (s₁.handles h).isSome
  other : ∀ k, k ≠ h → s₁.handles k = s.handles k ∨
    src = .move k ∧ ∃ kind type, s₁.handles k = some (.empty kind type)
  new : ∀ b B, s.blocks b = none → s₁.blocks b = some B →
    On s₁ h b ∧ ∃ type d, src = .adopt type B.p d

theorem Started.released (hs : Started s s₁) : s₁.released b = s.released b := by
  rw [State.released, hs.log, State.released]

theorem Started.member (hs : Started s s₁) (hm : Member members s b k) :
    Member members s₁ b k := by
  obtain ⟨B, p, hB, hp, hr, hk⟩ := hm
  obtain ⟨B₁, hB₁, -, hp₁, -⟩ := hs.origin b B hB
  exact ⟨B₁, p, hB₁, hp₁.trans hp, hs.released.trans hr, hk⟩

theorem Started.pending (hs : Started s s₁) : pending s₁ = pending s := by
  obtain ⟨drops, hstack⟩ := hs.stack
  rw [SharedPtr.pending, hstack, List.filterMap_append]
  suffices (drops.flatMap Handle.drop).filterMap Frame.target = ([] : List ι) by
    rw [this, List.nil_append, SharedPtr.pending]
  clear hstack
  induction drops with
  | nil => rfl
  | cons x drops ih => rw [List.flatMap_cons, List.filterMap_append, target_drop, ih]; rfl

theorem Assigned.block (ha : Assigned s s₁ h src) (hB : s₁.blocks b = some B) :
    (∃ B₀, s.blocks b = some B₀ ∧ B.p = B₀.p) ∨
      s.blocks b = none ∧ On s₁ h b ∧ ∃ type d, src = .adopt type B.p d := by
  cases hb : s.blocks b with
  | none => exact .inr ⟨rfl, ha.new b B hb hB⟩
  | some B₀ =>
    obtain ⟨B', hB', -, hp, -⟩ := ha.started.origin b B₀ hb
    obtain rfl : B = B' := Option.some.inj (hB.symm.trans hB')
    exact .inl ⟨B₀, rfl, hp⟩

theorem Assigned.member (ha : Assigned s s₁ h src) (hm : Member members s₁ b k) :
    Member members s b k ∨
      On s₁ h b ∧ ∃ type p d, src = .adopt type (some p) d ∧ k ∈ members p := by
  obtain ⟨B, p, hB, hp, hr, hk⟩ := hm
  rcases ha.block hB with ⟨B₀, hB₀, hp₀⟩ | ⟨-, hon, type, d, hsrc⟩
  · exact .inl ⟨B₀, p, hB₀, hp₀.symm.trans hp, ha.started.released.symm.trans hr, hk⟩
  · exact .inr ⟨hon, type, p, d, hp ▸ hsrc, hk⟩

theorem Assigned.live (ha : Assigned s s₁ h src) (hk : (s.handles k).isSome) :
    (s₁.handles k).isSome := by
  rcases eq_or_ne k h with rfl | hne
  · exact ha.target
  · rcases ha.other k hne with hsame | ⟨-, kind, type, hempty⟩
    · rwa [hsame]
    · simp [hempty]

/-! ## The graph after an assignment -/

theorem Assigned.on_of (ha : Assigned s s₁ h src) (hk : k ≠ h) (hon : On s₁ k b) : On s k b := by
  obtain ⟨x, hx, hkind, hpb⟩ := hon
  rcases ha.other k hk with hsame | ⟨-, kind, type, hempty⟩
  · exact ⟨x, hsame ▸ hx, hkind, hpb⟩
  · obtain rfl : _ = x := Option.some.inj (hempty.symm.trans hx)
    cases hpb

theorem Assigned.on (ha : Assigned s s₁ h src) (hk : k ≠ h) (hmove : src ≠ .move k)
    (hon : On s k b) : On s₁ k b := by
  obtain ⟨x, hx, hkind, hpb⟩ := hon
  rcases ha.other k hk with hsame | ⟨hsrc, -⟩
  · exact ⟨x, hsame.trans hx, hkind, hpb⟩
  · exact absurd hsrc hmove

/-- An assignment adds edges from reachable objects only, if its target is held by one. -/
theorem Assigned.owns (ha : Assigned s s₁ h src) (hholder : HolderReachable members s₁ h)
    (he : Owns members s₁ a b) : Owns members s a b ∨ Reachable members s₁ a := by
  obtain ⟨k, hm, hon⟩ := he
  rcases ha.member hm with hold | ⟨hnew, -⟩
  · rcases eq_or_ne k h with rfl | hne
    · exact .inr (hholder a hm)
    · exact .inl ⟨k, hold, ha.on_of hne hon⟩
  -- the object just adopted is owned by the handle assigned to
  · refine .inr ?_
    by_cases hheld : ∃ c, Member members s₁ c h
    · obtain ⟨c, hc⟩ := hheld
      exact (hholder c hc).edge ⟨h, hc, hnew⟩
    · exact .root ⟨h, hnew, fun c hc => hheld ⟨c, hc⟩⟩

variable [DecidableEq ι]

theorem Assigned.objects (ha : Assigned s s₁ h src) (hh : Heap members s cast)
    (hadopt : src.Adoptable members s) : Objects members s₁ := by
  have hpending : pending s₁ = [] := by rw [ha.started.pending, pending, hh.stack]; rfl
  refine ⟨fun b k hm => ?_, fun b B p hB hp hr => ?_, fun a b k hma hmb => ?_, ?_, ?_, ?_⟩
  · rcases ha.member hm with hm | ⟨-, type, p, d, rfl, hk⟩
    · exact ha.live (hh.objects.live b k hm)
    · exact ha.live (hadopt.2 k hk).1
  · rcases ha.block hB with ⟨B₀, hB₀, hp₀⟩ | ⟨-, -, type, d, rfl⟩
    · exact hh.objects.nodup b B₀ p hB₀ (hp₀.symm.trans hp) (ha.started.released.symm.trans hr)
    · rw [hp] at hadopt
      exact hadopt.1
  · rcases ha.member hma with hma | ⟨hona, type, p, d, rfl, hk⟩
    · rcases ha.member hmb with hmb | ⟨-, type, p, d, rfl, hk⟩
      · exact hh.objects.disjoint a b k hma hmb
      · exact absurd hma ((hadopt.2 k hk).2 a)
    · rcases ha.member hmb with hmb | ⟨honb, -⟩
      · exact absurd hmb ((hadopt.2 k hk).2 b)
      · exact hona.unique honb
  all_goals simp [hpending]

/-- The holder of the handle stays reachable: the assignment cuts only edges below it. -/
theorem Assigned.holder (ha : Assigned s s₁ h src) (hh : Heap members s cast)
    (hac : Acyclic members s) (hadopt : ∀ type p d, src ≠ .adopt type p d)
    (hmove : ∀ k, src = .move k → ∃ b, On s h b ∧ Member members s b k) :
    HolderReachable members s₁ h := by
  have hold : ∀ {b k}, Member members s₁ b k → Member members s b k := fun hm =>
    (ha.member hm).resolve_right fun ⟨_, type, p, d, hsrc, _⟩ => hadopt type (some p) d hsrc
  intro a hm
  have hm := hold hm
  refine (hh.reachable hac (fun _ _ => .inl) hm.alive).of_changed_below hac (fun b hr => ?_)
    fun b c he => ?_
  · obtain ⟨k, hon, hroot⟩ := hr
    have hne : k ≠ h := fun hk => hroot a (hk ▸ hm)
    refine ⟨k, ha.on hne (fun hsrc => ?_) hon, fun c hc => hroot c (hold hc)⟩
    obtain ⟨c, -, hc⟩ := hmove k hsrc
    exact hroot c hc
  · obtain ⟨k, hk, hon⟩ := he
    rcases eq_or_ne k h with rfl | hne
    · obtain rfl := hh.objects.disjoint a b k hm hk
      exact .inr .refl
    · by_cases hsrc : src = .move k
      · obtain ⟨c', honc, hc⟩ := hmove k hsrc
        obtain rfl := hh.objects.disjoint b c' k hk hc
        exact .inr (.single ⟨h, hm, honc⟩)
      · exact .inl ⟨k, ha.started.member hk, ha.on hne hsrc hon⟩

theorem Op.KeepsHolder.reachable (hh : Heap members s cast) (hac : Acyclic members s)
    (ha : Assigned s s₁ h src) (hk : (Op.assign h src).KeepsHolder members s s₁) :
    HolderReachable members s₁ h := by
  cases src with
  | adopt type p d => exact hk
  | move other =>
    rcases hk with hin | hholder
    · apply ha.holder hh hac (by simp)
      intro k hsrc
      obtain rfl : other = k := Source.move.inj hsrc
      exact hin
    · exact hholder
  | null | copy other | lock other => exact ha.holder hh hac (by simp) (by simp)

/-! ## Dropping a handle -/

/-- Destroying a handle that is no member of an object adds no edge. -/
theorem Heap.destroy {x : Handle τ P} (hh : Heap members s cast)
    (hroot : ∀ a, ¬Member members s a h) : Objects members ((s.set h none).push x.drop) ∧
      ∀ a b, Owns members ((s.set h none).push x.drop) a b → Owns members s a b := by
  have hpending : pending ((s.set h none).push x.drop) = [] := by
    rw [pending_push, target_drop]
    simp [pending, State.set, hh.stack]
  refine ⟨⟨?_, hh.objects.nodup, hh.objects.disjoint, ?_, ?_, ?_⟩, ?_⟩
  · intro b k hm
    have hne : k ≠ h := fun hk => hroot b (hk ▸ hm)
    simpa [State.push, State.set, hne] using hh.objects.live b k hm
  · simp [hpending]
  · simp [hpending]
  · simp [hpending]
  · rintro a b ⟨k, hm, y, hy, hyb⟩
    have hne : k ≠ h := fun hk => hroot a (hk ▸ hm)
    exact ⟨k, hm, y, by simpa [State.push, State.set, hne] using hy, hyb⟩

/-! ## The release -/

/-- What an operation from `s`, with its destructors started in `s₁`, has done in the end. -/
structure Released (cast : τ → τ → P → P) (members : P → List ι) (s s₁ s' : State ι τ P D) :
    Prop where
  heap : Heap members s' cast
  reachable : ∀ b, Reachable members s' b ↔ Reachable members s₁ b
  /-- the deleters of the objects that are not reachable any more are called, each once -/
  calls : ∃ new, s'.log = s.log ++ new ∧ (new.map (·.block)).Nodup ∧
    ∀ b, b ∈ new.map (·.block) ↔ Alive s₁ b ∧ ¬Reachable members s₁ b
  /-- the counters are the numbers of handles -/
  sound : Sound cast s'
  destroyed : ∀ b B, s'.blocks b = some B →
    (B.destroyed = true ↔ s'.count .shared b = 0 ∧ s'.count .weak b = 0)

theorem Idle.destroyed (hi : Idle cast s) (hB : s.blocks b = some B) :
    B.destroyed = true ↔ s.count .shared b = 0 ∧ s.count .weak b = 0 := by
  have hok := hi.inv.counts b
  rw [hB] at hok
  cases hok with
  | present hu hpos hzero hlive hdead =>
    simp only [State.tally, hi.stack, List.count_nil] at hlive hdead
    cases hd : B.destroyed <;> simp only [hd, Bool.toNat_false, Bool.toNat_true] at hlive hdead <;>
      simp <;> omega

/-- The deleters called are those of the objects that do not survive. -/
theorem Heap.calls {P : Nat → Prop} (hh : Heap members s' cast) (hl : Later s₁ s')
    (halive : ∀ b, Alive s' b ↔ P b) :
    ∃ new, s'.log = s₁.log ++ new ∧ (new.map (·.block)).Nodup ∧
      ∀ b, b ∈ new.map (·.block) ↔ Alive s₁ b ∧ ¬P b := by
  obtain ⟨new, hnew⟩ := hl.log
  have hcount : ∀ b, s'.released b = s₁.released b + (new.map (·.block)).count b := by
    intro b
    rw [State.released, ← hnew, List.countP_append, List.count_eq_countP, List.countP_map]
    rfl
  have hone : ∀ b, s'.released b ≤ 1 := by
    intro b
    cases hB : s'.blocks b with
    | none => simp [(hh.absent hB).2]
    | some B =>
      have hpresent := hh.present hB
      omega
  refine ⟨new, hnew.symm, List.nodup_iff_count_le_one.2 fun b => ?_, ?_⟩
  · have h1 := hone b
    have h2 := hcount b
    omega
  · intro b
    rw [← halive, ← List.count_pos_iff]
    constructor
    · intro hpos
      have h1 := hone b
      have h2 := hcount b
      refine ⟨⟨?_, by omega⟩, fun ha => ?_⟩
      · cases hB : s₁.blocks b with
        | some B => exact ⟨B, rfl⟩
        | none =>
          have h0 := (hh.absent (hl.absent b hB)).2
          omega
      · have h0 := ha.2
        omega
    · rintro ⟨⟨⟨B, hB⟩, h0⟩, hdead⟩
      obtain ⟨B', hB', -⟩ := hl.origin b B hB
      have h0' : s'.released b ≠ 0 := fun h0' => hdead ⟨⟨B', hB'⟩, h0'⟩
      have h2 := hcount b
      omega

variable [DecidableEq τ]

theorem Inv.assigned (hi : Inv cast s) (he : s.op cast (.assign h src) = some s₁) :
    Assigned s s₁ h src := by
  have hstarted := hi.started he
  cases op_spec he with
  | @assign _ _ t x y s₂ hx ht hy =>
    refine ⟨hstarted, by simp [State.push, State.set], fun k hk => ?_, fun b B hb hB => ?_⟩
    · rcases temp_handles ht k with ⟨rfl, z, -, -, -, hz⟩ | ⟨-, hsame⟩
      · exact .inr ⟨rfl, z.kind, z.type, by simpa [State.push, State.set, hk] using hz⟩
      · exact .inl (by simpa [State.push, State.set, hk] using hsame)
    · rcases (hi.temp ht).new b hb with hnone | ⟨hkind, hpb⟩
      · have hB' : s₂.blocks b = some B := hB
        simp [hnone] at hB'
      · exact ⟨⟨t, by simp [State.push, State.set], hkind, hpb⟩, temp_new ht hb hB⟩

/-- **Releasing what is not reachable.** In a heap of objects whose `shared_ptr` members form an
acyclic graph, one `shared_ptr` is dropped or overwritten, so that the object that holds it stays
reachable. Then the destructors end, touching no handle and no block that is gone, and have
released exactly the objects that are not reachable any more. -/
theorem overwrite_releases (op : Op ι τ P D) (hh : Heap members s cast)
    (hac : Acyclic members s) (ho : op.Overwrites members s) : ∃ s₁, s.op cast op = some s₁ ∧
      (op.KeepsHolder members s s₁ → ∃ s', (∀ n, s₁.work ≤ n → s₁.run members n = some s') ∧
        Released cast members s s₁ s') := by
  have happlies : op.Applies s := by
    cases op with
    | destroy h =>
      obtain ⟨⟨x, hx, -⟩, -⟩ := ho
      exact ⟨x, hx⟩
    | assign h src =>
      obtain ⟨⟨x, hx, hk⟩, ha, -⟩ := ho
      exact ⟨x, hx, hk ▸ ha⟩
    | construct | swap => exact ho.elim
  obtain ⟨s₁, he⟩ := hh.inv.op_applies happlies
  refine ⟨s₁, he, fun hkeeps => ?_⟩
  have hstarted := hh.inv.started he
  have hgraph : Objects members s₁ ∧
      ∀ a b, Owns members s₁ a b → Owns members s a b ∨ Reachable members s₁ a := by
    cases op with
    | destroy h =>
      obtain ⟨x, hx, rfl⟩ := Option.map_eq_some_iff.1 he
      obtain ⟨hobjects, howns⟩ := hh.destroy (x := x) ho.2
      exact ⟨hobjects, fun a b hab => .inl (howns a b hab)⟩
    | assign h src =>
      have ha := hh.inv.assigned he
      exact ⟨ha.objects hh ho.2.2, fun a b => ha.owns (hkeeps.reachable hh hac ha)⟩
    | construct | swap => exact ho.elim
  have hpending : pending s₁ = [] := by
    rw [hstarted.pending, pending, hh.stack]
    rfl
  obtain ⟨s', hrun, hh', hl, hreach, halive⟩ :=
    release (hh.inv.op he) hgraph.1 hpending hac hgraph.2
  refine ⟨s', hrun, hh', hreach, ?_, hh'.inv.sound hh'.stack, fun b B => hh'.toIdle.destroyed⟩
  rw [← hstarted.log]
  exact hh'.calls hl halive

/-! ## A list of two nodes -/

/-- `head` is at 0; the first node has a `next` at 1 and a weak handle on itself at 2, the second
one a weak handle on the first at 3. -/
def list : State (Fin 4) Unit Nat Unit where
  handles
    | 0 => some ⟨.shared, (), some 0, some 0⟩
    | 1 => some ⟨.shared, (), some 1, some 1⟩
    | 2 | 3 => some ⟨.weak, (), some 0, some 0⟩
  blocks
    | 0 => some ⟨1, 3, (), some 0, (), false⟩
    | 1 => some ⟨1, 1, (), some 1, (), false⟩
    | _ => none
  next := 2
  stack := []
  log := []

/-- Two nodes: the first has a handle of the second one, and each has a weak one of the first. -/
def listMembers : Nat → List (Fin 4)
  | 0 => [1, 2]
  | 1 => [3]
  | _ => []

theorem list_member {h : Fin 4} (hm : Member listMembers list b h) :
    b = 0 ∧ (h = 1 ∨ h = 2) ∨ b = 1 ∧ h = 3 := by
  obtain ⟨B, p, hB, hp, -, hh⟩ := hm
  match b, hB with
  | 0, rfl =>
    cases hp
    exact .inl ⟨rfl, by simpa [listMembers] using hh⟩
  | 1, rfl =>
    cases hp
    exact .inr ⟨rfl, by simpa [listMembers] using hh⟩

theorem list_heap : Heap listMembers list fun _ _ p => p := by
  refine ⟨⟨⟨fun b => ?_, fun h x hx => ?_, fun b hb => ?_, by simp [list]⟩, rfl⟩, ?_⟩
  · rcases b with _ | _ | b
    · exact .present (by decide) (by decide) (by decide) (by decide) (by decide)
    · exact .present (by decide) (by decide) (by decide) (by decide) (by decide)
    · have hnone : ∀ kind, list.count kind (b + 2) = 0 := by
        intro kind
        apply Threads.total_eq_zero.2
        intro h
        fin_cases h <;> simp [refers, list]
      refine .absent ?_
      simp only [State.tally, hnone]
      rfl
  · fin_cases h <;> cases hx <;> exact ⟨_, rfl, .refl⟩
  · rcases b with _ | _ | b
    · exact absurd hb (by decide)
    · exact absurd hb (by decide)
    · rfl
  · refine ⟨fun b h hm => ?_, fun b B p hB hp _ => ?_, fun a b h ha hb => ?_, ?_, ?_, ?_⟩
    · fin_cases h <;> rfl
    · rcases b with _ | _ | b <;> cases hB <;> cases hp <;> decide
    · have ha := list_member ha
      have hb := list_member hb
      omega
    all_goals simp [pending, list]

theorem list_acyclic : Acyclic listMembers list := by
  have hlt : ∀ a b, Owns listMembers list a b → a < b := by
    rintro a b ⟨h, hm, x, hx, hk, hb⟩
    rcases list_member hm with ⟨rfl, rfl | rfl⟩ | ⟨rfl, rfl⟩ <;> cases hx <;> cases hk
    cases hb
    decide
  intro a h
  have hpath : ∀ b, Relation.TransGen (Owns listMembers list) a b → a < b := by
    intro b h
    induction h with
    | single h => exact hlt _ _ h
    | tail _ h ih => exact ih.trans (hlt _ _ h)
  exact Nat.lt_irrefl a (hpath a h)

/-- `head = head->next` and `head = std::move (head->next)` release the first node only. -/
theorem overwrite_releases_list :
    (∃ s₁ s', list.op (fun _ _ p => p) (.assign 0 (.copy 1)) = some s₁ ∧
      Released (fun _ _ p => p) listMembers list s₁ s' ∧ s'.log = [⟨0, some 0, ()⟩]) ∧
    ∃ s₁ s', list.op (fun _ _ p => p) (.assign 0 (.move 1)) = some s₁ ∧
      Released (fun _ _ p => p) listMembers list s₁ s' ∧ s'.log = [⟨0, some 0, ()⟩] := by
  have hshared : ∀ h, h = 0 ∨ h = 1 → ∃ x, list.handles h = some x ∧ x.kind = .shared := by
    rintro h (rfl | rfl) <;> exact ⟨_, rfl, rfl⟩
  refine ⟨?_, ?_⟩
  · obtain ⟨s₁, he, hs'⟩ := overwrite_releases (.assign 0 (.copy 1)) list_heap list_acyclic
      ⟨hshared 0 (.inl rfl), ⟨_, rfl, fun _ => rfl⟩, trivial⟩
    obtain ⟨s', hrun, hr⟩ := hs' trivial
    cases he
    have hlog : some [⟨0, some 0, ()⟩] = some s'.log :=
      congrArg (Option.map State.log) (hrun 20 (by decide))
    exact ⟨_, s', rfl, hr, (Option.some.inj hlog).symm⟩
  · obtain ⟨s₁, he, hs'⟩ := overwrite_releases (.assign 0 (.move 1)) list_heap list_acyclic
      ⟨hshared 0 (.inl rfl), ⟨_, rfl, rfl⟩, trivial⟩
    obtain ⟨s', hrun, hr⟩ := hs' (.inl ⟨0, ⟨_, rfl, rfl, rfl⟩, _, 0, rfl, rfl, rfl, by decide⟩)
    cases he
    have hlog : some [⟨0, some 0, ()⟩] = some s'.log :=
      congrArg (Option.map State.log) (hrun 20 (by decide))
    exact ⟨_, s', rfl, hr, (Option.some.inj hlog).symm⟩

/-- `head->next = std::move (head)`: the first node is not reachable any more, but holds itself. -/
theorem overwrite_leaks : ∃ s₁ s', Heap listMembers list (fun _ _ p => p) ∧
    Acyclic listMembers list ∧ (Op.assign 1 (.move 0)).Overwrites listMembers list ∧
    list.op (fun _ _ p => p) (.assign 1 (.move 0)) = some s₁ ∧ s₁.run listMembers 20 = some s' ∧
    Alive s₁ 0 ∧ ¬Reachable listMembers s₁ 0 ∧ s'.log = [⟨1, some 1, ()⟩] := by
  refine ⟨_, _, list_heap, list_acyclic, ⟨⟨_, rfl, rfl⟩, ⟨_, rfl, rfl⟩, trivial⟩, rfl, rfl,
    ⟨⟨_, rfl⟩, rfl⟩, fun hr => ?_, rfl⟩
  -- the only `shared_ptr` left is the one in the first node
  obtain ⟨b, h, ⟨x, hx, hk, hb⟩, hfree⟩ := hr.exists_root
  match h, hx with
  | 0, rfl => cases hb
  | 1, rfl => exact hfree 0 ⟨_, 0, rfl, rfl, rfl, by decide⟩
  | 2, rfl | 3, rfl => cases hk

end SharedPtr
