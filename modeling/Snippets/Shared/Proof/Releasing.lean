import Snippets.Shared.Graph

/-!
# Releasing an acyclic ownership graph

The calls on the stack run to their end without touching a handle or a block that is gone, they
destroy exactly the members of the objects they release (`Releasing`), and in the end exactly
the objects that are reachable are left (`release`).
-/

namespace SharedPtr

variable {ι τ P D : Type*} {s s' s₁ : State ι τ P D} {a b : Nat} {h : ι} {B : Block τ P D}
  {cast : τ → τ → P → P} {members : P → List ι} {f : Frame ι} {rest : List (Frame ι)}

/-! ## Members -/

theorem On.unique (h₁ : On s h a) (h₂ : On s h b) : a = b := by
  obtain ⟨x, hx, -, ha⟩ := h₁
  obtain ⟨y, hy, -, hb⟩ := h₂
  obtain rfl : x = y := Option.some.inj (hx.symm.trans hy)
  exact Option.some.inj (ha.symm.trans hb)

theorem Member.alive (hm : Member members s b h) : Alive s b := by
  obtain ⟨B, p, hB, -, hr, -⟩ := hm
  exact ⟨⟨B, hB⟩, hr⟩

theorem mem_members (hB : s.blocks b = some B) (h0 : s.released b = 0) (h : ι) :
    h ∈ B.p.elim [] members ↔ Member members s b h := by
  refine ⟨fun hh => ?_, fun ⟨B', p, hB', hp, _, hh⟩ => ?_⟩
  · cases hp : B.p with
    | none => simp [hp] at hh
    | some p => exact ⟨B, p, hB, hp, h0, by simpa [hp] using hh⟩
  · obtain rfl : B = B' := Option.some.inj (hB.symm.trans hB')
    simpa [hp] using hh

theorem Objects.members_nodup (ho : Objects members s) (hB : s.blocks b = some B)
    (h0 : s.released b = 0) : (B.p.elim [] members).Nodup := by
  cases hp : B.p with
  | none => exact List.nodup_nil
  | some p => exact ho.nodup b B p hB hp h0

theorem Later.released_le (hl : Later s s') : s.released b ≤ s'.released b :=
  hl.log.sublist.countP_le

theorem Later.member (hl : Later s s') (hm : Member members s' b h) : Member members s b h := by
  obtain ⟨B', p, hB', hp, hr, hmem⟩ := hm
  have hle := hl.released_le (b := b)
  cases hB : s.blocks b with
  | none => simp [hl.absent b hB] at hB'
  | some B =>
    obtain ⟨B'', hB'', -, hp'', -⟩ := hl.origin b B hB
    obtain rfl : B' = B'' := Option.some.inj (hB'.symm.trans hB'')
    exact ⟨B, p, hB, hp''.symm.trans hp, by omega, hmem⟩

theorem Later.member_of_released (hl : Later s s') (hm : Member members s b h)
    (hr : s'.released b = 0) : Member members s' b h := by
  obtain ⟨B, p, hB, hp, -, hmem⟩ := hm
  obtain ⟨B', hB', -, hp', -⟩ := hl.origin b B hB
  exact ⟨B', p, hB', hp'.trans hp, hr, hmem⟩

/-- What is needed of a later state: members are released only. -/
theorem Objects.later (ho : Objects members s) (hl : Later s s')
    (hlive : ∀ b h, Member members s' b h → (s'.handles h).isSome)
    (hnodup : (pending s').Nodup)
    (hpending : ∀ h ∈ pending s', (s'.handles h).isSome)
    (hfree : ∀ h ∈ pending s', ∀ b, ¬Member members s' b h) : Objects members s' where
  live := hlive
  nodup b B' p hB' hp' h0 := by
    have hle := hl.released_le (b := b)
    cases hB : s.blocks b with
    | none => simp [hl.absent b hB] at hB'
    | some B =>
      obtain ⟨B'', hB'', -, hp'', -⟩ := hl.origin b B hB
      obtain rfl : B' = B'' := Option.some.inj (hB'.symm.trans hB'')
      exact ho.nodup b B p hB (hp''.symm.trans hp') (by omega)
  disjoint a b h ha hb := ho.disjoint a b h (hl.member ha) (hl.member hb)
  pending_nodup := hnodup
  pending_live := hpending
  pending_free := hfree

/-! ## Pending destructors -/

theorem pending_pop (hs : s.stack = f :: rest) : pending s = f.target.toList ++ pending s.pop := by
  have hpop : s.pop.stack = rest := by simp [State.pop, hs]
  rw [pending, pending, hs, hpop]
  cases hf : f.target <;> simp [hf]

theorem pending_push (fs : List (Frame ι)) :
    pending (s.push fs) = fs.filterMap Frame.target ++ pending s := by
  simp [pending]

theorem target_drop (x : Handle τ P) : (x.drop : List (Frame ι)).filterMap Frame.target = [] := by
  cases hx : x.pb <;> simp [Handle.drop, hx, Frame.target]

theorem target_destruct (hs : List ι) : (hs.map Frame.destruct).filterMap Frame.target = hs := by
  induction hs with
  | nil => rfl
  | cons h hs ih => simp [Frame.target, ih]

/-! ## Releasing -/

/-- `s` is reached from `s₁` by releasing objects: the handles that are gone, or about to be, are
the members of the objects released. -/
structure Releasing (members : P → List ι) (s₁ s : State ι τ P D) : Prop where
  later : Later s₁ s
  sub : ∀ h x, s.handles h = some x → s₁.handles h = some x
  gone : ∀ h, (s₁.handles h).isSome → s.handles h = none →
    ∃ b, Member members s₁ b h ∧ 0 < s.released b
  done : ∀ b h, Member members s₁ b h → 0 < s.released b → h ∈ pending s ∨ s.handles h = none
  due : ∀ h ∈ pending s, ∃ b, Member members s₁ b h ∧ 0 < s.released b

theorem Releasing.refl (hs : pending s₁ = []) : Releasing members s₁ s₁ where
  later := .refl _
  sub _ _ := id
  gone h h1 h2 := by simp [h2] at h1
  done b h hm hr := by
    obtain ⟨B, p, -, -, h0, -⟩ := hm
    omega
  due h hm := by simp [hs] at hm

theorem Releasing.quiet (ho : Objects members s) (hr : Releasing members s₁ s) (hl : Later s s')
    (hlog : s'.log = s.log) (hh : s'.handles = s.handles)
    (hp : pending s' = pending s) :
    Objects members s' ∧ Releasing members s₁ s' := by
  have hrel : ∀ b, s'.released b = s.released b := fun b => by simp [State.released, hlog]
  have hm : ∀ {b h}, Member members s' b h → Member members s b h := hl.member
  refine ⟨ho.later hl (fun b h hb => ?_) ?_ ?_ ?_, ⟨hr.later.trans hl,
    fun h x hx => hr.sub h x (hh ▸ hx), ?_, ?_, ?_⟩⟩
  · rw [hh]
    exact ho.live b h (hm hb)
  · rw [hp]
    exact ho.pending_nodup
  · rw [hp, hh]
    exact ho.pending_live
  · rw [hp]
    exact fun h hmem b hb => ho.pending_free h hmem b (hm hb)
  · intro h h1 h2
    obtain ⟨b, hb, h0⟩ := hr.gone h h1 (hh ▸ h2)
    exact ⟨b, hb, by rwa [hrel]⟩
  · intro b h hb h0
    rw [hp, hh]
    exact hr.done b h hb (by rwa [hrel] at h0)
  · intro h hmem
    obtain ⟨b, hb, h0⟩ := hr.due h (hp ▸ hmem)
    exact ⟨b, hb, by rwa [hrel]⟩

/-- What is reachable in the end was so before. -/
theorem Releasing.reachable_of (hs : pending s = []) (hr : Releasing members s₁ s)
    (hb : Reachable members s b) : Reachable members s₁ b := by
  have hon : ∀ h b, On s h b → On s₁ h b := by
    rintro h b ⟨x, hx, hxb⟩
    exact ⟨x, hr.sub h x hx, hxb⟩
  refine Graph.Reachable.mono (fun a ha => ?_) (fun a b ha he => ?_) hb
  · obtain ⟨h, hoa, hroot⟩ := ha
    refine .root ⟨h, hon h a hoa, fun c hm => ?_⟩
    rcases Nat.eq_zero_or_pos (s.released c) with h0 | hpos
    · exact hroot c (hr.later.member_of_released hm h0)
    · obtain ⟨x, hx, -⟩ := hoa
      rcases hr.done c h hm hpos with hd | hd
      · simp [hs] at hd
      · simp [hd] at hx
  · obtain ⟨h, hm, hob⟩ := he
    exact ⟨h, hr.later.member hm, hon h b hob⟩

variable [DecidableEq ι]

theorem Releasing.destruct (ho : Objects members s) (hr : Releasing members s₁ s)
    (hs : s.stack = .destruct h :: rest) {x : Handle τ P} (hl : Later s s')
    (hs' : s' = (s.pop.set h none).push x.drop) :
    Objects members s' ∧ Releasing members s₁ s' := by
  have hpending : pending s = h :: pending s' := by
    rw [pending_pop hs, hs', pending_push, target_drop]
    rfl
  have hself : s'.handles h = none := by simp [hs', State.push, State.set]
  have hother : ∀ k, k ≠ h → s'.handles k = s.handles k := fun k hk => by
    simp [hs', State.push, State.set, State.pop, Function.update_of_ne hk]
  have hnodup := ho.pending_nodup
  rw [hpending] at hnodup
  have hfree := ho.pending_free h (by simp [hpending])
  have hreleased : s'.released = s.released := by rw [hs']; rfl
  refine ⟨ho.later hl (fun b k hm => ?_) hnodup.of_cons (fun k hk => ?_) fun k hk b hm => ?_,
    ⟨hr.later.trans hl, ?_, ?_, ?_, ?_⟩⟩
  · have hm := hl.member hm
    rw [hother k (fun hk => hfree b (hk ▸ hm))]
    exact ho.live b k hm
  · rw [hother k (fun hkh => (List.nodup_cons.1 hnodup).1 (hkh ▸ hk))]
    exact ho.pending_live k (by simp [hpending, hk])
  · exact ho.pending_free k (by simp [hpending, hk]) b (hl.member hm)
  · intro k y hk
    rcases eq_or_ne k h with rfl | hne
    · simp [hself] at hk
    · exact hr.sub k y (hother k hne ▸ hk)
  · intro k h1 h2
    rw [hreleased]
    rcases eq_or_ne k h with rfl | hne
    · exact hr.due k (by simp [hpending])
    · exact hr.gone k h1 (hother k hne ▸ h2)
  · intro b k hb h0
    rw [hreleased] at h0
    rcases eq_or_ne k h with rfl | hne
    · exact .inr hself
    · rcases hr.done b k hb h0 with hk | hk
      · exact .inl (by simpa [hpending, hne] using hk)
      · exact .inr ((hother k hne).trans hk)
  · intro k hk
    rw [hreleased]
    exact hr.due k (by simp [hpending, hk])

variable [Fintype ι]

theorem Inv.released_dispose (hi : Inv cast s) (hB : s.blocks b = some B)
    (hs : s.stack = .dispose b :: rest) : s.released b = 0 := by
  have hok := hi.counts b
  rw [hB, tally_pop hs] at hok
  simp only [Frame.add, if_true] at hok
  cases hok with
  | present hu hpos hzero =>
    have h0 : (s.pop.tally b).released = s.released b := rfl
    simp only at hpos hzero
    omega

/-- The deleter of a block is called: the members of its object are about to be destroyed. -/
theorem Releasing.dispose (hi : Inv cast s) (ho : Objects members s)
    (hr : Releasing members s₁ s) (hs : s.stack = .dispose b :: rest)
    (hB : s.blocks b = some B) (hl : Later s s')
    (hs' : s' = (s.pop.dispose b B).push
      ((B.p.elim [] members).map .destruct ++ [.dec .weak b])) :
    Objects members s' ∧ Releasing members s₁ s' := by
  have h0 := hi.released_dispose hB hs
  have hmem : ∀ h, h ∈ B.p.elim [] members ↔ Member members s b h := mem_members hB h0
  have hnodup := ho.members_nodup hB h0
  generalize B.p.elim [] members = ms at hs' hmem hnodup
  have hpending : pending s' = ms ++ pending s := by
    rw [pending_pop hs, hs', pending_push, List.filterMap_append, target_destruct]
    simp [Frame.target, pending, State.dispose]
  have hreleased : s'.released b = 1 := by
    have : s'.released b = s.released b + 1 := by
      simp [hs', State.released, State.push, State.dispose, State.pop]
    omega
  have hhandles : s'.handles = s.handles := by rw [hs']; rfl
  have hle : ∀ c, s.released c ≤ s'.released c := fun c => hl.released_le
  have hold : ∀ {c h}, Member members s' c h → Member members s c h ∧ c ≠ b := by
    rintro c h hm
    refine ⟨hl.member hm, ?_⟩
    rintro rfl
    obtain ⟨-, -, -, -, h1, -⟩ := hm
    omega
  have hlive : ∀ h, (s.handles h).isSome → (s'.handles h).isSome := fun h hh => by rwa [hhandles]
  refine ⟨ho.later hl (fun c h hm => hlive h (ho.live c h (hold hm).1)) ?_ ?_ ?_,
    ⟨hr.later.trans hl, by rw [hhandles]; exact hr.sub, ?_, ?_, ?_⟩⟩
  · rw [hpending]
    apply hnodup.append ho.pending_nodup
    intro h h1 h2
    exact ho.pending_free h h2 b ((hmem h).1 h1)
  · rw [hpending]
    intro h hh
    rcases List.mem_append.1 hh with hh | hh
    · exact hlive h (ho.live b h ((hmem h).1 hh))
    · exact hlive h (ho.pending_live h hh)
  · rw [hpending]
    intro h hh c hm
    obtain ⟨hm, hc⟩ := hold hm
    rcases List.mem_append.1 hh with hh | hh
    · exact hc (ho.disjoint c b h hm ((hmem h).1 hh))
    · exact ho.pending_free h hh c hm
  · intro h h1 h2
    rw [hhandles] at h2
    obtain ⟨c, hc, h1⟩ := hr.gone h h1 h2
    exact ⟨c, hc, h1.trans_le (hle c)⟩
  · intro c h hc h1
    rw [hpending, hhandles]
    rcases eq_or_ne c b with rfl | hne
    · exact .inl (List.mem_append_left _ ((hmem h).2 (hr.later.member_of_released hc h0)))
    · have h2 : 0 < s.released c := by
        simpa [hs', State.released, State.push, State.dispose, State.pop, hne.symm] using h1
      rcases hr.done c h hc h2 with hh | hh
      · exact .inl (List.mem_append_right _ hh)
      · exact .inr hh
  · intro h hh
    rw [hpending] at hh
    rcases List.mem_append.1 hh with hh | hh
    · exact ⟨b, hr.later.member ((hmem h).1 hh), by omega⟩
    · obtain ⟨c, hc, h1⟩ := hr.due h hh
      exact ⟨c, hc, h1.trans_le (hle c)⟩

theorem Releasing.step (hi : Inv cast s) (ho : Objects members s) (hr : Releasing members s₁ s)
    (he : s.step members = some s') : Objects members s' ∧ Releasing members s₁ s' := by
  have hl := step_later he
  cases step_spec he with
  | decUse hs hB | decWeak hs hB =>
    apply hr.quiet ho hl rfl rfl
    rw [pending_pop hs, pending_push]
    split <;> rfl
  | dispose hs hB => exact hr.dispose hi ho hs (blocks_of_block hB).1 hl rfl
  | destroy hs hB =>
    apply hr.quiet ho hl rfl rfl
    rw [pending_pop hs]
    rfl
  | destruct hs hx => exact hr.destruct ho hs hl rfl

/-! ## Between operations -/

theorem Heap.alive_of_on (hh : Heap members s cast) (ho : On s h b) : Alive s b := by
  obtain ⟨x, hx, hk, hb⟩ := ho
  obtain ⟨B, hB, -⟩ := hh.inv.block_of_handle hx hb
  exact ⟨⟨B, hB⟩, (hh.present hB).1 (hk ▸ refers_self hx hb)⟩

theorem Heap.exists_on (hh : Heap members s cast) (ha : Alive s b) : ∃ h, On s h b := by
  obtain ⟨⟨B, hB⟩, hr⟩ := ha
  have hpos : 0 < s.count .shared b := by
    have hzero := (hh.present hB).2
    omega
  obtain ⟨h, hpos⟩ := Threads.exists_of_total_pos hpos
  refine ⟨h, ?_⟩
  cases hx : s.handles h with
  | none => simp [hx, refers] at hpos
  | some x =>
    simp only [hx, refers] at hpos
    split at hpos
    · rename_i hxb
      exact ⟨x, hx, hxb⟩
    · simp at hpos

theorem Heap.reachable_alive (hh : Heap members s cast) (hb : Reachable members s b) :
    Alive s b := by
  cases hb with
  | root hr =>
    obtain ⟨h, ho, -⟩ := hr
    exact hh.alive_of_on ho
  | edge _ he =>
    obtain ⟨h, -, ho⟩ := he
    exact hh.alive_of_on ho

theorem Heap.alive_finite (hh : Heap members s cast) : {b | Alive s b}.Finite := by
  apply (Set.finite_lt_nat s.next).subset
  intro b hb
  obtain ⟨⟨B, hB⟩, -⟩ := hb
  by_contra hle
  simp [hh.inv.fresh b (Nat.le_of_not_lt hle)] at hB

/-- No object is kept alive by a cycle if all edges from unreachable objects are acyclic. -/
theorem Heap.reachable (hh : Heap members s cast) {edge : Nat → Nat → Prop}
    (hac : Graph.Acyclic edge)
    (hedge : ∀ a b, Owns members s a b → edge a b ∨ Reachable members s a) (hb : Alive s b) :
    Reachable members s b := by
  refine Graph.reachable_of_pred hac hh.alive_finite (fun b hb => ?_) hedge hb
  obtain ⟨h, ho⟩ := hh.exists_on hb
  by_cases hm : ∃ a, Member members s a h
  · obtain ⟨a, hm⟩ := hm
    exact .inr ⟨a, hm.alive, h, hm, ho⟩
  · exact .inl ⟨h, ho, fun a hm' => hm ⟨a, hm'⟩⟩

/-! ## The end of the release -/

theorem Releasing.reachable (hh : Heap members s cast) (ho : Objects members s₁)
    (hr : Releasing members s₁ s) (hb : Reachable members s₁ b) : Reachable members s b := by
  have hsub : ∀ h, (∀ a, Member members s₁ a h → s.released a = 0) → ∀ b, On s₁ h b → On s h b := by
    rintro h hheld b ⟨x, hx, hxb⟩
    cases hy : s.handles h with
    | none =>
      obtain ⟨a, hm, hpos⟩ := hr.gone h (by simp [hx]) hy
      have := hheld a hm
      omega
    | some y =>
      obtain rfl : x = y := Option.some.inj (hx.symm.trans (hr.sub h y hy))
      exact ⟨x, hy, hxb⟩
  refine Graph.Reachable.mono (fun a ha => ?_) (fun a b ha he => ?_) hb
  · obtain ⟨h, hon, hroot⟩ := ha
    refine .root ⟨h, hsub h (fun c hm => absurd hm (hroot c)) a hon, fun c hm => ?_⟩
    exact hroot c (hr.later.member hm)
  · obtain ⟨h, hm, hon⟩ := he
    have h0 : s.released a = 0 := (hh.reachable_alive ha).2
    refine ⟨h, hr.later.member_of_released hm h0, hsub h (fun c hc => ?_) b hon⟩
    rwa [ho.disjoint c a h hc hm]

/-- The calls on the stack end, and leave exactly the objects that are reachable. -/
theorem release (hi : Inv cast s₁) (ho : Objects members s₁) (hs : pending s₁ = [])
    {edge : Nat → Nat → Prop} (hac : Graph.Acyclic edge)
    (hedge : ∀ a b, Owns members s₁ a b → edge a b ∨ Reachable members s₁ a) :
    ∃ s', (∀ n, s₁.work ≤ n → s₁.run members n = some s') ∧ Heap members s' cast ∧ Later s₁ s' ∧
      (∀ b, Reachable members s' b ↔ Reachable members s₁ b) ∧
      ∀ b, Alive s' b ↔ Reachable members s₁ b := by
  have hprogress : ∀ s : State ι τ P D, (Inv cast s ∧ Objects members s ∧ Releasing members s₁ s) →
      s.stack ≠ [] → ∃ s', s.step members = some s' := by
    rintro s ⟨hi, ho, -⟩ hne
    obtain ⟨f, rest, hs⟩ := List.exists_cons_of_ne_nil hne
    refine hi.progress hs fun h hf => ho.pending_live h ?_
    simp [pending, hs, hf, Frame.target]
  obtain ⟨s', hstack, ⟨hi', ho', hr⟩, hrun⟩ := run_total
    (J := fun s => Inv cast s ∧ Objects members s ∧ Releasing members s₁ s)
    (fun s s' hJ he => ⟨hJ.1.step he, hJ.2.2.step hJ.1 hJ.2.1 he⟩) hprogress ⟨hi, ho, .refl hs⟩
  have hh : Heap members s' cast := ⟨⟨hi', hstack⟩, ho'⟩
  have hpending : pending s' = [] := by simp [pending, hstack]
  have hreach : ∀ b, Reachable members s' b ↔ Reachable members s₁ b := fun b =>
    ⟨hr.reachable_of hpending, hr.reachable hh ho⟩
  refine ⟨s', hrun, hh, hr.later, hreach, fun b => ⟨?_, ?_⟩⟩
  · intro hb
    refine (hreach b).1 (hh.reachable hac (fun a c he => ?_) hb)
    obtain ⟨h, hm, x, hx, hxc⟩ := he
    rcases hedge a c ⟨h, hr.later.member hm, x, hr.sub h x hx, hxc⟩ with he' | ha
    · exact .inl he'
    · exact .inr ((hreach a).2 ha)
  · intro hb
    exact hh.reachable_alive ((hreach b).2 hb)

end SharedPtr
