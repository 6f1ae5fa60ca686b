import Snippets.Lru.Proof.Reference

/-!
# A larger cache holds what a smaller one holds

The recency orders of two caches that get the same calls differ, since a `get` that only the
larger one answers touches the key there only. But the keys of the smaller one stay a sublist of
the keys of the larger one, and it is full unless it has them all (`Recency.Inside`): kept by a
get (`Twin.get`) and by a put (`Twin.put`). From that, `inclusion`.
-/

namespace Lru

open Lts

variable {K V : Type*} [DecidableEq K] {c₁ c₂ : Nat} {h₁ h₂ h : List (Entry K V)}
  {s₁ s₂ s₁' s₂' s s' : Client K V} {key : K} {value : V} {capacity : Nat}

/-- Two caches with the histories of their calls, which differ in the answers only. -/
structure Twin (c₁ c₂ : Nat) (h₁ h₂ : List (Entry K V)) (s₁ s₂ : Client K V) : Prop where
  left : Tracks c₁ h₁ s₁
  right : Tracks c₂ h₂ s₂
  values : ∀ k, lastValue k h₁ = lastValue k h₂
  inside : Recency.Inside c₁ ((recentKeys h₁).take c₁) ((recentKeys h₂).take c₂)

/-- A get hits when the key is cached. -/
theorem Tracks.get_isSome (ht : Tracks capacity h s) {r : Option Nat}
    (hs : s.Step (.get key r) s') : r.isSome ↔ key ∈ (recentKeys h).take capacity := by
  cases hs with
  | get he =>
    rcases ht.safe.get_cases key with ⟨hl, hg⟩ | ⟨n, v, -, -, hn, hg⟩
    · obtain rfl : none = r := congrArg Prod.snd (Option.some.inj (hg.symm.trans he))
      rw [← ht.keys]
      exact iff_of_false nofun (ht.synced.notMem_keys hl)
    · obtain rfl : some n = r := congrArg Prod.snd (Option.some.inj (hg.symm.trans he))
      exact iff_of_true rfl (ht.mem_recent hn)

theorem Twin.get (h : Twin c₁ c₂ h₁ h₂ s₁ s₂) {r₁ r₂ : Option Nat}
    (hs₁ : s₁.Step (.get key r₁) s₁') (hs₂ : s₂.Step (.get key r₂) s₂') :
    Twin c₁ c₂ (.get key r₁ :: h₁) (.get key r₂ :: h₂) s₁' s₂' := by
  have hhit₁ := h.left.get_isSome hs₁
  have hhit₂ := h.right.get_isSome hs₂
  refine ⟨h.left.step hs₁, h.right.step hs₂, h.values, ?_⟩
  cases r₁ with
  | none =>
    cases r₂ with
    | none => exact h.inside
    | some p =>
      -- found in the larger cache only
      have hmem := hhit₂.1 rfl
      rw [recentKeys_get_some, Recency.take_front_of_mem hmem]
      exact h.inside.front_right (fun hm => nomatch hhit₁.2 hm) hmem
  | some p =>
    have hmem := hhit₁.1 rfl
    have hmem' := h.inside.sublist.subset hmem
    cases r₂ with
    | none => exact nomatch hhit₂.2 hmem'
    | some q =>
      rw [recentKeys_get_some, recentKeys_get_some, Recency.take_front_of_mem hmem,
        Recency.take_front_of_mem hmem']
      exact h.inside.front hmem

theorem Twin.put (h : Twin c₁ c₂ h₁ h₂ s₁ s₂) (hle : c₁ ≤ c₂)
    (hs₁ : s₁.Step (.put key value) s₁') (hs₂ : s₂.Step (.put key value) s₂') :
    Twin c₁ c₂ (.put key value :: h₁) (.put key value :: h₂) s₁' s₂' := by
  have hpos : 0 < c₁ := h.left.bounded ▸ h.left.safe.pos
  refine ⟨h.left.step hs₁, h.right.step hs₂, fun k => ?_, h.inside.use hpos hle key⟩
  rw [lastValue_put, lastValue_put, h.values]

/-! ## Runs -/

/-- A call of the cache is a step of a client. -/
theorem Tracks.client_step (ht : Tracks capacity h s) {r : Request K V} {c' : Cache K V}
    (hc : s.cache.call r.call = some c') : ∃ e s', s.Step e s' ∧ s'.cache = c' ∧
      match r with
      | .get key => ∃ p, e = .get key p
      | .put key value => e = .put key value := by
  cases r with
  | get key =>
    obtain ⟨⟨_, p⟩, he, rfl⟩ := Option.map_eq_some_iff.1 hc
    exact ⟨_, _, .get he, rfl, p, rfl⟩
  | put key value =>
    obtain ⟨⟨_, exit⟩, he, rfl⟩ := Option.map_eq_some_iff.1 hc
    have hexit : exit = .returned := by
      rcases ht.safe.put_cases key value none with ⟨n, v, -, -, -, hp⟩ | ⟨-, c, -, hp⟩
      · exact congrArg Prod.snd (Option.some.inj (he.symm.trans hp))
      · exact congrArg Prod.snd (Option.some.inj (he.symm.trans hp))
    subst hexit
    exact ⟨_, _, .put he, rfl, rfl⟩

theorem twin_inside (hle : c₁ ≤ c₂) {rs : List (Request K V)} {t : Cache K V × Cache K V}
    (h : Exec (twin K V c₁ c₂) rs t) :
    ∃ h₁ h₂ s₁ s₂, Twin c₁ c₂ h₁ h₂ s₁ s₂ ∧ s₁.cache = t.1 ∧ s₂.cache = t.2 := by
  refine h.invariant (I := fun t => ∃ h₁ h₂ s₁ s₂, Twin c₁ c₂ h₁ h₂ s₁ s₂ ∧ s₁.cache = t.1 ∧
    s₂.cache = t.2) (fun t h0 => ?_) fun t r t' hi hs => ?_
  · exact ⟨[], [], ⟨t.1, []⟩, ⟨t.2, []⟩,
      ⟨.init ⟨h0.1, rfl⟩, .init ⟨h0.2, rfl⟩, fun _ => rfl,
        ⟨by simp [recentKeys], by simp [recentKeys]⟩⟩,
      rfl, rfl⟩
  · obtain ⟨h₁, h₂, s₁, s₂, ht, he₁, he₂⟩ := hi
    obtain ⟨hc₁, hc₂⟩ := hs
    rw [← he₁] at hc₁
    rw [← he₂] at hc₂
    obtain ⟨e₁, s₁', hs₁, hs₁', hr₁⟩ := ht.left.client_step hc₁
    obtain ⟨e₂, s₂', hs₂, hs₂', hr₂⟩ := ht.right.client_step hc₂
    cases r with
    | get key =>
      obtain ⟨p, rfl⟩ := hr₁
      obtain ⟨q, rfl⟩ := hr₂
      exact ⟨_, _, s₁', s₂', ht.get hs₁ hs₂, hs₁', hs₂'⟩
    | put key value =>
      cases hr₁
      cases hr₂
      exact ⟨_, _, s₁', s₂', ht.put hle hs₁ hs₂, hs₁', hs₂'⟩

/-- A cell of the smaller cache has its counterpart in the larger one. -/
theorem Twin.cell (h : Twin c₁ c₂ h₁ h₂ s₁ s₂) {n : Nat}
    (hn : s₁.cache.cells n = some (key, value)) :
    ∃ m, s₂.cache.map.lookup key = some m ∧ m ∈ s₂.cache.list ∧
      s₂.cache.cells m = some (key, value) := by
  have hmem := h.inside.sublist.subset (h.left.mem_recent hn)
  rw [← h.right.keys, mem_keys] at hmem
  obtain ⟨m, hm, w, hw⟩ := hmem
  have hval : value = w := by
    have h1 := h.left.value n key value hn
    rw [h.values, h.right.value m key w hw] at h1
    exact (Option.some.inj h1).symm
  exact ⟨m, h.right.synced m key w hw, hm, hval ▸ hw⟩

/-- **Inclusion.** Of two caches that got the same calls, the larger one holds whatever the smaller
one holds, with the same value, and a `get` that hits in the smaller one hits in the larger one
with the same value. -/
theorem inclusion (hle : c₁ ≤ c₂) {rs : List (Request K V)} {t : Cache K V × Cache K V}
    (h : Exec (twin K V c₁ c₂) rs t) :
    (∀ key value, (key, value) ∈ t.1.contents → (key, value) ∈ t.2.contents) ∧
      ∀ key c' p, t.1.get key = some (c', some p) → ∃ d' q value,
        t.2.get key = some (d', some q) ∧ c'.cells p = some (key, value) ∧
          d'.cells q = some (key, value) := by
  obtain ⟨h₁, h₂, s₁, s₂, ht, he₁, he₂⟩ := twin_inside hle h
  rw [← he₁, ← he₂]
  refine ⟨?_, ?_⟩
  · intro key value hm
    obtain ⟨n, -, hn⟩ := List.mem_filterMap.1 hm
    obtain ⟨m, -, hm, hcell⟩ := ht.cell hn
    exact List.mem_filterMap.2 ⟨m, hm, hcell⟩
  · intro key c' p hget
    rcases ht.left.safe.get_cases key with ⟨-, hg⟩ | ⟨n, v, -, -, hn, hg⟩
    · rw [hg] at hget; cases hget
    · rw [hg] at hget
      cases hget
      obtain ⟨m, hl, -, hcell⟩ := ht.cell hn
      rcases ht.right.safe.get_cases key with ⟨hnone, -⟩ | ⟨q, w, hq, -, hw, hg'⟩
      · rw [hl] at hnone; cases hnone
      · obtain rfl : m = q := Option.some.inj (hl.symm.trans hq)
        exact ⟨_, m, v, hg', hn, hcell⟩

/-- Capacities 1 and 2: the larger cache answers a get that the smaller one does not, and still
holds what the smaller one holds. -/
theorem inclusion_one_two : ∃ t,
    Exec (twin Nat Nat 1 2) [.put 1 10, .put 2 20, .get 1, .put 3 30] t ∧
    t.1.contents = [(3, 30)] ∧ t.2.contents = [(3, 30), (1, 10)] ∧
      ∀ key value, (key, value) ∈ t.1.contents → (key, value) ∈ t.2.contents := by
  have h0 : Exec (twin Nat Nat 1 2) [] (.empty Nat Nat 1, .empty Nat Nat 2) := .init ⟨rfl, rfl⟩
  have step : ∀ {rs t}, Exec (twin Nat Nat 1 2) rs t → ∀ r t₁ t₂, t.1.call r.call = some t₁ →
      t.2.call r.call = some t₂ → Exec (twin Nat Nat 1 2) (rs ++ [r]) (t₁, t₂) :=
    fun h _ _ _ h1 h2 => h.snoc ⟨h1, h2⟩
  have h2 := step (step h0 (.put 1 10) _ _ rfl rfl) (.put 2 20) _ _ rfl rfl
  have h4 := step (step h2 (.get 1) _ _ rfl rfl) (.put 3 30) _ _ rfl rfl
  exact ⟨_, h4, rfl, rfl, (inclusion (by decide) h4).1⟩

end Lru
