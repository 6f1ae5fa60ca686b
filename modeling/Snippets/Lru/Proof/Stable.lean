import Snippets.Lru.Proof.InStep
import Snippets.Lru.Proof.Reference

/-!
# How long a node lives

The iterator that the map has for a key changes only when the key is evicted
(`Client.Step.lookup`). Between two touches a key moves back in the recency order by one for each
other key touched (`Recency.Ahead`), so it is not evicted while these are fewer than the capacity
(`Tracks.stays`). With `calls_safe`, `node_stability`.
-/

namespace Lru

open Lts

variable {K V : Type*} [DecidableEq K] {s s' : Client K V} {e : Entry K V} {key : K} {p : Nat}
  {capacity : Nat} {h es : List (Entry K V)}

/-- The number of distinct keys other than `key` that are touched. -/
def othersTouched (key : K) (es : List (Entry K V)) : Nat :=
  ((es.filterMap Entry.touched).filter (· ≠ key)).dedup.length

/-- One call or write later the map has the same iterator for a key, or none. -/
theorem Client.Step.lookup (hs : s.Step e s') (hsafe : Safe s.cache)
    (hl : s.cache.map.lookup key = some p) :
    s'.cache.map.lookup key = some p ∨ s'.cache.map.lookup key = none := by
  cases hs with
  | @get k c' r he =>
    rcases hsafe.get_cases k with ⟨-, hg⟩ | ⟨n, v, -, -, -, hg⟩
    · obtain ⟨rfl, -⟩ : s.cache = c' ∧ none = r := by simpa [hg] using he
      exact .inl hl
    · obtain ⟨rfl, -⟩ : _ = c' ∧ some n = r := by simpa [hg] using he
      exact .inl hl
  | @put k value c' he =>
    rcases hsafe.put_cases k value none with ⟨n, v, -, -, -, hp⟩ | ⟨hk, c₁, hr, hp⟩
    · obtain rfl : _ = c' := by simpa [hp] using he
      exact .inl hl
    · obtain rfl : (c₁.insert k value none).1 = c' :=
        congrArg Prod.fst (Option.some.inj (hp.symm.trans he))
      cases hl' : (c₁.insert k value none).1.map.lookup key with
      | none => exact .inr rfl
      | some n =>
        rcases insert_lookup hl' with hn | ⟨rfl, -, -⟩
        · have := hr.lookup hn
          rw [hl] at this
          cases this
          exact .inl rfl
        · rw [hl] at hk; cases hk
  | @write q value c' _ he =>
    obtain ⟨_, _, rfl⟩ := Option.map_eq_some_iff.1 he
    exact .inl hl

/-! ## Recency -/

theorem othersTouched_append (es es' : List (Entry K V)) :
    othersTouched key es ≤ othersTouched key (es ++ es') := by
  unfold othersTouched
  refine (List.subperm_of_subset (List.nodup_dedup _) fun k hk => ?_).length_le
  rw [List.mem_dedup] at hk ⊢
  rw [List.filterMap_append, List.filter_append]
  exact List.mem_append_left _ hk

/-- Only other keys touched since are before the key. -/
theorem ahead_step (h' : Recency.Ahead key ((es.filterMap Entry.touched).filter (· ≠ key))
    (recentKeys h)) :
    Recency.Ahead key (((es ++ [e]).filterMap Entry.touched).filter (· ≠ key))
      (recentKeys (e :: h)) := by
  rw [List.filterMap_append, List.filter_append]
  unfold recentKeys
  cases he : e.touched with
  | none => exact h'.mono (List.subset_append_left _ _)
  | some k =>
    by_cases hk : k = key
    · subst hk
      exact Recency.ahead_front _ _ _
    · refine (h'.front hk).mono ?_
      intro b hb
      rcases List.mem_cons.1 hb with rfl | hb
      · simp [he, hk]
      · exact List.mem_append_left _ hb

theorem Tracks.lookup_ne_none (ht : Tracks capacity h s)
    (hk : key ∈ (recentKeys h).take capacity) : s.cache.map.lookup key ≠ none := by
  rw [← ht.keys, mem_keys] at hk
  obtain ⟨n, -, v, hn⟩ := hk
  rw [ht.synced n key v hn]
  nofun

/-- The map keeps its iterator for a key while few other keys are touched. -/
theorem Tracks.stays {s₁ : Client K V} (ht : Tracks capacity h s₁)
    (hl : s₁.cache.map.lookup key = some p) (ha : Recency.Ahead key [] (recentKeys h))
    (hr : Run (client K V capacity) s₁ es s) (hn : othersTouched key es < capacity) :
    Tracks capacity (es.reverse ++ h) s ∧ s.cache.map.lookup key = some p ∧
      Recency.Ahead key ((es.filterMap Entry.touched).filter (· ≠ key))
        (recentKeys (es.reverse ++ h)) := by
  induction hr with
  | nil => exact ⟨ht, hl, ha⟩
  | @snoc x y es e _ hs ih =>
    obtain ⟨ht', hl', ha'⟩ := ih (Nat.lt_of_le_of_lt (othersTouched_append _ _) hn)
    have htrack := ht'.step hs
    have hahead := ahead_step (e := e) ha'
    have hrev : (es ++ [e]).reverse ++ h = e :: (es.reverse ++ h) := by simp
    rw [hrev]
    refine ⟨htrack, ?_, hahead⟩
    have hmem := hahead.mem_take (recentKeys_nodup _) hn
    exact (hs.lookup ht'.safe hl').resolve_right (htrack.lookup_ne_none hmem)

/-! ## Node stability -/

/-- A get of a key the map has. -/
theorem Tracks.get_hit (ht : Tracks capacity h s) (hl : s.cache.map.lookup key = some p) :
    (∃ v, s.cache.cells p = some (key, v)) ∧ (∃ s', s.Step (.get key (some p)) s') ∧
      ∀ r s', s.Step (.get key r) s' → r = some p := by
  rcases ht.safe.get_cases key with ⟨hnone, -⟩ | ⟨n, v, hn, -, hcell, hg⟩
  · rw [hl] at hnone; cases hnone
  · obtain rfl : p = n := Option.some.inj (hl.symm.trans hn)
    refine ⟨⟨v, hcell⟩, ⟨_, .get hg⟩, ?_⟩
    intro r s' hs
    cases hs with
    | get he => exact (congrArg Prod.snd (Option.some.inj (hg.symm.trans he))).symm

/-- **Node stability.** After any calls, throwing puts included, every iterator in the map is one
to a node of the list with its key, and no call follows a dangling one. Without exceptions the
pointer a `get` returned is valid, and the one that a later `get` of its key returns, as long
as fewer other keys than the capacity are touched since. -/
theorem node_stability (capacity : Nat) :
    (∀ (ls : List (Call K V)) c, Exec (calls K V capacity) ls c →
      (∀ k n, c.map.lookup k = some n → n ∈ c.list ∧ ∃ v, c.cells n = some (k, v)) ∧
      ∀ call, ∃ c', c.call call = some c') ∧
    ∀ (hs : List (Entry K V)) s, Exec (client K V capacity) hs s →
      ∀ key p s₁, s.Step (.get key (some p)) s₁ →
      ∀ es s₂, Run (client K V capacity) s₁ es s₂ → othersTouched key es < capacity →
        (∃ v, s₂.cache.cells p = some (key, v)) ∧ (∃ s₃, s₂.Step (.get key (some p)) s₃) ∧
          ∀ r s₃, s₂.Step (.get key r) s₃ → r = some p := by
  refine ⟨fun ls c h => ?_, fun hs s h key p s₁ hget es s₂ hr hn => ?_⟩
  · have hsafe := calls_safe h
    refine ⟨fun k n hl => ?_, fun call => ?_⟩
    · obtain ⟨v, hv⟩ := hsafe.map k n hl
      exact ⟨hsafe.mem hv, v, hv⟩
    · obtain ⟨c', he, -⟩ := hsafe.call call
      exact ⟨c', he⟩
  · have ht := client_tracks h
    have ht₁ := ht.step hget
    have hl : s₁.cache.map.lookup key = some p := by
      cases hget with
      | @get _ c' _ he =>
        rcases ht.safe.get_cases key with ⟨-, hg⟩ | ⟨n, v, hn, -, -, hg⟩
        · rw [hg] at he; cases he
        · rw [hg] at he
          cases he
          exact hn
    obtain ⟨ht₂, hl₂, -⟩ := ht₁.stays hl (Recency.ahead_front _ _ _) hr hn
    exact ht₂.get_hit hl₂

/-- Capacity 2: a throwing put leaves no dangling iterator, and a pointer outlives the updates of
its key and any touches of one other key. -/
theorem node_stability_two :
    (∃ c, Exec (calls Nat Nat 2) [.put 1 10 (some .insertMap)] c ∧
      ∀ call, ∃ c', c.call call = some c') ∧
    ∃ s₁ s₂, Run (client Nat Nat 2) s₁ [.put 2 20, .put 1 11, .get 2 (some 1), .put 2 21] s₂ ∧
      ∃ v, s₂.cache.cells 0 = some (1, v) := by
  have h0 : Exec (calls Nat Nat 2) [] (.empty Nat Nat 2) := .init rfl
  have h1 := h0.snoc (show Cache.call _ (.put 1 10 (some .insertMap)) = some _ from rfl)
  have g0 : Exec (client Nat Nat 2) [] ⟨.empty Nat Nat 2, []⟩ := .init ⟨rfl, rfl⟩
  have g1 : Exec (client Nat Nat 2) _ ⟨((Cache.empty Nat Nat 2).insert 1 10 none).1, []⟩ :=
    g0.snoc (.put (show Cache.put _ 1 10 none = some (_, .returned) from rfl))
  have hget : Client.Step ⟨((Cache.empty Nat Nat 2).insert 1 10 none).1, []⟩ (.get 1 (some 0))
      ⟨((Cache.empty Nat Nat 2).insert 1 10 none).1, [0]⟩ := .get rfl
  have r0 : Run (client Nat Nat 2) ⟨((Cache.empty Nat Nat 2).insert 1 10 none).1, [0]⟩ [] _ :=
    .nil _
  have r1 := r0.snoc (.put (show Cache.put _ 2 20 none = some (_, .returned) from rfl))
  have r2 := r1.snoc (.put (show Cache.put _ 1 11 none = some (_, .returned) from rfl))
  have r3 := r2.snoc (.get (show Cache.get _ 2 = some (_, some 1) from rfl))
  have r4 := r3.snoc (.put (show Cache.put _ 2 21 none = some (_, .returned) from rfl))
  exact ⟨⟨_, h1, ((node_stability 2).1 _ _ h1).2⟩,
    ⟨_, _, r4, ((node_stability 2).2 _ _ g1 1 0 _ hget _ _ r4 (by decide)).1⟩⟩

end Lru
