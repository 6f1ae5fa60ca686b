import Snippets.Lib.Paging
import Snippets.Lru.Proof.Inclusion

/-!
# The cache misses little more than any other one

A caller that fills the cache on a miss (`fetches`), next to any other cache that serves the same
requests: what it keeps may depend on requests still to come, and it may load anything at any time.
`Tracks.fetch`: a fetch moves the cached keys as `Paging.lru` does and hits when the key is cached.
With the potential of `Paging.lru_step` as invariant (`fetches_charged`), the misses are bounded by
what the other cache loads (`competitive`).
-/

namespace Lru

open Lts Paging

variable {K V : Type*} [DecidableEq K] {capacity b : Nat} {c c' : Cache K V} {key : K} {value : V}
  {hit : Bool}

/-- A fetch is a get, or a get that finds nothing and a put. -/
theorem Safe.fetch_cases (h : Safe c) (key : K) (value : V) :
    (∃ c' n, c.get key = some (c', some n) ∧ c.fetch key value = some (c', true)) ∨
      ∃ c', c.get key = some (c, none) ∧ c.put key value none = some (c', .returned) ∧
        c.fetch key value = some (c', false) := by
  unfold Cache.fetch
  rcases h.get_cases key with ⟨hl, hg⟩ | ⟨n, v, hl, hm, hn, hg⟩
  · rcases h.put_cases key value none with ⟨n, v, hl', -⟩ | ⟨-, c₁, -, hp⟩
    · rw [hl] at hl'
      cases hl'
    · refine .inr ⟨_, hg, hp, ?_⟩
      simp only [hg, hp, Option.bind_some, Option.map_some]
      rfl
  · refine .inl ⟨_, n, hg, ?_⟩
    rw [hg, Option.bind_some]

theorem Tracks.fetch {h : List (Entry K V)} {s : Client K V} (ht : Tracks capacity h s)
    (hf : s.cache.fetch key value = some (c', hit)) :
    (∃ h' s', Tracks capacity h' s' ∧ s'.cache = c') ∧
      (hit = true ↔ key ∈ s.cache.keys) ∧ c'.keys = lru capacity key s.cache.keys := by
  have hpos : 0 < capacity := ht.bounded ▸ ht.safe.pos
  rw [ht.keys, ← take_front hpos]
  rcases ht.safe.fetch_cases key value with ⟨c₁, n, hg, he⟩ | ⟨c₁, hg, hp, he⟩
  · rw [he] at hf
    cases hf
    have hmem := (ht.get_isSome (.get hg)).1 rfl
    have ht' := ht.get hg
    exact ⟨⟨_, _, ht', rfl⟩, iff_of_true rfl hmem, ht'.keys⟩
  · rw [he] at hf
    cases hf
    have hmem := mt (ht.get_isSome (.get hg)).2 nofun
    have ht' := ht.step (.put hp)
    exact ⟨⟨_, _, ht', rfl⟩, iff_of_false nofun hmem, ht'.keys⟩

/-! ## Runs -/

/-- A cache reached by calls, and what it has been charged for against another cache. -/
structure Charged (capacity b : Nat) (held : Nat → Finset K) (fs : List (Fetch K V))
    (c : Cache K V) : Prop where
  tracks : ∃ h s, Tracks capacity h s ∧ s.cache = c
  charged : (capacity + 1 - b) * misses fs + potential (held fs.length) c.keys +
      capacity * (held fs.length).card ≤
    capacity * ((held 0).card + loads held fs.length) + (capacity + 1 - b) * c.keys.length

omit [DecidableEq K] in
theorem misses_snoc (fs : List (Fetch K V)) (f : Fetch K V) :
    misses (fs ++ [f]) = misses fs + if f.hit then 0 else 1 := by
  unfold misses
  rw [List.countP_append, List.countP_singleton]
  cases f.hit <;> rfl

/-- The other cache serves the fetches: it holds `b` elements at most, and the requested one. -/
def Serves (b : Nat) (held : Nat → Finset K) (fs : List (Fetch K V)) : Prop :=
  ∀ i f, fs[i]? = some f → f.key ∈ held (i + 1) ∧ (held (i + 1)).card ≤ b

omit [DecidableEq K] in
theorem Serves.init {held : Nat → Finset K} {fs : List (Fetch K V)} {f : Fetch K V}
    (h : Serves b held (fs ++ [f])) : Serves b held fs := by
  intro i g hg
  obtain ⟨hlt, -⟩ := List.getElem?_eq_some_iff.1 hg
  exact h i g (by rw [List.getElem?_append_left hlt]; exact hg)

theorem Charged.fetch {held : Nat → Finset K} {fs : List (Fetch K V)} {f : Fetch K V}
    (h : Charged capacity b held fs c) (hserves : Serves b held (fs ++ [f]))
    (hf : c.fetch f.key f.value = some (c', f.hit)) : Charged capacity b held (fs ++ [f]) c' := by
  obtain ⟨hist, s, ht, rfl⟩ := h.tracks
  obtain ⟨htracks, hhit, hkeys⟩ := ht.fetch hf
  refine ⟨htracks, ?_⟩
  have hpos : 0 < capacity := ht.bounded ▸ ht.safe.pos
  have hnodup : s.cache.keys.Nodup :=
    ht.keys ▸ (recentKeys_nodup hist).sublist (List.take_sublist _ _)
  have hlen : s.cache.keys.length ≤ capacity := ht.keys ▸ List.length_take_le _ _
  obtain ⟨hmem, hcard⟩ := hserves fs.length f List.getElem?_concat_length
  have hmove := potential_move (held fs.length) (held (fs.length + 1)) hnodup hlen
  have hstep := lru_step hnodup hlen hpos hmem hcard
  have hcharged := h.charged
  have hmiss : (if f.hit then 0 else 1) = if f.key ∈ s.cache.keys then 0 else 1 :=
    if_congr hhit rfl rfl
  rw [misses_snoc, hmiss, hkeys, List.length_append, List.length_singleton, loads_succ]
  simp only [Nat.mul_add] at hcharged hmove hstep ⊢
  omega

end Lru
