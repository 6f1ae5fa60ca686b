import Snippets.Lru.Proof.Alias

/-!
# What a put that throws leaves

`put` evicts before it inserts, so that the list is never longer than the capacity. When the
insertion throws, what was evicted to make room is gone (`Room.cached`), and nothing else has
changed: the new key is not in the map and the other keys keep their nodes (`failed_put`).
-/

namespace Lru

open Lts

variable {K V : Type*} [DecidableEq K] {c c₁ : Cache K V} {key k : K} {value v : V}
  {throwAt : Option PutThrow} {s s' : Client K V} {capacity : Nat}

/-- What is cached is what `get` gives a pointer to. -/
theorem Safe.cached_iff_get (h : Safe c) : c.cached key = some v ↔
    ∃ c' p, c.get key = some (c', some p) ∧ c'.cells p = some (key, v) := by
  unfold Cache.cached
  rcases h.get_cases key with ⟨hl, hg⟩ | ⟨n, w, hl, -, hn, hg⟩
  · simp [hl, hg]
  · simp [hl, hg, hn]

/-- Making room takes the victim out of the cache, if there is one, and no other key. -/
theorem Room.cached (h : Safe c) (hr : Room c c₁) (k : K) :
    c₁.cached k = if c.victim = some k then none else c.cached k := by
  cases hr with
  | free hlt => simp [Cache.victim, Nat.not_le_of_lt hlt]
  | @evict init n k' w hcap hl hn =>
    have hvictim : c.victim = some k' := by
      unfold Cache.victim
      rw [if_pos (Nat.le_of_eq hcap.symm), hl]
      simp [hn]
    rw [hvictim]
    by_cases hk : k' = k
    · subst hk
      simp [Cache.cached]
    · rw [if_neg fun he => hk (Option.some.inj he)]
      unfold Cache.cached
      rw [AList.lookup_erase_ne (Ne.symm hk)]
      cases hm : c.map.lookup k with
      | none => rfl
      | some m =>
        have hne : m ≠ n := by
          rintro rfl
          obtain ⟨u, hu⟩ := h.map k m hm
          exact hk (congrArg Prod.fst (Option.some.inj (hn.symm.trans hu)))
        simp [Function.update_of_ne hne]

theorem Safe.insert_threw (h : Safe c) (ht : (c.insert key value throwAt).2 = .threw) (k : K) :
    (c.insert key value throwAt).1.cached k = c.cached k := by
  have hmap : (c.insert key value throwAt).1.map = c.map := by
    cases throwAt with
    | none => cases ht
    | some t => cases t <;> rfl
  unfold Cache.cached
  rw [hmap]
  cases hm : c.map.lookup k with
  | none => rfl
  | some m =>
    have hne : m ≠ c.next := by
      rintro rfl
      obtain ⟨u, hu⟩ := h.map k _ hm
      rw [h.fresh_cell] at hu
      cases hu
    simp only [Option.bind_some, insert_cells hne]

/-- **A put that throws costs the entry it evicted and nothing else.** After any calls and writes,
let a `put` exit by an exception while it builds or inserts the new entry. Its key was not cached
and is not; every key but the victim, the last of a full list, is cached with the value it had; the
victim is not cached any more. -/
theorem failed_put {us : List (Use K V)} (h : Exec (users K V capacity) us s) {ref : KeyRef K V}
    (hk : s.cache.readKey ref = some key) (hs : s.Act (.put ref value throwAt .threw) s') :
    s.cache.cached key = none ∧ s'.cache.cached key = none ∧
      (∀ k, s.cache.victim ≠ some k → s'.cache.cached k = s.cache.cached k) ∧
      ∀ k, s.cache.victim = some k → s'.cache.cached k = none := by
  have hsafe := users_safe h
  cases hs with
  | @put _ _ _ _ c' _ hp =>
    obtain ⟨key', hk', hput⟩ := hsafe.putRef_some hp
    obtain rfl : key = key' := Option.some.inj (hk.symm.trans hk')
    rcases hsafe.put_cases key value throwAt with ⟨n, v, -, -, -, he⟩ | ⟨hl, c₁, hr, he⟩
    · -- an update does not throw
      rw [hput] at he
      cases he
    · have hins : c₁.insert key value throwAt = (c', .threw) :=
        Option.some.inj (he.symm.trans hput)
      have hkeep : ∀ k, c'.cached k =
          if s.cache.victim = some k then none else s.cache.cached k := by
        intro k
        have := (hsafe.room hr).1.insert_threw (congrArg Prod.snd hins) k
        rw [hins] at this
        exact this.trans (hr.cached hsafe k)
      have hnone : s.cache.cached key = none := by simp [Cache.cached, hl]
      refine ⟨hnone, ?_, fun k hv => ?_, fun k hv => ?_⟩
      · show c'.cached key = none
        rw [hkeep, hnone, ite_self]
      · exact (hkeep k).trans (if_neg hv)
      · exact (hkeep k).trans (if_pos hv)

/-- The node for 3 cannot be allocated: 1 is gone, 2 is still there. -/
theorem failed_put_full : ∃ (us : List (Use Nat Nat)) (s s' : Client Nat Nat),
    Exec (users Nat Nat 2) us s ∧ s.Act (.put (.copy 3) 30 (some .allocNode) .threw) s' ∧
      s'.cache.cached 3 = none ∧ s'.cache.cached 2 = some 20 := by
  have h0 : Exec (users Nat Nat 2) [] ⟨.empty Nat Nat 2, []⟩ := .init ⟨rfl, rfl⟩
  have h1 := h0.snoc (.put (fun _ hn => by cases hn)
    (show Cache.putRef _ (.copy 1) 10 none = some (_, .returned) from rfl))
  have h2 := h1.snoc (.put (fun _ hn => by cases hn)
    (show Cache.putRef _ (.copy 2) 20 none = some (_, .returned) from rfl))
  obtain ⟨us, s, c', h, hp, hvictim, hcached⟩ : ∃ us s c', Exec (users Nat Nat 2) us s ∧
      s.cache.putRef (.copy 3) 30 (some .allocNode) = some (c', .threw) ∧
      s.cache.victim = some 1 ∧ s.cache.cached 2 = some 20 := ⟨_, _, _, h2, rfl, rfl, rfl⟩
  have hs : s.Act (.put (.copy 3) 30 (some .allocNode) .threw) { s with cache := c' } :=
    .put (fun _ hn => by cases hn) hp
  obtain ⟨-, hkey, hothers, -⟩ := failed_put h rfl hs
  exact ⟨us, s, _, h, hs, hkey, (hothers 2 (by simp [hvictim])).trans hcached⟩

/-- A full cache: 1 is dropped for 2, and 2 is never inserted. -/
theorem failed_put_drops : ∃ (us : List (Use Nat Nat)) (s s' : Client Nat Nat),
    Exec (users Nat Nat 1) us s ∧ s.Act (.put (.copy 2) 20 (some .allocNode) .threw) s' ∧
      s.cache.cached 1 = some 10 ∧ s'.cache.cached 1 = none := by
  have h0 : Exec (users Nat Nat 1) [] ⟨.empty Nat Nat 1, []⟩ := .init ⟨rfl, rfl⟩
  have h1 := h0.snoc (.put (fun _ hn => by cases hn)
    (show Cache.putRef _ (.copy 1) 10 none = some (_, .returned) from rfl))
  refine ⟨_, _, _, h1, .put (fun _ hn => by cases hn)
    (show Cache.putRef _ _ _ _ = some (_, .threw) from rfl), rfl, rfl⟩

end Lru
