import Mathlib.Data.List.Perm.Subperm
import Snippets.Lru.System

/-!
# The list and the map of the cache

`Lru.Safe`: what every sequence of calls keeps, also with puts that throw: the nodes of the list
are the live cells and an iterator in the map is one to a node with its key. `Lru.Synced`: each
node is the one the map has for its key. Calls of a safe cache return and leave it safe
(`Safe.get_cases`, `Safe.put_cases`, `Safe.call`).
-/

namespace Lru

open Lts

variable {K V : Type*} [DecidableEq K] {c c₁ c' : Cache K V} {key k : K} {value v : V} {n p : Nat}
  {throwAt : Option PutThrow}

/-- The list holds the live nodes, the map has iterators to nodes with the right key. -/
structure Safe (c : Cache K V) : Prop where
  nodup : c.list.Nodup
  live : ∀ n, n ∈ c.list ↔ (c.cells n).isSome
  fresh : ∀ n ∈ c.list, n < c.next
  map : ∀ k n, c.map.lookup k = some n → ∃ v, c.cells n = some (k, v)
  bound : c.list.length ≤ c.capacity
  pos : 0 < c.capacity

/-- Every node is the one the map has for its key. -/
def Synced (c : Cache K V) : Prop :=
  ∀ n k v, c.cells n = some (k, v) → c.map.lookup k = some n

theorem Safe.mem (h : Safe c) (hn : c.cells n = some (k, v)) : n ∈ c.list :=
  (h.live n).2 (by simp [hn])

theorem Safe.cell (h : Safe c) (hn : n ∈ c.list) : ∃ k v, c.cells n = some (k, v) := by
  obtain ⟨⟨k, v⟩, hc⟩ := Option.isSome_iff_exists.1 ((h.live n).1 hn)
  exact ⟨k, v, hc⟩

theorem Safe.fresh_cell (h : Safe c) : c.cells c.next = none := by
  by_contra hne
  exact Nat.lt_irrefl _ (h.fresh _ ((h.live _).2 (Option.isSome_iff_ne_none.2 hne)))

omit [DecidableEq K] in
theorem mem_keys : k ∈ c.keys ↔ ∃ n ∈ c.list, ∃ v, c.cells n = some (k, v) := by
  simp [Cache.keys]

theorem Safe.keys_length (h : Safe c) : c.keys.length = c.list.length :=
  List.filterMap_length_eq_length.2 fun n hn => by simpa using (h.live n).1 hn

/-! ## The operations keep `Safe` -/

theorem Safe.create {capacity : Nat} (hc : Cache.create K V capacity = .ok c) :
    Safe c ∧ Synced c ∧ c.capacity = capacity := by
  unfold Cache.create at hc
  split at hc
  · cases hc
  · rename_i hpos
    cases hc
    refine ⟨⟨by simp [Cache.empty], by simp [Cache.empty], by simp [Cache.empty], ?_,
      by simp [Cache.empty], Nat.pos_of_ne_zero hpos⟩, by simp [Synced, Cache.empty], rfl⟩
    simp [Cache.empty]

theorem Safe.splice (h : Safe c) (hn : n ∈ c.list) :
    Safe { c with list := Recency.front n c.list } where
  nodup := Recency.nodup_front h.nodup
  live m := by rw [← h.live m, (Recency.front_perm hn).mem_iff]
  fresh m hm := h.fresh m ((Recency.front_perm hn).mem_iff.1 hm)
  map := h.map
  bound := Nat.le_trans (Nat.le_of_eq (Recency.length_front hn)) h.bound
  pos := h.pos

theorem Safe.assign (h : Safe c) (hn : c.cells n = some (key, v)) :
    Safe { c with cells := Function.update c.cells n (some (key, value)) } := by
  refine { h with live := fun m => ?_, map := fun k m hm => ?_ }
  · rcases eq_or_ne m n with rfl | hne
    · simpa using h.mem hn
    · simpa [Function.update_of_ne hne] using h.live m
  · obtain ⟨w, hw⟩ := h.map k m hm
    rcases eq_or_ne m n with rfl | hne
    · rw [hn] at hw
      cases hw
      exact ⟨value, by simp⟩
    · exact ⟨w, by simpa [Function.update_of_ne hne] using hw⟩

theorem Safe.evict {init : List Nat} (h : Safe c) (hl : c.list = init ++ [n])
    (hn : c.cells n = some (key, v)) :
    Safe { c with
      map := c.map.erase key, list := init, cells := Function.update c.cells n none } := by
  obtain ⟨hnodup, -, hdisj⟩ := List.nodup_append.1 (hl ▸ h.nodup)
  have hmem : ∀ m, m ∈ c.list ↔ m ∈ init ∨ m = n := by simp [hl]
  refine ⟨hnodup, ?_, fun m hm => h.fresh m ((hmem m).2 (.inl hm)), ?_, ?_, h.pos⟩
  · intro m
    rcases eq_or_ne m n with rfl | hne
    · simpa using fun hm => hdisj m hm m (by simp) rfl
    · simp [← h.live m, hmem, hne]
  · intro k m hm
    have hk : k ≠ key := by
      rintro rfl
      simp at hm
    obtain ⟨w, hw⟩ := h.map k m (by rwa [AList.lookup_erase_ne hk] at hm)
    rcases eq_or_ne m n with rfl | hne
    · exact absurd (congrArg Prod.fst (Option.some.inj (hw.symm.trans hn))) hk
    · exact ⟨w, by simpa [Function.update_of_ne hne] using hw⟩
  · have hb := h.bound
    simp only [hl, List.length_append, List.length_singleton] at hb
    exact Nat.le_of_succ_le hb

theorem Safe.pushFront (h : Safe c) (hroom : c.list.length < c.capacity) :
    Safe (c.pushFront key value) := by
  have hnext : c.next ∉ c.list := fun hm => Nat.lt_irrefl _ (h.fresh _ hm)
  refine ⟨List.nodup_cons.2 ⟨hnext, h.nodup⟩, ?_, ?_, ?_, hroom, h.pos⟩
  · intro m
    rcases eq_or_ne m c.next with rfl | hne
    · simp [Cache.pushFront]
    · simp [Cache.pushFront, hne, h.live m]
  · intro m hm
    rcases List.mem_cons.1 hm with rfl | hm
    · exact Nat.lt_succ_self _
    · exact Nat.lt_succ_of_lt (h.fresh m hm)
  · intro k m hm
    obtain ⟨w, hw⟩ := h.map k m hm
    have hne : m ≠ c.next := by
      rintro rfl
      simp [h.fresh_cell] at hw
    exact ⟨w, by simpa [Cache.pushFront, Function.update_of_ne hne] using hw⟩

theorem Safe.mapInsert (h : Safe c) (hn : c.cells n = some (key, v)) :
    Safe { c with map := c.map.insert key n } := by
  refine { h with map := fun k m hm => ?_ }
  by_cases hk : k = key
  · subst hk
    obtain rfl : n = m := by simpa using hm
    exact ⟨v, hn⟩
  · exact h.map k m (by rwa [AList.lookup_insert_ne hk] at hm)

theorem Safe.insert (h : Safe c) (hroom : c.list.length < c.capacity) :
    Safe (c.insert key value throwAt).1 := by
  cases throwAt with
  | none => exact (h.pushFront hroom).mapInsert (v := value) (by simp [Cache.pushFront])
  | some t =>
    cases t with
    | buildPair | allocNode => exact h
    | insertMap => exact h.pushFront hroom

/-! ## The operations keep `Synced` -/

theorem Synced.assign (h : Synced c) (hn : c.cells n = some (key, v)) :
    Synced { c with cells := Function.update c.cells n (some (key, value)) } := by
  intro m k w hm
  rcases eq_or_ne m n with rfl | hne
  · obtain ⟨rfl, rfl⟩ : key = k ∧ value = w := by simpa using hm
    exact h m key v hn
  · exact h m k w (by simpa [Function.update_of_ne hne] using hm)

theorem Synced.evict {init : List Nat} (h : Synced c) (hn : c.cells n = some (key, v)) :
    Synced { c with
      map := c.map.erase key, list := init, cells := Function.update c.cells n none } := by
  intro m k w hm
  have hne : m ≠ n := by
    rintro rfl
    simp at hm
  replace hm : c.cells m = some (k, w) := by simpa [Function.update_of_ne hne] using hm
  have hk : k ≠ key := by
    rintro rfl
    exact hne (Option.some.inj ((h m k w hm).symm.trans (h n k v hn)))
  rw [AList.lookup_erase_ne hk]
  exact h m k w hm

/-- Inserting an absent key, unless the insertion into the map throws. -/
theorem Synced.insert (h : Synced c) (hk : c.map.lookup key = none)
    (ht : throwAt ≠ some .insertMap) : Synced (c.insert key value throwAt).1 := by
  cases throwAt with
  | some t =>
    cases t with
    | buildPair | allocNode => exact h
    | insertMap => exact absurd rfl ht
  | none =>
    intro m k w hm
    rcases eq_or_ne m c.next with rfl | hne
    · obtain ⟨rfl, rfl⟩ : key = k ∧ value = w := by
        simpa [Cache.insert, Cache.pushFront] using hm
      simp [Cache.insert]
    · replace hm : c.cells m = some (k, w) := by
        simpa [Cache.insert, Cache.pushFront, Function.update_of_ne hne] using hm
      have hkey : k ≠ key := by
        rintro rfl
        simp [h m k w hm] at hk
      simpa [Cache.insert, AList.lookup_insert_ne hkey] using h m k w hm

/-! ## What the calls do -/

/-- How `put` makes room for a new node. -/
inductive Room (c : Cache K V) : Cache K V → Prop
  | free : c.list.length < c.capacity → Room c c
  | evict {init : List Nat} {n : Nat} {k : K} {v : V} :
      c.list.length = c.capacity → c.list = init ++ [n] → c.cells n = some (k, v) →
      Room c { c with
        map := c.map.erase k, list := init, cells := Function.update c.cells n none }

theorem Safe.room (h : Safe c) (hr : Room c c') :
    Safe c' ∧ c'.list.length < c'.capacity ∧ (Synced c → Synced c') ∧
      ∀ k, c.map.lookup k = none → c'.map.lookup k = none := by
  cases hr with
  | free hlt => exact ⟨h, hlt, id, fun _ => id⟩
  | @evict init n k v hcap hl hn =>
    refine ⟨h.evict hl hn, by simp [← hcap, hl], (Synced.evict · hn), fun k' hk' => ?_⟩
    by_cases hk : k' = k
    · subst hk
      simp
    · simpa [AList.lookup_erase_ne hk] using hk'

theorem Safe.get_cases (h : Safe c) (key : K) :
    (c.map.lookup key = none ∧ c.get key = some (c, none)) ∨
    ∃ n v, c.map.lookup key = some n ∧ n ∈ c.list ∧ c.cells n = some (key, v) ∧
      c.get key = some ({ c with list := Recency.front n c.list }, some n) := by
  cases hl : c.map.lookup key with
  | none => exact .inl ⟨rfl, by simp [Cache.get, hl]⟩
  | some n =>
    obtain ⟨v, hn⟩ := h.map key n hl
    have hmem := h.mem hn
    exact .inr ⟨n, v, rfl, hmem, hn, by simp [Cache.get, hl, Cache.splice, hmem, hn]⟩

/-- A full list has a last node to evict. -/
theorem Safe.makeRoom (h : Safe c) :
    ∃ c₁, Room c c₁ ∧ (if c.list.length ≥ c.capacity then c.evict else some c) = some c₁ := by
  rcases Nat.lt_or_ge c.list.length c.capacity with hlt | hge
  · exact ⟨c, .free hlt, if_neg (Nat.not_le_of_lt hlt)⟩
  · have hcap : c.list.length = c.capacity := Nat.le_antisymm h.bound hge
    have hne : c.list ≠ [] := List.ne_nil_of_length_pos (hcap ▸ h.pos)
    obtain ⟨init, n, hlist⟩ : ∃ init n, c.list = init ++ [n] :=
      ⟨_, _, (List.dropLast_append_getLast hne).symm⟩
    obtain ⟨k, v, hn⟩ := h.cell (n := n) (by simp [hlist])
    refine ⟨_, .evict hcap hlist hn, ?_⟩
    rw [if_pos hge, Cache.evict]
    simp [hlist, hn]

theorem Safe.put_cases (h : Safe c) (key : K) (value : V) (throwAt : Option PutThrow) :
    (∃ n v, c.map.lookup key = some n ∧ n ∈ c.list ∧ c.cells n = some (key, v) ∧
      c.put key value throwAt = some ({ c with
        list := Recency.front n c.list
        cells := Function.update c.cells n (some (key, value)) }, .returned)) ∨
    (c.map.lookup key = none ∧ ∃ c₁, Room c c₁ ∧
      c.put key value throwAt = some (c₁.insert key value throwAt)) := by
  cases hl : c.map.lookup key with
  | some n =>
    obtain ⟨v, hn⟩ := h.map key n hl
    have hmem := h.mem hn
    exact .inl ⟨n, v, rfl, hmem, hn, by simp [Cache.put, hl, Cache.assign, hn, Cache.splice, hmem]⟩
  | none =>
    obtain ⟨c₁, hr, he⟩ := h.makeRoom
    refine .inr ⟨rfl, c₁, hr, ?_⟩
    simp only [Cache.put, hl, he, Option.map_some]

/-- Every call returns, and leaves a safe cache. -/
theorem Safe.call (h : Safe c) (call : Call K V) : ∃ c', c.call call = some c' ∧ Safe c' := by
  cases call with
  | get key =>
    rcases h.get_cases key with ⟨-, he⟩ | ⟨n, v, -, hm, -, he⟩
    · exact ⟨c, by simp [Cache.call, he], h⟩
    · exact ⟨_, by simp only [Cache.call, he]; rfl, h.splice hm⟩
  | put key value throwAt =>
    rcases h.put_cases key value throwAt with ⟨n, v, -, hm, hn, he⟩ | ⟨-, c₁, hr, he⟩
    · exact ⟨_, by simp only [Cache.call, he]; rfl, (h.assign hn).splice hm⟩
    · obtain ⟨h₁, hroom, -⟩ := h.room hr
      exact ⟨_, by simp only [Cache.call, he]; rfl, h₁.insert hroom⟩

/-! ## What is left of the nodes -/

/-- `put key` evicts node `n`. -/
def Evicts (c : Cache K V) (key : K) (n : Nat) : Prop :=
  c.map.lookup key = none ∧ c.list.length ≥ c.capacity ∧ c.list.getLast? = some n

theorem Room.cells (hr : Room c c₁) (hk : c.map.lookup key = none) (p : Nat) :
    (Evicts c key p ∧ c₁.cells p = none) ∨ (¬Evicts c key p ∧ c₁.cells p = c.cells p) := by
  cases hr with
  | free hlt => exact .inr ⟨fun he => Nat.not_le_of_lt hlt he.2.1, rfl⟩
  | @evict init n k v hcap hl hn =>
    rcases eq_or_ne p n with rfl | hne
    · exact .inl ⟨⟨hk, Nat.le_of_eq hcap.symm, by simp [hl]⟩, by simp⟩
    · refine .inr ⟨fun he => hne ?_, by simp [Function.update_of_ne hne]⟩
      simpa [hl] using he.2.2.symm

theorem Room.lookup (hr : Room c c₁) (hl : c₁.map.lookup k = some n) :
    c.map.lookup k = some n := by
  cases hr with
  | free => exact hl
  | @evict init m k' v hcap hlist hn =>
    have hk : k ≠ k' := by
      rintro rfl
      simp at hl
    simpa [AList.lookup_erase_ne hk] using hl

theorem Room.next (hr : Room c c₁) : c₁.next = c.next := by
  cases hr <;> rfl

theorem insert_cells (hp : p ≠ c.next) :
    (c.insert key value throwAt).1.cells p = c.cells p := by
  cases throwAt with
  | none => simp [Cache.insert, Cache.pushFront, Function.update_of_ne hp]
  | some t => cases t <;> simp [Cache.insert, Cache.pushFront, Function.update_of_ne hp]

/-- What the map has after an insertion: a node it had before, or the new one. -/
theorem insert_lookup (hl : (c.insert key value throwAt).1.map.lookup k = some n) :
    c.map.lookup k = some n ∨ k = key ∧ n = c.next ∧ throwAt = none := by
  cases throwAt with
  | none =>
    by_cases hk : k = key
    · subst hk
      exact .inr ⟨rfl, by simpa [Cache.insert] using hl.symm, rfl⟩
    · exact .inl (by simpa [Cache.insert, AList.lookup_insert_ne hk] using hl)
  | some t => cases t <;> exact .inl hl

end Lru
