import Snippets.Lru.Alias
import Snippets.Lru.Proof.Safe

/-!
# Putting a key that is inside the cache

`put` reads its key three times: for `find`, for the pair of the new node and for `map_[key]`. The
last two come after the eviction. A key of the caller's own is the same each time
(`putRef_copy`); one inside a node too, unless this very node is evicted in between
(`Safe.putRef_eq`), and then the second read is one of a node that is gone
(`Safe.putRef_evicted`). With what every run keeps (`users_safe`): `putRef_eq_put_iff`.
-/

namespace Lru

open Lts

variable {K V : Type*} [DecidableEq K] {c c₁ c' : Cache K V} {key k : K} {value v : V} {n : Nat}
  {ref : KeyRef K V} {throwAt : Option PutThrow} {s s' : Client K V} {capacity : Nat}

/-! ## Reads of the key -/

omit [DecidableEq K] in
theorem readKey_of_cells {part : V → Option K} (hc : c'.cells n = c.cells n) :
    c'.readKey (.inside n part) = c.readKey (.inside n part) := by
  simp only [Cache.readKey, hc]

omit [DecidableEq K] in
theorem readKey_dead {part : V → Option K} (hc : c.cells n = none) :
    c.readKey (.inside n part) = none := by
  simp [Cache.readKey, hc]

/-- A new node hides no key. -/
theorem Safe.readKey_pushFront (h : Safe c) (hk : c.readKey ref = some key) (k : K) (value : V) :
    (c.pushFront k value).readKey ref = some key := by
  cases ref with
  | copy => exact hk
  | inside n part =>
    have hne : n ≠ c.next := by
      rintro rfl
      rw [readKey_dead h.fresh_cell] at hk
      cases hk
    rw [readKey_of_cells (c := c) (by simp [Cache.pushFront, Function.update_of_ne hne])]
    exact hk

/-- While it makes room, `put` loses no key but one inside the node it evicts. -/
theorem Room.readKey (hr : Room c c₁) (hl : c.map.lookup k = none)
    (hk : c.readKey ref = some key) (hev : ∀ n, ref.node = some n → ¬Evicts c k n) :
    c₁.readKey ref = some key := by
  cases ref with
  | copy => exact hk
  | inside n part =>
    rcases hr.cells hl n with ⟨he, -⟩ | ⟨-, hc⟩
    · exact absurd he (hev n rfl)
    · rw [readKey_of_cells hc]
      exact hk

/-! ## `put` -/

/-- Where the key can be read all along, the insertion is that of a copy. -/
theorem Safe.insertRef_eq (h : Safe c) (hk : c.readKey ref = some key) :
    c.insertRef ref value throwAt = some (c.insert key value throwAt) := by
  have hpush := h.readKey_pushFront hk key value
  cases throwAt with
  | none =>
    simp only [Cache.insertRef, hk, Option.bind_some, hpush, Option.map_some]
    rfl
  | some t =>
    cases t with
    | insertMap =>
      simp only [Cache.insertRef, hk, Option.bind_some, hpush, Option.map_some]
      rfl
    | buildPair | allocNode => simp [Cache.insertRef, Cache.insert, hk]

theorem putRef_copy : c.putRef (.copy key) value throwAt = c.put key value throwAt := by
  have hins : ∀ c : Cache K V, c.insertRef (.copy key) value throwAt =
      some (c.insert key value throwAt) := by
    intro c
    cases throwAt with
    | none => rfl
    | some t => cases t <;> rfl
  unfold Cache.putRef Cache.put
  simp only [Cache.readKey, Option.bind_some, hins]
  cases c.map.lookup key with
  | none =>
    rw [Option.map_eq_bind]
    rfl
  | some n => rfl

/-- A put through a reference into a node that it does not evict is one of a copy of the key. -/
theorem Safe.putRef_eq (h : Safe c) (hk : c.readKey ref = some key)
    (hev : ∀ n, ref.node = some n → ¬Evicts c key n) :
    c.putRef ref value throwAt = c.put key value throwAt := by
  unfold Cache.putRef Cache.put
  rw [hk, Option.bind_some]
  cases hl : c.map.lookup key with
  | some n => rfl
  | none =>
    obtain ⟨c₁, hr, he⟩ := h.makeRoom
    simp only [he, Option.bind_some, Option.map_some]
    exact (h.room hr).1.insertRef_eq (hr.readKey hl hk hev)

/-- A put through a reference into the node it evicts reads the key there when it is gone. -/
theorem Safe.putRef_evicted (h : Safe c) {part : V → Option K}
    (hk : c.readKey (.inside n part) = some key) (hev : Evicts c key n) :
    c.putRef (.inside n part) value throwAt = none := by
  obtain ⟨c₁, hr, he⟩ := h.makeRoom
  have hdead : c₁.cells n = none := by
    rcases hr.cells hev.1 n with ⟨-, hc⟩ | ⟨hne, -⟩
    · exact hc
    · exact absurd hev hne
  simp only [Cache.putRef, hk, Option.bind_some, hev.1, he, Cache.insertRef, readKey_dead hdead,
    Option.bind_none]

theorem Safe.put_ne_none (h : Safe c) : c.put key value throwAt ≠ none := by
  rcases h.put_cases key value throwAt with ⟨_, _, -, -, -, hp⟩ | ⟨-, _, -, hp⟩
  · rw [hp]; nofun
  · rw [hp]; nofun

/-- A put that returns or throws is one of a copy of the key it found. -/
theorem Safe.putRef_some (h : Safe c) {r : Cache K V × Exit}
    (hp : c.putRef ref value throwAt = some r) :
    ∃ key, c.readKey ref = some key ∧ c.put key value throwAt = some r := by
  obtain ⟨key, hk, -⟩ := Option.bind_eq_some_iff.1 hp
  refine ⟨key, hk, ?_⟩
  rw [← hp]
  symm
  apply h.putRef_eq hk
  intro n hn hev
  cases ref with
  | copy => cases hn
  | inside m part =>
    cases hn
    rw [h.putRef_evicted hk hev] at hp
    cases hp

/-! ## Runs -/

theorem Safe.act (h : Safe s.cache) {u : Use K V} (hs : s.Act u s') : Safe s'.cache := by
  cases hs with
  | @get key c' r he =>
    obtain ⟨_, hc, hsafe⟩ := h.call (.get key)
    rw [Cache.call, he] at hc
    cases hc
    exact hsafe
  | @put ref value throwAt exit c' _ hp =>
    obtain ⟨key, -, hput⟩ := h.putRef_some hp
    obtain ⟨_, hc, hsafe⟩ := h.call (.put key value throwAt)
    rw [Cache.call, hput] at hc
    cases hc
    exact hsafe
  | write _ he =>
    obtain ⟨_, hn, rfl⟩ := Option.map_eq_some_iff.1 he
    exact h.assign hn

theorem users_safe {us : List (Use K V)} (h : Exec (users K V capacity) us s) : Safe s.cache :=
  h.invariant (I := fun s => Safe s.cache)
    (fun s (h0 : (users K V capacity).init s) => (Safe.create h0.1).1) fun _ _ _ hi hs => hi.act hs

/-- **A key inside the cache is as good as a copy unless its own node is evicted.** After any calls
and writes, a `put` whose key is a part of a value stored in some node does what a put of a copy of
that key does, and never reads it through a removed node, if and only if it does not evict this
very node: the key is cached, or the list is not full, or the node is not the last one. -/
theorem putRef_eq_put_iff {us : List (Use K V)} (h : Exec (users K V capacity) us s)
    (hn : s.cache.cells n = some (k, v)) {part : V → Option K} (hpart : part v = some key)
    (value : V) (throwAt : Option PutThrow) :
    (s.cache.putRef (.inside n part) value throwAt = s.cache.put key value throwAt ∧
        s.cache.putRef (.inside n part) value throwAt ≠ none) ↔
      ¬Evicts s.cache key n := by
  have hsafe := users_safe h
  have hk : s.cache.readKey (.inside n part) = some key := by simp [Cache.readKey, hn, hpart]
  constructor
  · rintro ⟨-, hne⟩ hev
    exact hne (hsafe.putRef_evicted hk hev)
  · intro hev
    have heq : s.cache.putRef (.inside n part) value throwAt = s.cache.put key value throwAt := by
      apply hsafe.putRef_eq hk
      rintro m ⟨⟩
      exact hev
    exact ⟨heq, heq ▸ hsafe.put_ne_none⟩

/-- A cache with room: the key of the put is the value 2 cached for 1. -/
theorem putRef_eq_put_iff_room : ∃ (us : List (Use Nat Nat)) (s : Client Nat Nat),
    Exec (users Nat Nat 2) us s ∧ s.issued = [0] ∧ s.cache.cells 0 = some (1, 2) ∧
      s.cache.putRef (.inside 0 some) 7 none = s.cache.put 2 7 none := by
  have h0 : Exec (users Nat Nat 2) [] ⟨.empty Nat Nat 2, []⟩ := .init ⟨rfl, rfl⟩
  have h1 := h0.snoc (.put (fun _ hn => by cases hn)
    (show Cache.putRef _ (.copy 1) 2 none = some (_, .returned) from rfl))
  have h2 := h1.snoc (.get (show Cache.get _ 1 = some (_, some 0) from rfl))
  refine ⟨_, _, h2, rfl, rfl, ((putRef_eq_put_iff h2 (n := 0) (v := 2) rfl rfl 7 none).2 ?_).1⟩
  exact fun hev => absurd hev.2.1 (by decide)

/-- The key of the put is the value cached for 1, and 1 is what the put evicts to make room. -/
theorem putRef_reads_evicted : ∃ (us : List (Use Nat Nat)) (s : Client Nat Nat),
    Exec (users Nat Nat 1) us s ∧ s.issued = [0] ∧ s.cache.cells 0 = some (1, 2) ∧
      s.cache.putRef (.inside 0 some) 7 none = none ∧
      (s.cache.put 2 7 none).map (fun r => r.1.cached 2) = some (some 7) := by
  have h0 : Exec (users Nat Nat 1) [] ⟨.empty Nat Nat 1, []⟩ := .init ⟨rfl, rfl⟩
  have h1 := h0.snoc (.put (fun _ hn => by cases hn)
    (show Cache.putRef _ (.copy 1) 2 none = some (_, .returned) from rfl))
  have h2 := h1.snoc (.get (show Cache.get _ 1 = some (_, some 0) from rfl))
  exact ⟨_, _, h2, rfl, rfl, rfl, rfl⟩

end Lru
