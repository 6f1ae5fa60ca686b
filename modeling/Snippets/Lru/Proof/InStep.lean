import Snippets.Lru.Proof.Safe

/-!
# Exceptions and the correspondence of list and map

A safe cache is `InStep` when it is synced (`Safe.inStep_iff`), and only a put that throws while
it inserts into the map breaks that (`in_step_iff_no_map_throw`).
-/

namespace Lru

open Lts

variable {K V : Type*} [DecidableEq K] {c c' : Cache K V} {key : K} {value : V}

theorem Safe.inStep_iff (h : Safe c) : InStep c ↔ Synced c := by
  constructor
  · intro hi n k v hn
    obtain ⟨k', v', hc, hl⟩ := hi.maps n (h.mem hn)
    obtain ⟨rfl, rfl⟩ : k = k' ∧ v = v' := by simpa using hn.symm.trans hc
    exact hl
  · intro hs
    have hinj : ∀ n m k, k ∈ (c.cells n).map Prod.fst → k ∈ (c.cells m).map Prod.fst → n = m := by
      simp only [Option.mem_def, Option.map_eq_some_iff, Prod.exists, exists_and_right,
        exists_eq_right]
      rintro n m k ⟨v, hn⟩ ⟨w, hm⟩
      exact Option.some.inj ((hs n k v hn).symm.trans (hs m k w hm))
    have hkeys : c.keys.Nodup := h.nodup.filterMap hinj
    refine ⟨?_, hkeys, ?_, h.bound⟩
    · intro n hn
      obtain ⟨k, v, hc⟩ := h.cell hn
      exact ⟨k, v, hc, hs n k v hc⟩
    · have hperm : c.keys.Perm c.map.keys := by
        apply (List.perm_ext_iff_of_nodup hkeys c.map.keys_nodup).2
        intro k
        rw [mem_keys, ← AList.mem_keys, ← AList.lookup_isSome, Option.isSome_iff_exists]
        constructor
        · rintro ⟨n, -, v, hn⟩
          exact ⟨n, hs n k v hn⟩
        · rintro ⟨n, hn⟩
          obtain ⟨v, hv⟩ := h.map k n hn
          exact ⟨n, h.mem hv, v, hv⟩
      rw [← h.keys_length, hperm.length_eq]

/-! ## Throwing puts -/

/-- A put that throws while it inserts into the map leaves a node that the map does not have. -/
theorem not_synced_insertMap (hk : c.map.lookup key = none) :
    ¬Synced (c.insert key value (some .insertMap)).1 := fun h => by
  have hl := h c.next key value (by simp [Cache.insert, Cache.pushFront])
  simp [Cache.insert, Cache.pushFront, hk] at hl

/-- The call is not a put of an absent key that throws while it inserts into the map. -/
def NoMapThrow (c : Cache K V) : Call K V → Prop
  | .get _ => True
  | .put key _ throwAt => throwAt = some .insertMap → (c.map.lookup key).isSome

theorem Safe.synced_call (h : Safe c) (hs : Synced c) {call : Call K V}
    (he : c.call call = some c') : Synced c' ↔ NoMapThrow c call := by
  cases call with
  | get key =>
    rcases h.get_cases key with ⟨-, hg⟩ | ⟨n, v, -, -, -, hg⟩
    · obtain rfl : c = c' := by simpa [Cache.call, hg] using he
      exact iff_of_true hs trivial
    · obtain rfl : _ = c' := by simpa [Cache.call, hg] using he
      exact iff_of_true hs trivial
  | put key value throwAt =>
    rcases h.put_cases key value throwAt with ⟨n, v, hl, -, hn, hp⟩ | ⟨hl, c₁, hr, hp⟩
    · obtain rfl : _ = c' := by simpa [Cache.call, hp] using he
      exact iff_of_true (hs.assign hn) fun _ => by simp [hl]
    · obtain rfl : _ = c' := by simpa [Cache.call, hp] using he
      obtain ⟨h₁, -, hsync, hnone⟩ := h.room hr
      by_cases ht : throwAt = some .insertMap
      · subst ht
        exact iff_of_false (not_synced_insertMap (hnone key hl)) (by simp [NoMapThrow, hl])
      · exact iff_of_true ((hsync hs).insert (hnone key hl) ht) fun he => absurd he ht

/-- Whatever throws, no call ever touches a node that is gone. -/
theorem calls_safe {capacity : Nat} {ls : List (Call K V)}
    (h : Exec (calls K V capacity) ls c) : Safe c := by
  apply h.invariant (I := Safe) (fun c h0 => (Safe.create h0).1)
  intro c l c' hs he
  obtain ⟨c₁, he₁, hs₁⟩ := hs.call l
  rwa [Option.some.inj (he₁.symm.trans he)] at hs₁

/-- **Exception safety of the correspondence.** As long as no put of an absent key exits by an
exception from the insertion into the map, the list and the map are in one-to-one correspondence
after every call, also after the throwing ones, and every call returns; the first put that does
breaks the correspondence. -/
theorem in_step_iff_no_map_throw {capacity : Nat} {ls : List (Call K V)}
    (h : Exec ((calls K V capacity).restrict NoMapThrow) ls c) :
    InStep c ∧ ∀ call, ∃ c', c.call call = some c' ∧ (InStep c' ↔ NoMapThrow c call) := by
  have hsync : Safe c ∧ Synced c := by
    refine h.invariant (I := fun c => Safe c ∧ Synced c)
      (fun c h0 => ⟨(Safe.create h0).1, (Safe.create h0).2.1⟩) fun c l c' hi hstep => ?_
    obtain ⟨c₁, he₁, hs₁⟩ := hi.1.call l
    rw [Option.some.inj (he₁.symm.trans hstep.1)] at hs₁
    exact ⟨hs₁, (hi.1.synced_call hi.2 hstep.1).2 hstep.2⟩
  obtain ⟨hs, hy⟩ := hsync
  refine ⟨hs.inStep_iff.2 hy, fun call => ?_⟩
  obtain ⟨c', he, hs'⟩ := hs.call call
  exact ⟨c', he, by rw [hs'.inStep_iff, hs.synced_call hy he]⟩

theorem exec_call {P : Cache K V → Call K V → Prop} {capacity : Nat} {ls : List (Call K V)}
    (h : Exec ((calls K V capacity).restrict P) ls c) (call : Call K V)
    (he : c.call call = some c') (hp : P c call) :
    Exec ((calls K V capacity).restrict P) (ls ++ [call]) c' :=
  h.snoc ⟨he, hp⟩

/-- A full cache, a put that throws and makes room all the same, a hit. -/
theorem in_step_iff_no_map_throw_full :
    ∃ c, Exec ((calls Nat Nat 1).restrict NoMapThrow)
      [.put 1 10 none, .put 2 20 (some .allocNode), .put 3 30 none, .get 3] c ∧ InStep c ∧
      ∀ call, ∃ c', c.call call = some c' ∧ (InStep c' ↔ NoMapThrow c call) := by
  have h0 : Exec ((calls Nat Nat 1).restrict NoMapThrow) [] (.empty Nat Nat 1) := .init rfl
  have h1 := exec_call h0 (.put 1 10 none) rfl (by simp [NoMapThrow])
  have h2 := exec_call h1 (.put 2 20 (some .allocNode)) rfl (by simp [NoMapThrow])
  have h3 := exec_call h2 (.put 3 30 none) rfl (by simp [NoMapThrow])
  have h4 := exec_call h3 (.get 3) rfl trivial
  exact ⟨_, h4, in_step_iff_no_map_throw h4⟩

/-- The node of a put that throws while it inserts into the map stays in the list. -/
theorem map_throw_leaves_node :
    ∃ c, Exec (calls Nat Nat 2) [.put 1 10 (some .insertMap)] c ∧
      c.contents = [(1, 10)] ∧ c.map.keys = [] ∧ ¬InStep c := by
  have h0 : Exec (calls Nat Nat 2) [] (.empty Nat Nat 2) := .init rfl
  have h1 := h0.snoc (show Cache.call _ (.put 1 10 (some .insertMap)) = some _ from rfl)
  exact ⟨_, h1, rfl, rfl, fun h => absurd h.size (by decide)⟩

end Lru
