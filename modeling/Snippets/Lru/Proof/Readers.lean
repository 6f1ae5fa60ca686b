import Snippets.Lru.Proof.InStep

/-!
# Reading through the pointers of `concurrent_lru_cache::get`

`get` returns a pointer into a list node and releases `mutex_`; only a put that evicts this very
node makes it dangle (`readable_iff_keeps_issued`).
-/

namespace Lru

open Lts

variable {ι K V : Type*} {s s' : Readers ι K V} {l : Access ι K V} {ls : List (Access ι K V)}
  {capacity : Nat}

/-! ## Stored values -/

/-- What was stored in a node stays stored as long as the node is not touched. -/
theorem Stored.append {c c' : Cache K V} {key : K} {p : Nat} (h : Stored ls c key p)
    (hc : c'.cells p = c.cells p) : Stored (ls ++ [l]) c' key p := by
  obtain ⟨value, hv, u, throwAt, hmem⟩ := h
  exact ⟨value, hc.trans hv, u, throwAt, List.mem_append_left _ hmem⟩

/-- A hit: the node has the value stored by this put, the other nodes keep theirs. -/
theorem Stored.assign {c : Cache K V} {t : ι} {key k : K} {value v : V} {n p : Nat}
    {throwAt : Option PutThrow} {list : List Nat} (h : Stored ls c k p)
    (hn : c.cells n = some (key, v)) :
    Stored (ls ++ [.put t key value throwAt .returned])
      { c with list, cells := Function.update c.cells n (some (key, value)) } k p := by
  rcases eq_or_ne p n with rfl | hne
  · obtain ⟨w, hw, -⟩ := h
    obtain ⟨rfl, rfl⟩ : key = k ∧ v = w := by simpa using hn.symm.trans hw
    exact ⟨value, by simp, t, throwAt, by simp⟩
  · exact h.append (by simp [Function.update_of_ne hne])

variable [DecidableEq K]

/-- A miss: a node that is not evicted is untouched. -/
theorem Stored.insert {c c₁ : Cache K V} {key k : K} {value : V} {p : Nat}
    {throwAt : Option PutThrow} (h : Stored ls c k p) (h₁ : Safe c₁) (hr : Room c c₁)
    (hl : c.map.lookup key = none) (hp : ¬Evicts c key p) :
    Stored (ls ++ [l]) (c₁.insert key value throwAt).1 k p := by
  rcases hr.cells hl p with ⟨hev, -⟩ | ⟨-, hcell⟩
  · exact absurd hev hp
  · have hne : p ≠ c₁.next := by
      rintro rfl
      obtain ⟨w, hw, -⟩ := h
      simp [← hcell, h₁.fresh_cell] at hw
    exact h.append ((insert_cells hne).trans hcell)

/-! ## The steps -/

/-- No put evicts the node to which the last `get` of some thread returned a pointer. -/
def KeepsIssued (s : Readers ι K V) : Access ι K V → Prop
  | .put _ key _ _ _ => ∀ n, Evicts s.cache key n → ∀ t k, s.last t ≠ some (k, n)
  | _ => True

/-- What is kept while no issued node is evicted. -/
structure Issued (ls : List (Access ι K V)) (s : Readers ι K V) : Prop where
  safe : Safe s.cache
  readable : s.Readable ls
  stored : ∀ key n, s.cache.map.lookup key = some n → Stored ls s.cache key n

theorem Issued.put (h : Issued ls s) {t : ι} {key : K} {value : V} {throwAt : Option PutThrow}
    {exit : Exit} {c' : Cache K V} (he : s.cache.put key value throwAt = some (c', exit))
    (hkeep : KeepsIssued s (.put t key value throwAt exit)) :
    Issued (ls ++ [.put t key value throwAt exit]) { s with cache := c' } := by
  rcases h.safe.put_cases key value throwAt with ⟨n, v, hl, hm, hn, hp⟩ | ⟨hl, c₁, hr, hp⟩
  · obtain ⟨rfl, rfl⟩ : _ = c' ∧ Exit.returned = exit := by simpa [hp] using he
    exact ⟨(h.safe.assign hn).splice hm, fun u k p hp => (h.readable u k p hp).assign hn,
      fun k p hk => (h.stored k p hk).assign hn⟩
  · rw [hp, Option.some.injEq] at he
    obtain rfl : (c₁.insert key value throwAt).1 = c' := congrArg Prod.fst he
    obtain ⟨h₁, hroom, -⟩ := h.safe.room hr
    refine ⟨h₁.insert hroom, ?_, ?_⟩
    · intro u k p hp
      exact (h.readable u k p hp).insert h₁ hr hl fun hev => hkeep p hev u k hp
    · intro k n hk
      rcases insert_lookup hk with hk | ⟨rfl, rfl, rfl⟩
      · apply (h.stored k n (hr.lookup hk)).insert h₁ hr hl
        intro hev
        -- an evicted node is in no entry of the map
        obtain ⟨v, hv⟩ := h₁.map k n hk
        rcases hr.cells hl n with ⟨-, hcell⟩ | ⟨hnev, -⟩
        · simp [hcell] at hv
        · exact hnev hev
      · obtain rfl : Exit.returned = exit := congrArg Prod.snd he
        exact ⟨value, by simp [Cache.insert, Cache.pushFront], t, none, by simp⟩

/-- A put that evicts an issued node leaves the pointer to it dangling. -/
theorem Issued.dangling (h : Issued ls s) {t u : ι} {key k : K} {value : V} {n : Nat}
    {throwAt : Option PutThrow} {exit : Exit} {c' : Cache K V}
    (he : s.cache.put key value throwAt = some (c', exit)) (hev : Evicts s.cache key n)
    (hlast : s.last u = some (k, n)) :
    ¬Readers.Readable (ls ++ [.put t key value throwAt exit]) { s with cache := c' } := by
  rcases h.safe.put_cases key value throwAt with ⟨m, v, hl, -⟩ | ⟨hl, c₁, hr, hp⟩
  · simp [hev.1] at hl
  · rw [hp, Option.some.injEq] at he
    obtain rfl : (c₁.insert key value throwAt).1 = c' := congrArg Prod.fst he
    intro hread
    obtain ⟨v, hv, -⟩ := hread u k n hlast
    rcases hr.cells hl n with ⟨-, hcell⟩ | ⟨hnev, -⟩
    · have hne : n ≠ c₁.next := by
        rw [hr.next]
        exact Nat.ne_of_lt (h.safe.fresh n (List.mem_of_getLast? hev.2.2))
      rw [insert_cells hne, hcell] at hv
      cases hv
    · exact hnev hev

variable [DecidableEq ι]

theorem Issued.init (h : (readers ι K V capacity).init s) : Issued [] s where
  safe := (Safe.create h.1).1
  readable t key p hp := by simp [h.2 t] at hp
  stored key n hl := by
    have hc := h.1
    unfold Cache.create at hc
    split at hc
    · cases hc
    · simp [← Except.ok.inj hc, Cache.empty] at hl

theorem Issued.get (h : Issued ls s) {t : ι} {key : K} {c' : Cache K V} {r : Option Nat}
    (he : s.cache.get key = some (c', r)) :
    Issued (ls ++ [.get t key]) ⟨c', Function.update s.last t (r.map (key, ·))⟩ := by
  rcases h.safe.get_cases key with ⟨hl, hg⟩ | ⟨n, v, hl, hm, hn, hg⟩
  · obtain ⟨rfl, rfl⟩ : s.cache = c' ∧ none = r := by simpa [hg] using he
    refine ⟨h.safe, fun u k p hp => ?_, fun k n hk => (h.stored k n hk).append rfl⟩
    rcases eq_or_ne u t with rfl | hne
    · simp at hp
    · exact (h.readable u k p (by simpa [Function.update_of_ne hne] using hp)).append rfl
  · obtain ⟨rfl, rfl⟩ : _ = c' ∧ some n = r := by simpa [hg] using he
    refine ⟨h.safe.splice hm, fun u k p hp => ?_, fun k n hk => (h.stored k n hk).append rfl⟩
    rcases eq_or_ne u t with rfl | hne
    · obtain ⟨rfl, rfl⟩ : key = k ∧ n = p := by simpa using hp
      exact (h.stored _ _ hl).append rfl
    · exact (h.readable u k p (by simpa [Function.update_of_ne hne] using hp)).append rfl

theorem Issued.step (h : Issued ls s) (hs : s.Step l s') (hkeep : KeepsIssued s l) :
    Issued (ls ++ [l]) s' := by
  cases hs with
  | get he => exact h.get he
  | put he => exact h.put he hkeep
  | read _ =>
    exact ⟨h.safe, fun u k p hp => (h.readable u k p hp).append rfl,
      fun k n hk => (h.stored k n hk).append rfl⟩

/-- **Pointers returned by `get`.** As long as no put evicts the node that the last `get` of some
thread returned, every thread can read through its last pointer: the node is live and holds a
value stored under the key; the first put that does leaves a dangling pointer. -/
theorem readable_iff_keeps_issued
    (h : Exec ((readers ι K V capacity).restrict KeepsIssued) ls s) :
    s.Readable ls ∧
      ∀ l s', (readers ι K V capacity).step s l s' →
        (s'.Readable (ls ++ [l]) ↔ KeepsIssued s l) := by
  have hi : Issued ls s := h.trace_invariant (fun _ h0 => .init h0)
    fun _ _ _ _ _ hi hs => hi.step hs.1 hs.2
  refine ⟨hi.readable, fun l s' hs => ⟨fun hread => ?_, fun hkeep => (hi.step hs hkeep).readable⟩⟩
  cases hs with
  | get | read => trivial
  | put he => exact fun n hev u k hlast => hi.dangling he hev hlast hread

/-- Two threads: one updates the value that the other then reads. -/
theorem readable_iff_keeps_issued_update : ∃ s, Exec ((readers Bool Nat Nat 1).restrict KeepsIssued)
    [.put true 1 10 none .returned, .get false 1, .put true 1 11 none .returned, .read false] s ∧
    s.Readable [.put true 1 10 none .returned, .get false 1, .put true 1 11 none .returned,
      .read false] := by
  have h0 : Exec ((readers Bool Nat Nat 1).restrict KeepsIssued) []
      ⟨.empty Nat Nat 1, fun _ => none⟩ := .init ⟨rfl, fun _ => rfl⟩
  have h1 := h0.snoc ⟨.put (t := true) (show Cache.put _ 1 10 none = some (_, .returned) from rfl),
    fun n hev t k => by simp⟩
  have h2 := h1.snoc ⟨.get (t := false) (show Cache.get _ 1 = some (_, some 0) from rfl), trivial⟩
  have h3 := h2.snoc ⟨.put (t := true) (show Cache.put _ 1 11 none = some (_, .returned) from rfl),
    fun n hev => absurd hev.1 (by decide)⟩
  have h4 := h3.snoc ⟨.read (t := false) rfl, trivial⟩
  exact ⟨_, h4, (readable_iff_keeps_issued h4).1⟩

/-- A put of another thread evicts the node between the `get` and the read. -/
theorem evicted_before_read : ∃ s, Exec (readers Bool Nat Nat 1)
    [.put true 1 10 none .returned, .get false 1, .put true 2 20 none .returned, .read false] s ∧
    s.last false = some (1, 0) ∧ s.cache.cells 0 = none ∧ ∀ ls, ¬s.Readable ls := by
  have h0 : Exec (readers Bool Nat Nat 1) [] ⟨.empty Nat Nat 1, fun _ => none⟩ :=
    .init ⟨rfl, fun _ => rfl⟩
  have h1 := h0.snoc (.put (t := true) (show Cache.put _ 1 10 none = some (_, .returned) from rfl))
  have h2 := h1.snoc (.get (t := false) (show Cache.get _ 1 = some (_, some 0) from rfl))
  have h3 := h2.snoc (.put (t := true) (show Cache.put _ 2 20 none = some (_, .returned) from rfl))
  have h4 := h3.snoc (.read (t := false) rfl)
  refine ⟨_, h4, rfl, rfl, fun ls hread => ?_⟩
  obtain ⟨v, hv, -⟩ := hread false 1 0 rfl
  cases hv

end Lru
