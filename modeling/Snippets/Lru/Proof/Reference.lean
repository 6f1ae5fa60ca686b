import Snippets.Lru.Proof.Safe

/-!
# The cache is an LRU cache

`Lru.Tracks`: the keys in the list are the most recently touched keys of the history, and each
live node holds the last value of its key. Kept by every call and by every write through a
pointer (`Tracks.step`); `answers_reference` reads the answers off it.
-/

namespace Lru

open Lts

variable {ι K V : Type*} [DecidableEq ι] [DecidableEq K] {s s' : Client K V} {e : Entry K V}
  {h : List (Entry K V)} {capacity : Nat} {c c' c₁ : Cache K V} {key k : K} {value v : V}
  {n p : Nat}

/-- The cache and the issued pointers against the history, latest entry first. -/
structure Tracks (capacity : Nat) (h : List (Entry K V)) (s : Client K V) : Prop where
  safe : Safe s.cache
  synced : Synced s.cache
  bounded : s.cache.capacity = capacity
  keys : s.cache.keys = (recentKeys h).take capacity
  puts : ∀ k, k ∈ recentKeys h ↔ k ∈ h.filterMap Entry.putKey
  value : ∀ n k v, s.cache.cells n = some (k, v) → lastValue k h = some v
  issued : ∀ p ∈ s.issued, ∃ k, pointee p h = some k
  target : ∀ p k, pointee p h = some k →
    p < s.cache.next ∧ ∀ k' v, s.cache.cells p = some (k', v) → k' = k

/-! ## The keys in the list -/

theorem Synced.inj (hs : Synced c) {m : Nat} {w : V} (hn : c.cells n = some (k, v))
    (hm : c.cells m = some (k, w)) : m = n :=
  Option.some.inj ((hs m k w hm).symm.trans (hs n k v hn))

theorem keys_splice (hs : Synced c) (hm : n ∈ c.list) (hn : c.cells n = some (key, v)) :
    ({ c with list := Recency.front n c.list } : Cache K V).keys = Recency.front key c.keys := by
  apply Recency.filterMap_front hm (by simp [hn])
  intro m _ hk
  obtain ⟨⟨k, w⟩, hc, rfl⟩ := Option.map_eq_some_iff.1 hk
  exact Synced.inj hs hn hc

omit [DecidableEq K] in
theorem keys_assign (hn : c.cells n = some (key, v)) :
    ({ c with cells := Function.update c.cells n (some (key, value)) } : Cache K V).keys =
      c.keys := by
  apply List.filterMap_congr
  intro m _
  rcases eq_or_ne m n with rfl | hne
  · simp [hn]
  · simp [Function.update_of_ne hne]

theorem Safe.keys_insert (hs : Safe c) :
    (c.insert key value none).1.keys = key :: c.keys := by
  have hrest : c.list.filterMap (fun n => (Function.update c.cells c.next (some (key, value)) n).map
      Prod.fst) = c.keys := by
    apply List.filterMap_congr
    intro m hm
    rw [Function.update_of_ne (Nat.ne_of_lt (hs.fresh m hm))]
  simpa [Cache.insert, Cache.pushFront, Cache.keys] using hrest

/-- Making room drops the last key, if there is no room. -/
theorem Room.keys (hs : Safe c) (hr : Room c c₁) : c₁.keys = c.keys.take (c.capacity - 1) := by
  have hlen := hs.keys_length
  cases hr with
  | free hlt => rw [List.take_of_length_le (by omega)]
  | @evict init n k v hcap hl hn =>
    obtain ⟨-, -, hdisj⟩ := List.nodup_append.1 (hl ▸ hs.nodup)
    have hinit : init.filterMap (fun m => (Function.update c.cells n none m).map Prod.fst) =
        init.filterMap fun m => (c.cells m).map Prod.fst := by
      apply List.filterMap_congr
      intro m hm
      rw [Function.update_of_ne (hdisj m hm n (by simp))]
    have hkeys : c.keys = init.filterMap (fun m => (c.cells m).map Prod.fst) ++ [k] := by
      simp [Cache.keys, hl, hn]
    rw [← hcap, ← hlen, hkeys, List.length_append, List.length_singleton, Nat.add_sub_cancel,
      List.take_left]
    exact hinit

theorem Synced.notMem_keys (hs : Synced c) (hl : c.map.lookup key = none) : key ∉ c.keys := by
  rw [mem_keys]
  rintro ⟨n, -, v, hn⟩
  simp [hs n key v hn] at hl

/-! ## The steps -/

theorem Tracks.init (h0 : (client K V capacity).init s) : Tracks capacity [] s := by
  obtain ⟨hc, hi⟩ := h0
  obtain ⟨hsafe, hsync, hcap⟩ := Safe.create hc
  have hempty : s.cache.list = [] ∧ s.cache.cells = fun _ => none := by
    unfold Cache.create at hc
    split at hc
    · cases hc
    · rw [← Except.ok.inj hc]
      exact ⟨rfl, rfl⟩
  exact ⟨hsafe, hsync, hcap, by simp [Cache.keys, hempty.1, recentKeys], by simp [recentKeys],
    by simp [hempty.2], by simp [hi], by simp [Lru.pointee]⟩

theorem Tracks.mem_recent (ht : Tracks capacity h s) (hn : s.cache.cells n = some (key, v)) :
    key ∈ (recentKeys h).take capacity := by
  rw [← ht.keys, mem_keys]
  exact ⟨n, ht.safe.mem hn, v, hn⟩

theorem Tracks.front_keys (ht : Tracks capacity h s) (hn : s.cache.cells n = some (key, v)) :
    Recency.front key s.cache.keys = (Recency.front key (recentKeys h)).take capacity := by
  rw [ht.keys, Recency.take_front_of_mem (ht.mem_recent hn)]

theorem Tracks.get (ht : Tracks capacity h s) {r : Option Nat}
    (he : s.cache.get key = some (c', r)) :
    Tracks capacity (.get key r :: h) ⟨c', r.toList ++ s.issued⟩ := by
  rcases ht.safe.get_cases key with ⟨hl, hg⟩ | ⟨n, v, hl, hm, hn, hg⟩
  · obtain ⟨rfl, rfl⟩ : s.cache = c' ∧ none = r := by simpa [hg] using he
    exact ⟨ht.safe, ht.synced, ht.bounded, ht.keys, ht.puts, ht.value, ht.issued, ht.target⟩
  · obtain ⟨rfl, rfl⟩ : _ = c' ∧ some n = r := by simpa [hg] using he
    refine ⟨ht.safe.splice hm, ht.synced, ht.bounded, ?_, ?_, ht.value, ?_, ?_⟩
    · rw [keys_splice ht.synced hm hn, recentKeys_get_some, ht.front_keys hn]
    · intro k
      have hput : key ∈ h.filterMap Entry.putKey :=
        (ht.puts key).1 (List.mem_of_mem_take (ht.mem_recent hn))
      simp only [recentKeys_get_some, Recency.mem_front, ht.puts,
        List.filterMap_cons_none
          (show Entry.putKey (.get key (some n) : Entry K V) = none from rfl)]
      exact or_iff_right_of_imp fun hk => hk ▸ hput
    · intro p hp
      rw [pointee_get_some]
      split
      · exact ⟨key, rfl⟩
      · rename_i hne
        exact ht.issued p (by simpa [Ne.symm hne] using hp)
    · intro p k hp
      rw [pointee_get_some] at hp
      split at hp
      · rename_i heq
        subst heq
        cases hp
        exact ⟨ht.safe.fresh n hm, fun k' w hw => by
          simpa using congrArg (·.map Prod.fst) (hw.symm.trans hn)⟩
      · exact ht.target p k hp

/-- Storing a value in a node: `e` is the put or the write that did it. -/
theorem Tracks.assign_value (ht : Tracks capacity h s) (hn : s.cache.cells n = some (key, v))
    (he : ∀ k, lastValue k (e :: h) = if key = k then some value else lastValue k h) :
    ∀ m k w, Function.update s.cache.cells n (some (key, value)) m = some (k, w) →
      lastValue k (e :: h) = some w := by
  intro m k w hm
  rw [he]
  rcases eq_or_ne m n with rfl | hne
  · obtain ⟨rfl, rfl⟩ : key = k ∧ value = w := by simpa using hm
    simp
  · rw [Function.update_of_ne hne] at hm
    have hk : key ≠ k := by
      rintro rfl
      exact hne (Synced.inj ht.synced hn hm)
    rw [if_neg hk]
    exact ht.value m k w hm

theorem Tracks.update (ht : Tracks capacity h s) (hn : s.cache.cells n = some (key, v)) :
    Tracks capacity (.put key value :: h) { s with cache := { s.cache with
      list := Recency.front n s.cache.list
      cells := Function.update s.cache.cells n (some (key, value)) } } := by
  have hm := ht.safe.mem hn
  have hsync : Synced { s.cache with
      cells := Function.update s.cache.cells n (some (key, value)) } := ht.synced.assign hn
  refine ⟨(ht.safe.assign hn).splice hm, hsync, ht.bounded, ?_, ?_,
    ht.assign_value hn fun k => rfl, ht.issued, fun p k hp => ⟨(ht.target p k hp).1, ?_⟩⟩
  · rw [recentKeys_put, ← ht.front_keys hn, ← keys_assign hn]
    exact keys_splice hsync hm (v := value) (by simp)
  · intro k
    simp [ht.puts, Entry.putKey]
  · intro k' w hw
    rcases eq_or_ne p n with rfl | hne
    · obtain ⟨rfl, -⟩ : key = k' ∧ value = w := by simpa using hw
      exact (ht.target p k hp).2 _ v hn
    · exact (ht.target p k hp).2 k' w (by simpa [Function.update_of_ne hne] using hw)

theorem Tracks.insert (ht : Tracks capacity h s) (hl : s.cache.map.lookup key = none)
    (hr : Room s.cache c₁) :
    Tracks capacity (.put key value :: h) { s with cache := (c₁.insert key value none).1 } := by
  obtain ⟨h₁, hroom, hsync, hnone⟩ := ht.safe.room hr
  have hpos : 0 < capacity := ht.bounded ▸ ht.safe.pos
  have hcap : c₁.capacity = s.cache.capacity := by cases hr <;> rfl
  -- the other live nodes are nodes of the cache before, with other keys
  have hold : ∀ m k w, m ≠ c₁.next → (c₁.insert key value none).1.cells m = some (k, w) →
      s.cache.cells m = some (k, w) ∧ key ≠ k := by
    intro m k w hne hm
    rw [insert_cells hne] at hm
    rcases hr.cells hl m with ⟨-, hcell⟩ | ⟨-, hcell⟩
    · simp [hcell] at hm
    · rw [hcell] at hm
      refine ⟨hm, ?_⟩
      rintro rfl
      simp [ht.synced m key w hm] at hl
  have hnew : (c₁.insert key value none).1.cells c₁.next = some (key, value) := by
    simp [Cache.insert, Cache.pushFront]
  refine ⟨h₁.insert hroom, (hsync ht.synced).insert (hnone key hl) (by simp),
    hcap.trans ht.bounded, ?_, ?_, ?_, ht.issued, ?_⟩
  · rw [h₁.keys_insert, hr.keys ht.safe, ht.bounded, ht.keys, recentKeys_put,
      Recency.take_front_of_notMem (ht.keys ▸ ht.synced.notMem_keys hl) hpos]
  · intro k
    simp [ht.puts, Entry.putKey]
  · intro m k w hm
    rw [lastValue_put]
    rcases eq_or_ne m c₁.next with rfl | hne
    · obtain ⟨rfl, rfl⟩ : key = k ∧ value = w := by simpa using hnew.symm.trans hm
      simp
    · obtain ⟨hm, hk⟩ := hold m k w hne hm
      rw [if_neg hk]
      exact ht.value m k w hm
  · intro p k hp
    obtain ⟨hlt, hkey⟩ := ht.target p k hp
    rw [← hr.next] at hlt
    refine ⟨Nat.lt_succ_of_lt hlt, fun k' w hw => ?_⟩
    exact hkey k' w (hold p k' w (Nat.ne_of_lt hlt) hw).1

theorem Tracks.write (ht : Tracks capacity h s) (hp : p ∈ s.issued)
    (he : s.cache.assign p value = some c') :
    Tracks capacity (.write p value :: h) { s with cache := c' } := by
  obtain ⟨⟨key, v⟩, hn, rfl⟩ := Option.map_eq_some_iff.1 he
  have hptr : pointee p h = some key := by
    obtain ⟨k, hk⟩ := ht.issued p hp
    rw [hk, (ht.target p k hk).2 key v hn]
  refine ⟨ht.safe.assign hn, ht.synced.assign hn, ht.bounded, (keys_assign hn).trans ht.keys,
    ht.puts, ht.assign_value hn fun k => ?_, ht.issued,
    fun q k hq => ⟨(ht.target q k hq).1, ?_⟩⟩
  · rw [lastValue_write, hptr]
    simp
  · intro k' w hw
    rcases eq_or_ne q p with rfl | hne
    · obtain ⟨rfl, -⟩ : key = k' ∧ value = w := by simpa using hw
      exact (ht.target q k hq).2 _ v hn
    · exact (ht.target q k hq).2 k' w (by simpa [Function.update_of_ne hne] using hw)

theorem Tracks.step (ht : Tracks capacity h s) (hs : s.Step e s') :
    Tracks capacity (e :: h) s' := by
  cases hs with
  | get he => exact ht.get he
  | @put key value c' he =>
    rcases ht.safe.put_cases key value none with ⟨n, v, hl, hm, hn, hp⟩ | ⟨hl, c₁, hr, hp⟩
    · obtain rfl : _ = c' := by simpa [hp] using he
      exact ht.update hn
    · obtain rfl : (c₁.insert key value none).1 = c' :=
        congrArg Prod.fst (Option.some.inj (hp.symm.trans he))
      exact ht.insert hl hr
  | write hp he => exact ht.write hp he

/-! ## Answers -/

theorem Tracks.distinctPuts (ht : Tracks capacity h s) :
    (recentKeys h).length = Lru.distinctPuts h := by
  refine List.Perm.length_eq ((List.perm_ext_iff_of_nodup (recentKeys_nodup h)
    (List.nodup_dedup _)).2 fun k => ?_)
  rw [ht.puts, List.mem_dedup]

theorem Tracks.answers (ht : Tracks capacity h s) : Answers capacity h s.cache := by
  have htake : (recentKeys h).take (min capacity (Lru.distinctPuts h)) =
      (recentKeys h).take capacity := by
    rw [← ht.distinctPuts, List.take_eq_take_iff]
    omega
  refine ⟨?_, ?_⟩
  · intro key
    rw [htake, ← ht.keys]
    rcases ht.safe.get_cases key with ⟨hl, hg⟩ | ⟨n, v, hl, hm, hn, hg⟩
    · exact ⟨_, _, hg, by simpa using ht.synced.notMem_keys hl, by simp⟩
    · refine ⟨_, _, hg, by simpa using mem_keys.2 ⟨n, hm, v, hn⟩, fun p hp => ?_⟩
      obtain rfl : n = p := Option.some.inj hp
      exact ⟨v, hn, ht.value n key v hn⟩
  · intro key value
    rcases ht.safe.put_cases key value none with ⟨n, v, -, -, -, hp⟩ | ⟨-, c₁, -, hp⟩
    · exact ⟨_, hp⟩
    · exact ⟨_, hp⟩

theorem client_tracks {hs : List (Entry K V)} (h : Exec (client K V capacity) hs s) :
    Tracks capacity hs.reverse s :=
  h.trace_invariant (I := fun hs s => Tracks capacity hs.reverse s) (fun _ h0 => .init h0)
    fun hs _ e _ _ ht hstep => by simpa using ht.step hstep

/-! ## The concurrent cache -/

section
variable {t t' : Concurrent ι K V} {a : Action ι K V} {ls : List (Action ι K V)}

theorem Concurrent.Step.refines (hs : t.Step a t') :
    Run (Lru.client K V capacity) t.client a.entry.toList t'.client := by
  cases hs with
  | call | lock | unlock => exact .nil _
  | run _ _ he => exact .single he
  | write _ he => exact .single he

/-- The concurrent cache does what a client does with the calls in the order of their bodies. -/
theorem concurrent_refines (h : Exec (concurrent ι K V capacity) ls t) :
    Exec (client K V capacity) (ls.filterMap Action.entry) t.client := by
  have hsim : ∃ s, Exec (client K V capacity) (ls.flatMap fun a => a.entry.toList) s ∧
      t.client = s := by
    refine h.simulate (R := fun t s => t.client = s) (fun t h0 => ?_) fun t a t' s hr hs => ?_
    · exact ⟨t.client, h0.1, rfl⟩
    · exact ⟨t'.client, hr ▸ hs.refines, rfl⟩
  obtain ⟨s, hs, rfl⟩ := hsim
  rwa [List.filterMap_eq_flatMap_toList]

/-- A thread that runs its body, or has run it, holds the mutex; the bodies run in the order in
which the calls acquired it. -/
structure Ordered (ls : List (Action ι K V)) (t : Concurrent ι K V) : Prop where
  owner : ∀ i, (∃ r, t.phase i = .locked r) ∨ t.phase i = .done → t.mutex = some i
  order : ls.filterMap Action.request =
    (ls.filterMap Action.entry).filterMap Entry.request ++ t.pending.toList

omit [DecidableEq K] in
theorem Concurrent.pending_update {i : ι} {p : Phase K V} (hold : ∀ r, t.phase i ≠ .locked r)
    (hnew : ∀ r, p ≠ .locked r) :
    ({ t with phase := Function.update t.phase i p } : Concurrent ι K V).pending = t.pending := by
  unfold Concurrent.pending
  congr 1
  funext j
  rcases eq_or_ne j i with rfl | hne
  · cases hp : t.phase j <;> cases p <;> simp_all
  · simp [Function.update_of_ne hne]

theorem filterMap_snoc {α β : Type*} (f : α → Option β) (xs : List α) (x : α) :
    (xs ++ [x]).filterMap f = xs.filterMap f ++ (f x).toList := by
  rw [List.filterMap_append]
  cases hx : f x <;> simp [hx]

omit [DecidableEq ι] [DecidableEq K] in
/-- What one action adds to both sides of `Ordered.order`. -/
theorem Ordered.snoc (h : Ordered ls t)
    (ha : t.pending.toList ++ a.request.toList =
      (a.entry.bind Entry.request).toList ++ t'.pending.toList) :
    (ls ++ [a]).filterMap Action.request =
      ((ls ++ [a]).filterMap Action.entry).filterMap Entry.request ++ t'.pending.toList := by
  have he : (a.entry.toList.filterMap Entry.request) = (a.entry.bind Entry.request).toList := by
    cases a.entry with
    | none => rfl
    | some e => cases he : e.request <;> simp [he]
  rw [filterMap_snoc, filterMap_snoc, h.order, List.filterMap_append, he, List.append_assoc, ha,
    List.append_assoc]

theorem Ordered.step (h : Ordered ls t) (hs : t.Step a t') : Ordered (ls ++ [a]) t' := by
  cases hs with
  | @call i r hi =>
    refine ⟨?_, h.snoc ?_⟩
    · intro j hj
      rcases eq_or_ne j i with rfl | hne
      · simp at hj
      · exact h.owner j (by simpa [Function.update_of_ne hne] using hj)
    · rw [Concurrent.pending_update (by simp [hi]) (by simp)]
      simp [Action.request, Action.entry]
  | @lock i r hi hm =>
    refine ⟨?_, h.snoc ?_⟩
    · intro j hj
      rcases eq_or_ne j i with rfl | hne
      · rfl
      · have := h.owner j (by simpa [Function.update_of_ne hne] using hj)
        simp [hm] at this
    · simp [Action.request, Action.entry, Concurrent.pending, hm]
  | @run i r e client' hi hreq he =>
    have hm : t.mutex = some i := h.owner i (.inl ⟨r, hi⟩)
    refine ⟨?_, h.snoc ?_⟩
    · intro j hj
      rcases eq_or_ne j i with rfl | hne
      · exact hm
      · exact h.owner j (by simpa [Function.update_of_ne hne] using hj)
    · simp [Action.request, Action.entry, Concurrent.pending, hm, hi, hreq]
  | @unlock i hi =>
    have hm : t.mutex = some i := h.owner i (.inr hi)
    refine ⟨?_, h.snoc ?_⟩
    · intro j hj
      rcases eq_or_ne j i with rfl | hne
      · simp at hj
      · have := h.owner j (by simpa [Function.update_of_ne hne] using hj)
        exact absurd (Option.some.inj (hm.symm.trans this)) (Ne.symm hne)
    · simp [Action.request, Action.entry, Concurrent.pending, hm, hi]
  | write => exact ⟨h.owner, h.snoc (by simp [Action.request, Action.entry, Entry.request,
      Concurrent.pending])⟩

theorem concurrent_ordered (h : Exec (concurrent ι K V capacity) ls t) : Ordered ls t := by
  refine h.trace_invariant (I := Ordered) (fun t h0 => ⟨?_, ?_⟩)
    fun _ _ _ _ _ ho hs => ho.step hs
  · intro i hi
    simp [h0.2.2 i] at hi
  · simp [Concurrent.pending, h0.2.1]

end

/-- **Reference behaviour.** After every sequence of calls and writes through valid pointers the
cache answers like the reference model; `concurrent_lru_cache` does so with the calls in the
order in which they hold the mutex. -/
theorem answers_reference (ι : Type*) [DecidableEq ι] (capacity : Nat) :
    (∀ (hs : List (Entry K V)) s, Exec (client K V capacity) hs s →
      Answers capacity hs.reverse s.cache) ∧
    ∀ (ls : List (Action ι K V)) t, Exec (concurrent ι K V capacity) ls t →
      Answers capacity (ls.filterMap Action.entry).reverse t.client.cache ∧
      ls.filterMap Action.request =
        (ls.filterMap Action.entry).filterMap Entry.request ++ t.pending.toList :=
  ⟨fun _ _ h => (client_tracks h).answers, fun _ _ h =>
    ⟨(client_tracks (concurrent_refines h)).answers, (concurrent_ordered h).order⟩⟩

/-- A hit, a write through the pointer it returned, an eviction; two threads whose calls overlap. -/
theorem answers_reference_evict :
    (∃ s, Exec (client Nat Nat 2)
      [.put 1 10, .put 2 20, .get 1 (some 0), .write 0 11, .put 3 30] s ∧
      Answers 2 [.put 3 30, .write 0 11, .get 1 (some 0), .put 2 20, .put 1 10] s.cache) ∧
    ∃ t, Exec (concurrent Bool Nat Nat 1) [.call true (.put 1 10), .call false (.get 1),
      .lock true (.put 1 10), .run true (.put 1 10), .unlock true, .lock false (.get 1)] t ∧
      Answers 1 [.put 1 10] t.client.cache := by
  have h0 : Exec (client Nat Nat 2) [] ⟨.empty Nat Nat 2, []⟩ := .init ⟨rfl, rfl⟩
  have h1 := h0.snoc (.put (show Cache.put _ 1 10 none = some (_, .returned) from rfl))
  have h2 := h1.snoc (.put (show Cache.put _ 2 20 none = some (_, .returned) from rfl))
  have h3 := h2.snoc (.get (show Cache.get _ 1 = some (_, some 0) from rfl))
  have h4 := h3.snoc (.write (p := 0) (by decide) (show Cache.assign _ 0 11 = some _ from rfl))
  have h5 := h4.snoc (.put (show Cache.put _ 3 30 none = some (_, .returned) from rfl))
  have g0 : Exec (concurrent Bool Nat Nat 1) [] ⟨⟨.empty Nat Nat 1, []⟩, none, fun _ => .idle⟩ :=
    .init ⟨⟨rfl, rfl⟩, rfl, fun _ => rfl⟩
  have g2 := (g0.snoc (.call (t := true) (r := .put 1 10) rfl)).snoc
    (.call (t := false) (r := .get 1) rfl)
  have g3 := g2.snoc (.lock (t := true) rfl rfl)
  have g4 := g3.snoc (.run (t := true) rfl rfl
    (.put (show Cache.put _ 1 10 none = some (_, .returned) from rfl)))
  have g6 := (g4.snoc (.unlock (t := true) rfl)).snoc (.lock (t := false) rfl rfl)
  exact ⟨⟨_, h5, (answers_reference Bool 2).1 _ _ h5⟩,
    ⟨_, g6, ((answers_reference Bool 1).2 _ _ g6).1⟩⟩

end Lru
