import Snippets.Lib.Lts
import Snippets.Lru.Model
import Snippets.Lru.Spec

/-!
# Callers of the cache

* `calls`: any sequence of `get` and `put`, the puts exiting by exceptions wherever they can.
* `client`: `get`, `put` (nothing throws) and writes through pointers that `get` returned and that
  are still valid.
* `twin`: two caches of different capacities that get the same calls.
* `fetches`: a caller that asks for a key and, where it is not cached, puts it.
* `concurrent`: `null/concurrent_lru_cache.h`, the same code under `mutex_`, called by any number
  of threads.
* `readers`: threads that call `get` and `put` on one `concurrent_lru_cache`, each call a step
  under `mutex_`, and read through the pointer of their last `get` in later steps.
-/

namespace Lru

open Lts

variable {K V ι : Type*} [DecidableEq K]

/-! ## Calls -/

/-- A call with its arguments, and for a put the step at which it throws if it gets there. -/
inductive Call (K V : Type*)
  | get (key : K)
  | put (key : K) (value : V) (throwAt : Option PutThrow)
  deriving DecidableEq

/-- The cache after a call, whether that returns or throws; `none` if the call is stuck. -/
def Cache.call (c : Cache K V) : Call K V → Option (Cache K V)
  | .get key => (c.get key).map Prod.fst
  | .put key value throwAt => (c.put key value throwAt).map Prod.fst

/-- A cache of the given capacity, and calls on it. -/
def calls (K V : Type*) [DecidableEq K] (capacity : Nat) : System (Cache K V) (Call K V) where
  init c := Cache.create K V capacity = .ok c
  step c call c' := c.call call = some c'

/-! ## A client and its pointers -/

/-- The cache and the pointers that `get` returned so far. -/
structure Client (K V : Type*) where
  cache : Cache K V
  issued : List Nat

/-- A call that returns, or a write through a pointer that some `get` returned. -/
inductive Client.Step (s : Client K V) : Entry K V → Client K V → Prop
  | get {key : K} {c' : Cache K V} {r : Option Nat} :
      s.cache.get key = some (c', r) → Step s (.get key r) ⟨c', r.toList ++ s.issued⟩
  | put {key : K} {value : V} {c' : Cache K V} :
      s.cache.put key value none = some (c', .returned) →
      Step s (.put key value) { s with cache := c' }
  | write {p : Nat} {value : V} {c' : Cache K V} :
      p ∈ s.issued → s.cache.assign p value = some c' →
      Step s (.write p value) { s with cache := c' }

/-- A client of a new cache. -/
def client (K V : Type*) [DecidableEq K] (capacity : Nat) : System (Client K V) (Entry K V) where
  init s := Cache.create K V capacity = .ok s.cache ∧ s.issued = []
  step := Client.Step

/-! ## A caller that fills the cache -/

/-- `get (key)`, and `put (key, value)` if that returns `nullptr`. `true`: found. -/
def Cache.fetch (c : Cache K V) (key : K) (value : V) : Option (Cache K V × Bool) :=
  (c.get key).bind fun
    | (c, some _) => some (c, true)
    | (c, none) => (c.put key value none).map fun (c, _) => (c, false)

/-- A fetch of a value by its key, and whether the cache had it. -/
structure Fetch (K V : Type*) where
  key : K
  value : V
  hit : Bool
  deriving DecidableEq

/-- The fetches that the cache did not have. -/
def misses (fs : List (Fetch K V)) : Nat := fs.countP (!·.hit)

/-! ## `concurrent_lru_cache` -/

/-- A call on `concurrent_lru_cache`. -/
inductive Request (K V : Type*)
  | get (key : K)
  | put (key : K) (value : V)
  deriving DecidableEq

/-- The call an entry is the answer of. -/
def Entry.request : Entry K V → Option (Request K V)
  | .get key _ => some (.get key)
  | .put key value => some (.put key value)
  | .write _ _ => none

/-- The call, which does not throw. -/
def Request.call : Request K V → Call K V
  | .get key => .get key
  | .put key value => .put key value none

/-- Two caches, of capacities `c₁` and `c₂`, and every call made on both. -/
def twin (K V : Type*) [DecidableEq K] (c₁ c₂ : Nat) :
    System (Cache K V × Cache K V) (Request K V) where
  init s := Cache.create K V c₁ = .ok s.1 ∧ Cache.create K V c₂ = .ok s.2
  step s r s' := s.1.call r.call = some s'.1 ∧ s.2.call r.call = some s'.2

/-- Where a thread is in a call. -/
inductive Phase (K V : Type*)
  | idle
  /-- before `lock` has the mutex -/
  | called (r : Request K V)
  | locked (r : Request K V)
  /-- the body is done, `lock` is not yet destroyed -/
  | done
  deriving DecidableEq

/-- `concurrent_lru_cache`: the cache with the pointers that it gave away, the thread that has the
mutex, and where each thread is. -/
structure Concurrent (ι K V : Type*) where
  client : Client K V
  mutex : Option ι
  phase : ι → Phase K V

/-- What a thread does: it calls, locks the mutex, runs the body of the call, unlocks, or writes
through a pointer between its calls. -/
inductive Action (ι K V : Type*)
  | call (t : ι) (r : Request K V)
  | lock (t : ι) (r : Request K V)
  | run (t : ι) (e : Entry K V)
  | unlock (t : ι)
  | write (t : ι) (ptr : Nat) (value : V)
  deriving DecidableEq

/-- The call that acquired the mutex. -/
def Action.request : Action ι K V → Option (Request K V)
  | .lock _ r => some r
  | _ => none

/-- What was done to the cache. -/
def Action.entry : Action ι K V → Option (Entry K V)
  | .run _ e => some e
  | .write _ p value => some (.write p value)
  | _ => none

/-- The call that holds the mutex and has not run yet. -/
def Concurrent.pending (s : Concurrent ι K V) : Option (Request K V) :=
  s.mutex.bind fun t =>
    match s.phase t with
    | .locked r => some r
    | _ => none

/-- Bodies run under the mutex; everything else interleaves, writes through pointers included. -/
inductive Concurrent.Step [DecidableEq ι] (s : Concurrent ι K V) :
    Action ι K V → Concurrent ι K V → Prop
  | call {t : ι} {r : Request K V} : s.phase t = .idle →
      Step s (.call t r) { s with phase := Function.update s.phase t (.called r) }
  | lock {t : ι} {r : Request K V} : s.phase t = .called r → s.mutex = none →
      Step s (.lock t r)
        { s with mutex := some t, phase := Function.update s.phase t (.locked r) }
  | run {t : ι} {r : Request K V} {e : Entry K V} {client' : Client K V} :
      s.phase t = .locked r → e.request = some r → s.client.Step e client' →
      Step s (.run t e) { s with client := client', phase := Function.update s.phase t .done }
  | unlock {t : ι} : s.phase t = .done →
      Step s (.unlock t) { s with mutex := none, phase := Function.update s.phase t .idle }
  | write {t : ι} {p : Nat} {value : V} {client' : Client K V} :
      s.phase t = .idle → s.client.Step (.write p value) client' →
      Step s (.write t p value) { s with client := client' }

/-- Threads that share a `concurrent_lru_cache`. -/
def concurrent (ι K V : Type*) [DecidableEq ι] [DecidableEq K] (capacity : Nat) :
    System (Concurrent ι K V) (Action ι K V) where
  init s := (client K V capacity).init s.client ∧ s.mutex = none ∧ ∀ t, s.phase t = .idle
  step := Concurrent.Step

/-- The cache answers like the reference model of the given capacity after the history `h`
(latest entry first), and every put returns. -/
def Answers (capacity : Nat) (h : List (Entry K V)) (c : Cache K V) : Prop :=
  (∀ key, ∃ c' r, c.get key = some (c', r) ∧
    (r.isSome ↔ key ∈ (recentKeys h).take (min capacity (distinctPuts h))) ∧
    ∀ p, r = some p → ∃ value, c'.cells p = some (key, value) ∧ lastValue key h = some value) ∧
  ∀ key value, ∃ c', c.put key value none = some (c', .returned)

/-! ## Threads that read through their pointers -/

/-- What a thread does: a call, with the exit of a put, or a read through the pointer its last
`get` returned. -/
inductive Access (ι K V : Type*)
  | get (t : ι) (key : K)
  | put (t : ι) (key : K) (value : V) (throwAt : Option PutThrow) (exit : Exit)
  | read (t : ι)
  deriving DecidableEq

/-- The cache, and the pointer that each thread may still read through. -/
structure Readers (ι K V : Type*) where
  cache : Cache K V
  /-- the key and the pointer of each thread's last `get` that did not return `nullptr`, if that
  was its last one -/
  last : ι → Option (K × Nat)

/-- Calls of any thread, in the order in which they get the mutex, and reads through the last
pointer. -/
inductive Readers.Step [DecidableEq ι] (s : Readers ι K V) : Access ι K V → Readers ι K V → Prop
  | get {t : ι} {key : K} {c' : Cache K V} {r : Option Nat} :
      s.cache.get key = some (c', r) →
      Step s (.get t key) ⟨c', Function.update s.last t (r.map (key, ·))⟩
  | put {t : ι} {key : K} {value : V} {throwAt : Option PutThrow} {exit : Exit}
      {c' : Cache K V} :
      s.cache.put key value throwAt = some (c', exit) →
      Step s (.put t key value throwAt exit) { s with cache := c' }
  | read {t : ι} : (s.last t).isSome → Step s (.read t) s

/-- Threads that read through the pointer of their last `get`. -/
def readers (ι K V : Type*) [DecidableEq ι] [DecidableEq K] (capacity : Nat) :
    System (Readers ι K V) (Access ι K V) where
  init s := Cache.create K V capacity = .ok s.cache ∧ ∀ t, s.last t = none
  step := Readers.Step

/-- Node `p` is live and holds a value that a put among `ls` stored under `key`. -/
def Stored (ls : List (Access ι K V)) (c : Cache K V) (key : K) (p : Nat) : Prop :=
  ∃ value, c.cells p = some (key, value) ∧ ∃ u throwAt, .put u key value throwAt .returned ∈ ls

/-- Whatever thread reads next: its node is live and holds a value stored under the key of its
`get`. `ls`: what was done so far. -/
def Readers.Readable (ls : List (Access ι K V)) (s : Readers ι K V) : Prop :=
  ∀ t key p, s.last t = some (key, p) → Stored ls s.cache key p

end Lru
