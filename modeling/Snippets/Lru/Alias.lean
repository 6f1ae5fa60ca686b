import Snippets.Lru.System

/-!
# Keys inside the cache

`put` takes its key by reference. `Cache.putRef` is `put` with each read of `key` at its place: the
key may be one of the caller's own, or a part of a value that is stored in the cache, reached
through a pointer that `get` returned. Reading the key through a node that is gone is undefined
behaviour, `none` here.

`users`: callers that also write through the pointers they have, and whose puts may exit by
exceptions.
-/

namespace Lru

open Lts

variable {K V : Type*}

/-- What the key argument refers to. -/
inductive KeyRef (K V : Type*)
  | copy (key : K)
  /-- `part` finds the key in the value of node `n`. -/
  | inside (n : Nat) (part : V → Option K)

/-- The key, read through the reference; `none` if that refers into a node that has been freed, or
to no key of it. -/
def Cache.readKey (c : Cache K V) : KeyRef K V → Option K
  | .copy key => some key
  | .inside n part => (c.cells n).bind fun (_, value) => part value

/-- The node a key argument refers into. -/
def KeyRef.node : KeyRef K V → Option Nat
  | .copy _ => none
  | .inside n _ => some n

variable [DecidableEq K]

/-- `list_.push_front ({ key, std::move (value) }); map_[key] = list_.begin ();` -/
def Cache.insertRef (c : Cache K V) (ref : KeyRef K V) (value : V) (throwAt : Option PutThrow) :
    Option (Cache K V × Exit) :=
  (c.readKey ref).bind fun key =>
    match throwAt with
    | some .buildPair | some .allocNode => some (c, .threw)
    | some .insertMap =>
      let c' := c.pushFront key value
      (c'.readKey ref).map fun _ => (c', .threw)
    | none =>
      let c' := c.pushFront key value
      (c'.readKey ref).map fun key => ({ c' with map := c'.map.insert key c.next }, .returned)

/-- `put`, exiting at the step `throwAt` if it gets there. -/
def Cache.putRef (c : Cache K V) (ref : KeyRef K V) (value : V) (throwAt : Option PutThrow) :
    Option (Cache K V × Exit) :=
  (c.readKey ref).bind fun key =>
    match c.map.lookup key with
    | some n => ((c.assign n value).bind (·.splice n)).map (·, .returned)
    | none =>
      (if c.list.length ≥ c.capacity then c.evict else some c).bind (·.insertRef ref value throwAt)

/-! ## Callers -/

/-- What a caller does: calls, with the arguments and the exits, and writes through the pointers it
was given. -/
inductive Use (K V : Type*)
  | get (key : K) (ret : Option Nat)
  | put (ref : KeyRef K V) (value : V) (throwAt : Option PutThrow) (exit : Exit)
  | write (ptr : Nat) (value : V)

/-- The uses that have a meaning. A key inside of a node is one that the caller has a pointer to. -/
inductive Client.Act (s : Client K V) : Use K V → Client K V → Prop
  | get {key : K} {c' : Cache K V} {r : Option Nat} :
      s.cache.get key = some (c', r) → Act s (.get key r) ⟨c', r.toList ++ s.issued⟩
  | put {ref : KeyRef K V} {value : V} {throwAt : Option PutThrow} {exit : Exit}
      {c' : Cache K V} : (∀ n, ref.node = some n → n ∈ s.issued) →
      s.cache.putRef ref value throwAt = some (c', exit) →
      Act s (.put ref value throwAt exit) { s with cache := c' }
  | write {p : Nat} {value : V} {c' : Cache K V} :
      p ∈ s.issued → s.cache.assign p value = some c' →
      Act s (.write p value) { s with cache := c' }

/-- A caller of a new cache, who may pass references into the cache as keys. -/
def users (K V : Type*) [DecidableEq K] (capacity : Nat) : System (Client K V) (Use K V) where
  init s := Cache.create K V capacity = .ok s.cache ∧ s.issued = []
  step := Client.Act

/-! ## What is cached -/

/-- The value cached for a key: the one that `get` gives a pointer to. -/
def Cache.cached (c : Cache K V) (key : K) : Option V :=
  (c.map.lookup key).bind fun n => (c.cells n).map Prod.snd

/-- The key of the entry that `put` evicts if it inserts: the last one of a full list. -/
def Cache.victim (c : Cache K V) : Option K :=
  if c.list.length ≥ c.capacity then
    c.list.getLast?.bind fun n => (c.cells n).map Prod.fst
  else none

end Lru
