import Mathlib.Data.List.AList
import Mathlib.Logic.Function.Basic
import Snippets.Lib.Recency

/-!
# `lru_cache`

The cache of `null/lru_cache.h`. The nodes of `list_` are heap cells: a node is an address, the
list holds the addresses in order and `cells` what is stored at each live one. `map_` holds
iterators into the list, that is addresses. Addresses are never used twice, so that an access
through a stale iterator or pointer is always one to a cell that is not live.

`none` is undefined behaviour: a dead or foreign iterator, `back ()` of an empty list. A call of
`put` may exit by an exception at the three steps named by `PutThrow`.
-/

namespace Lru

variable {K V : Type*} [DecidableEq K]

/-- `lru_cache`: the list of nodes, the map from keys to nodes, and the heap with the nodes. -/
structure Cache (K V : Type*) where
  capacity : Nat
  /-- the nodes of `list_`, front first -/
  list : List Nat
  /-- the live nodes and the pair in each -/
  cells : Nat → Option (K × V)
  map : AList fun _ : K => Nat
  /-- the next address the allocator hands out -/
  next : Nat

/-- The steps of `put` that can throw: building the pair, allocating the list node, inserting
into the map. -/
inductive PutThrow
  | buildPair
  | allocNode
  | insertMap
  deriving DecidableEq

/-- How a call of `put` ends. -/
inductive Exit
  | returned
  | threw
  deriving DecidableEq

/-! ## `std::list` -/

/-- `list_.splice (list_.begin (), list_, n)` -/
def Cache.splice (c : Cache K V) (n : Nat) : Option (Cache K V) :=
  if n ∈ c.list then some { c with list := Recency.front n c.list } else none

/-- `n->second = value` -/
def Cache.assign (c : Cache K V) (n : Nat) (value : V) : Option (Cache K V) :=
  (c.cells n).map fun (key, _) => { c with cells := Function.update c.cells n (some (key, value)) }

/-- `list_.push_front ({ key, value })` -/
def Cache.pushFront (c : Cache K V) (key : K) (value : V) : Cache K V :=
  { c with
    list := c.next :: c.list
    cells := Function.update c.cells c.next (some (key, value))
    next := c.next + 1 }

/-! ## The cache -/

/-- What the constructor makes of a capacity that is not 0. -/
def Cache.empty (K V : Type*) (capacity : Nat) : Cache K V :=
  { capacity, list := [], cells := fun _ => none, map := ∅, next := 0 }

/-- The constructor. -/
def Cache.create (K V : Type*) (capacity : Nat) : Except String (Cache K V) :=
  if capacity = 0 then .error "LRUCache capacity must be positive."
  else .ok (.empty K V capacity)

/-- `get`: the cache and the pointer returned, `none` for `nullptr`. -/
def Cache.get (c : Cache K V) (key : K) : Option (Cache K V × Option Nat) :=
  match c.map.lookup key with
  | none => some (c, none)
  | some n => (c.splice n).bind fun c => (c.cells n).map fun _ => (c, some n)

/-- `map_.erase (list_.back ().first); list_.pop_back ();` -/
def Cache.evict (c : Cache K V) : Option (Cache K V) :=
  c.list.getLast?.bind fun n => (c.cells n).map fun (key, _) =>
    { c with
      map := c.map.erase key
      list := c.list.dropLast
      cells := Function.update c.cells n none }

/-- `list_.push_front ({ key, value }); map_[key] = list_.begin ();` -/
def Cache.insert (c : Cache K V) (key : K) (value : V) : Option PutThrow → Cache K V × Exit
  | some .buildPair | some .allocNode => (c, .threw)
  | some .insertMap => (c.pushFront key value, .threw)
  | none => ({ c.pushFront key value with map := c.map.insert key c.next }, .returned)

/-- `put`, exiting at the step `throwAt` if it gets there. -/
def Cache.put (c : Cache K V) (key : K) (value : V) (throwAt : Option PutThrow) :
    Option (Cache K V × Exit) :=
  match c.map.lookup key with
  | some n => ((c.assign n value).bind (·.splice n)).map (·, .returned)
  | none =>
    (if c.list.length ≥ c.capacity then c.evict else some c).map (·.insert key value throwAt)

/-! ## Contents -/

/-- The pairs in the list, front first. -/
def Cache.contents (c : Cache K V) : List (K × V) := c.list.filterMap c.cells

/-- The keys in the nodes, front first. -/
def Cache.keys (c : Cache K V) : List K := c.list.filterMap fun n => (c.cells n).map Prod.fst

/-- `list_` and `map_` are in one-to-one correspondence. -/
structure InStep (c : Cache K V) : Prop where
  maps : ∀ n ∈ c.list, ∃ key value, c.cells n = some (key, value) ∧ c.map.lookup key = some n
  distinct : c.keys.Nodup
  size : c.list.length = c.map.keys.length
  bound : c.list.length ≤ c.capacity

end Lru
