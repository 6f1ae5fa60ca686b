import Mathlib.Data.List.Dedup
import Snippets.Lib.Recency

/-!
# The reference LRU model

What an LRU cache of a given capacity holds, as a function of the calls made and the answers
given so far. A history lists them latest first. `recentKeys` are the keys touched (by a put, or
by a get that found them), most recent first; a cache of capacity `n` holds the first `n` of
them, each with its last value (`lastValue`), stored by a put or written through a pointer.
-/

namespace Lru

variable {K V : Type*} [DecidableEq K]

/-- One call with its answer, or one write through a pointer. -/
inductive Entry (K V : Type*)
  | get (key : K) (ret : Option Nat)
  | put (key : K) (value : V)
  | write (ptr : Nat) (value : V)
  deriving DecidableEq

/-- The key an entry touches. -/
def Entry.touched : Entry K V → Option K
  | .get key (some _) => some key
  | .get _ none => none
  | .put key _ => some key
  | .write _ _ => none

/-- The key that the entry is a put of. -/
def Entry.putKey : Entry K V → Option K
  | .put key _ => some key
  | _ => none

/-- The touched keys, each once, the most recently touched first. -/
def recentKeys : List (Entry K V) → List K
  | [] => []
  | e :: h =>
    match e.touched with
    | some key => Recency.front key (recentKeys h)
    | none => recentKeys h

/-- The number of distinct keys ever put. -/
def distinctPuts (h : List (Entry K V)) : Nat := (h.filterMap Entry.putKey).dedup.length

/-- The key for which a get last returned pointer `p`. -/
def pointee (p : Nat) : List (Entry K V) → Option K
  | [] => none
  | .get key (some q) :: h => if q = p then some key else pointee p h
  | _ :: h => pointee p h

/-- The last value put for `key` or written through a pointer to it. -/
def lastValue (key : K) : List (Entry K V) → Option V
  | [] => none
  | .put k v :: h => if k = key then some v else lastValue key h
  | .write p v :: h => if pointee p h = some key then some v else lastValue key h
  | .get _ _ :: h => lastValue key h

/-! ## Equations -/

section
variable {key k : K} {value : V} {h : List (Entry K V)} {n p : Nat}

@[simp] theorem recentKeys_get_some :
    recentKeys (.get key (some n) :: h) = Recency.front key (recentKeys h) := rfl

@[simp] theorem recentKeys_put :
    recentKeys (.put key value :: h) = Recency.front key (recentKeys h) := rfl

omit [DecidableEq K] in
@[simp] theorem pointee_get_some :
    pointee p (.get key (some n) :: h) = if n = p then some key else pointee p h := rfl

@[simp] theorem lastValue_put :
    lastValue k (.put key value :: h) = if key = k then some value else lastValue k h := rfl

@[simp] theorem lastValue_write :
    lastValue k (.write p value :: h) =
      if pointee p h = some k then some value else lastValue k h := rfl

end

theorem recentKeys_nodup (h : List (Entry K V)) : (recentKeys h).Nodup := by
  induction h with
  | nil => exact List.nodup_nil
  | cons e h ih =>
    unfold recentKeys
    split
    · exact Recency.nodup_front ih
    · exact ih

end Lru
