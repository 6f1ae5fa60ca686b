import Mathlib.Data.List.Nodup
import Mathlib.Logic.Equiv.Basic

/-!
# Things in the custody of holders

Each holder holds one thing or none. `Custody.Conserved all hold out`: of the things `all` that
ever came in, each is held by exactly one holder or has gone out, once. Kept when holders exchange
what they hold (`Conserved.swap`), when a new thing comes in (`Conserved.come`) and when one goes
out (`Conserved.leave`).
-/

namespace Custody

variable {κ α : Type*} {hold : κ → Option α} {all out out' : List α} {k : κ} {a : α}

/-- Of all items, each is held in one place or has gone out, once. -/
structure Conserved (all : List α) (hold : κ → Option α) (out : List α) : Prop where
  unique : ∀ {j k a}, hold j = some a → hold k = some a → j = k
  nodup : out.Nodup
  kept : ∀ {k a}, hold k = some a → a ∉ out
  mem : ∀ {a}, a ∈ all ↔ (∃ k, hold k = some a) ∨ a ∈ out

theorem Conserved.nil : Conserved [] (fun _ : κ => (none : Option α)) [] :=
  ⟨nofun, List.nodup_nil, nofun, by simp⟩

theorem Conserved.perm (h : Conserved all hold out) (hp : out.Perm out') :
    Conserved all hold out' where
  unique := h.unique
  nodup := hp.nodup_iff.1 h.nodup
  kept hk hm := h.kept hk (hp.mem_iff.2 hm)
  mem := by simp only [h.mem, hp.mem_iff, implies_true]

variable [DecidableEq κ]

/-- Two holders exchange what they hold; if one holds nothing, the other one hands it over. -/
theorem Conserved.swap (h : Conserved all hold out) (j k : κ) :
    Conserved all (hold ∘ Equiv.swap j k) out where
  unique ha hb := (Equiv.swap j k).injective (h.unique ha hb)
  nodup := h.nodup
  kept ha := h.kept ha
  mem := by
    intro a
    rw [h.mem, (Equiv.swap j k).exists_congr_left]
    simp

/-- A new thing comes to a holder that holds nothing. -/
theorem Conserved.come (h : Conserved all hold out) (hk : hold k = none) (ha : a ∉ all) :
    Conserved (all ++ [a]) (Function.update hold k (some a)) out := by
  have hnew : ∀ {j b}, Function.update hold k (some a) j = some b →
      j = k ∧ b = a ∨ j ≠ k ∧ hold j = some b := by
    intro j b hj
    rcases eq_or_ne j k with rfl | hne
    · exact .inl ⟨rfl, by simpa using hj.symm⟩
    · exact .inr ⟨hne, by simpa [Function.update_of_ne hne] using hj⟩
  have hfresh : ∀ {j}, hold j ≠ some a := fun hj => ha (h.mem.2 (.inl ⟨_, hj⟩))
  refine ⟨fun hb hc => ?_, h.nodup, fun hb hm => ?_, fun {b} => ?_⟩
  · rcases hnew hb with ⟨rfl, rfl⟩ | ⟨-, hb'⟩
    · rcases hnew hc with ⟨rfl, -⟩ | ⟨-, hc'⟩
      · rfl
      · exact absurd hc' hfresh
    · rcases hnew hc with ⟨-, rfl⟩ | ⟨-, hc'⟩
      · exact absurd hb' hfresh
      · exact h.unique hb' hc'
  · rcases hnew hb with ⟨-, rfl⟩ | ⟨-, hb⟩
    · exact ha (h.mem.2 (.inr hm))
    · exact h.kept hb hm
  · rw [List.mem_append, List.mem_singleton, h.mem]
    constructor
    · rintro ((⟨j, hj⟩ | hm) | rfl)
      · have hne : j ≠ k := by
          rintro rfl
          rw [hk] at hj; cases hj
        exact .inl ⟨j, by rwa [Function.update_of_ne hne]⟩
      · exact .inr hm
      · exact .inl ⟨k, Function.update_self ..⟩
    · rintro (⟨j, hj⟩ | hm)
      · rcases hnew hj with ⟨-, rfl⟩ | ⟨-, hj⟩
        · exact .inr rfl
        · exact .inl (.inl ⟨j, hj⟩)
      · exact .inl (.inr hm)

/-- A holder gives away what it holds, if anything. -/
theorem Conserved.leave (h : Conserved all hold out) (k : κ) :
    Conserved all (Function.update hold k none) (out ++ (hold k).toList) := by
  have hold' : ∀ {j b}, Function.update hold k none j = some b → j ≠ k ∧ hold j = some b := by
    intro j b hj
    rcases eq_or_ne j k with rfl | hne
    · simp at hj
    · exact ⟨hne, by simpa [Function.update_of_ne hne] using hj⟩
  refine ⟨fun hb hc => h.unique (hold' hb).2 (hold' hc).2, ?_, fun hb hm => ?_, fun {b} => ?_⟩
  · cases hk : hold k with
    | none => simpa using h.nodup
    | some a =>
      rw [Option.toList_some, List.nodup_append]
      refine ⟨h.nodup, List.nodup_singleton _, ?_⟩
      rintro b hb c hc rfl
      rw [List.mem_singleton.1 hc] at hb
      exact h.kept hk hb
  · obtain ⟨hne, hb⟩ := hold' hb
    rcases List.mem_append.1 hm with hm | hm
    · exact h.kept hb hm
    · exact hne (h.unique hb (Option.mem_toList.1 hm))
  · rw [h.mem, List.mem_append, Option.mem_toList]
    constructor
    · rintro (⟨j, hj⟩ | hm)
      · rcases eq_or_ne j k with rfl | hne
        · exact .inr (.inr hj)
        · exact .inl ⟨j, by rwa [Function.update_of_ne hne]⟩
      · exact .inr (.inl hm)
    · rintro (⟨j, hj⟩ | hm | hm)
      · exact .inl ⟨j, (hold' hj).2⟩
      · exact .inr hm
      · exact .inl ⟨k, hm⟩

end Custody
