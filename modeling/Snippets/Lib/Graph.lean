import Mathlib.Data.Set.Finite.Basic
import Mathlib.Data.Fintype.Card
import Mathlib.Logic.Relation
import Mathlib.Order.WellFounded

/-!
# Reachability from roots

A graph with roots: `Graph.Reachable root edge` are the nodes that a path from a root leads to.
In a finite acyclic graph in which every node is a root or has a predecessor, every node is
reachable (`reachable_of_pred`); if the graph has cycles, every node is reachable from a root or
from a cycle (`kept_of_pred`). A reachable node stays so when only edges that start at or below
it are changed (`Reachable.of_changed_below`).
-/

namespace Graph

open Relation

variable {α : Type*} {root root' : α → Prop} {edge edge' : α → α → Prop} {a b : α}

/-- A path of edges leads from a root to the node. -/
inductive Reachable (root : α → Prop) (edge : α → α → Prop) : α → Prop
  | root {a : α} : root a → Reachable root edge a
  | edge {a b : α} : Reachable root edge a → edge a b → Reachable root edge b

/-- No path leads back to where it starts. -/
def Acyclic (edge : α → α → Prop) : Prop := ∀ a, ¬TransGen edge a a

theorem Reachable.exists_root (h : Reachable root edge a) : ∃ b, root b := by
  induction h with
  | root hr => exact ⟨_, hr⟩
  | edge _ _ ih => exact ih

theorem Reachable.mono (hroot : ∀ a, root a → Reachable root' edge' a)
    (hedge : ∀ a b, Reachable root' edge' a → edge a b → edge' a b)
    (h : Reachable root edge a) : Reachable root' edge' a := by
  induction h with
  | root hr => exact hroot _ hr
  | edge _ he ih => exact ih.edge (hedge _ _ ih he)

/-- A nonempty finite set has an element with no predecessor in the set. -/
theorem Acyclic.exists_minimal (hac : Acyclic edge) {S : Set α} (hfin : S.Finite)
    (hne : S.Nonempty) : ∃ b ∈ S, ∀ a ∈ S, ¬edge a b := by
  have : Finite S := hfin
  have : IsTrans S fun x y => TransGen edge x y := ⟨fun _ _ _ h h' => h.trans h'⟩
  have : Std.Irrefl fun x y : S => TransGen edge x y := ⟨fun x => hac x⟩
  have hwf : WellFounded fun x y : S => TransGen edge x y :=
    Finite.wellFounded_of_trans_of_irrefl _
  obtain ⟨b, hb⟩ := hne
  obtain ⟨m, -, hmin⟩ := hwf.has_min Set.univ ⟨⟨b, hb⟩, trivial⟩
  exact ⟨m, m.2, fun a ha he => hmin ⟨a, ha⟩ trivial (.single he)⟩

/-- Every node of a finite set is reachable if each is a root or has a predecessor in the set, by
an acyclic edge or from a reachable node. -/
theorem reachable_of_pred (hac : Acyclic edge') {S : Set α} (hfin : S.Finite)
    (hpred : ∀ b ∈ S, root b ∨ ∃ a ∈ S, edge a b)
    (hedge : ∀ a b, edge a b → edge' a b ∨ Reachable root edge a) (hb : b ∈ S) :
    Reachable root edge b := by
  by_contra hn
  have hfin' : {b ∈ S | ¬Reachable root edge b}.Finite := hfin.subset fun _ h => h.1
  obtain ⟨m, ⟨hmS, hm⟩, hmin⟩ := hac.exists_minimal hfin' ⟨b, hb, hn⟩
  rcases hpred m hmS with hr | ⟨a, haS, he⟩
  · exact hm (.root hr)
  · have ha : ¬Reachable root edge a := fun ha => hm (ha.edge he)
    rcases hedge a m he with he' | ha'
    · exact hmin a ⟨haS, ha⟩ he'
    · exact ha ha'

/-- Changing edges that start at `a` or below it does not cut `a` off. -/
theorem Reachable.of_changed_below (hac : Acyclic edge) (hroot : ∀ b, root b → root' b)
    (hedge : ∀ b c, edge b c → edge' b c ∨ ReflTransGen edge a b) (h : Reachable root edge a) :
    Reachable root' edge' a := by
  have hor : ∀ b, Reachable root edge b → Reachable root' edge' b ∨ TransGen edge a b := by
    intro b hb
    induction hb with
    | root hr => exact .inl (.root (hroot _ hr))
    | edge _ he ih =>
      rcases hedge _ _ he with he' | hbelow
      · rcases ih with hb' | hb'
        · exact .inl (hb'.edge he')
        · exact .inr (hb'.tail he)
      · exact .inr (.tail' hbelow he)
  exact (hor a h).resolve_right (hac a)

/-! ## Cycles -/

/-- A path leads from a root or from a cycle to the node. -/
def Kept (root : α → Prop) (edge : α → α → Prop) (b : α) : Prop :=
  ∃ a, (root a ∨ TransGen edge a a) ∧ ReflTransGen edge a b

theorem Kept.pred (h : Kept root edge b) : root b ∨ ∃ a, Kept root edge a ∧ edge a b := by
  obtain ⟨a, ha, hpath⟩ := h
  rcases hpath.cases_tail with rfl | ⟨c, hpath, he⟩
  · refine ha.imp_right fun hcycle => ?_
    obtain ⟨c, hpath, he⟩ := TransGen.tail'_iff.1 hcycle
    exact ⟨c, ⟨_, .inr hcycle, hpath⟩, he⟩
  · exact .inr ⟨c, ⟨a, ha, hpath⟩, he⟩

/-- Every node of a finite set is kept if each is a root or has a predecessor in the set. -/
theorem kept_of_pred {S : Set α} (hfin : S.Finite)
    (hpred : ∀ b ∈ S, root b ∨ ∃ a ∈ S, edge a b) (hb : b ∈ S) : Kept root edge b := by
  by_contra hn
  -- what leads to `b` has no cycle, so one of these nodes has no predecessor
  have hac : Acyclic fun x y => edge x y ∧ ReflTransGen edge y b := by
    intro a hcycle
    obtain ⟨c, -, -, hpath⟩ := TransGen.tail'_iff.1 hcycle
    exact hn ⟨a, .inr (hcycle.mono (fun _ _ h => h.1) _ _), hpath⟩
  have hfin' : {c ∈ S | ReflTransGen edge c b}.Finite := hfin.subset fun _ h => h.1
  obtain ⟨m, ⟨hmS, hm⟩, hmin⟩ := hac.exists_minimal hfin' ⟨b, hb, .refl⟩
  rcases hpred m hmS with hr | ⟨a, haS, he⟩
  · exact hn ⟨m, .inl hr, hm⟩
  · exact hmin a ⟨haS, hm.head he⟩ ⟨he, hm⟩

end Graph
