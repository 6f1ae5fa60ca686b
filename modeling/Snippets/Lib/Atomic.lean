import Snippets.Lib.Lts
import Mathlib.Logic.Function.Basic
import Mathlib.Data.List.Infix

/-!
# Atomic objects

A sequential specification (`Spec`: initial value, and which results an operation may have on
which value) and the atomic object over it (`Spec.object`): any number of threads call, each
call takes effect in one indivisible `commit` between its call and its return, and the result
returned is the one committed. A history of calls and returns is `Linearizable` when it is what
an execution of the atomic object shows (its commits hidden): every call can be given a moment
between its call and its return at which it takes effect, so a call that returns before another
is made takes effect before it.

`Spec.Legal` runs the operations of a trace's commits one after the other; in every execution
of the object they are legal (`object_legal`). `commits` and `returns` are the operations of a
trace that took effect and those that returned, each with its thread: a thread's operations
return in the order they took effect, and at most its last one has not returned yet
(`object_settled`).
-/

namespace Atomic

open Lts

/-- A sequential object: its initial value, and `step v o r v'` when the operation `o` on the
value `v` may answer `r` and leave `v'`. -/
structure Spec (σ ο ρ : Type*) where
  init : σ
  step : σ → ο → ρ → σ → Prop

/-- What happens at an object: thread `t` calls, its call takes effect, it returns. -/
inductive Event (τ ο ρ : Type*)
  | call (t : τ) (o : ο)
  | commit (t : τ) (o : ο) (r : ρ)
  | ret (t : τ) (r : ρ)
  deriving DecidableEq

/-- A thread at an object: outside, called and not yet effective, effective with a result. -/
inductive Phase (ο ρ : Type*)
  | idle
  | called (o : ο)
  | committed (r : ρ)
  deriving DecidableEq

variable {τ σ ο ρ : Type*}

/-- The part of a trace a client sees. -/
def Event.visible : Event τ ο ρ → Bool
  | .commit .. => false
  | _ => true

/-- The operation an event makes effective, with its result. -/
def Event.effect : Event τ ο ρ → Option (ο × ρ)
  | .commit _ o r => some (o, r)
  | _ => none

/-- The state of an atomic object: its value and where each thread is. -/
structure State (τ σ ο ρ : Type*) where
  val : σ
  phase : τ → Phase ο ρ

variable [DecidableEq τ]

/-- A thread calls, its operation takes effect in one step of the specification, and it returns the
result of that. -/
inductive Step (S : Spec σ ο ρ) : State τ σ ο ρ → Event τ ο ρ → State τ σ ο ρ → Prop
  | call {a : State τ σ ο ρ} {t : τ} {o : ο} : a.phase t = .idle →
      Step S a (.call t o) { a with phase := Function.update a.phase t (.called o) }
  | commit {a : State τ σ ο ρ} {t : τ} {o : ο} {r : ρ} {v : σ} : a.phase t = .called o →
      S.step a.val o r v →
      Step S a (.commit t o r) ⟨v, Function.update a.phase t (.committed r)⟩
  | ret {a : State τ σ ο ρ} {t : τ} {r : ρ} : a.phase t = .committed r →
      Step S a (.ret t r) { a with phase := Function.update a.phase t .idle }

/-- The atomic object of a specification. -/
def Spec.object (τ : Type*) [DecidableEq τ] (S : Spec σ ο ρ) :
    System (State τ σ ο ρ) (Event τ ο ρ) where
  init a := a = ⟨S.init, fun _ => .idle⟩
  step := Step S

/-- The history `H` is what some execution of the atomic object shows. -/
def Spec.Linearizable (S : Spec σ ο ρ) (H : List (Event τ ο ρ)) : Prop :=
  ∃ W a, Exec (S.object τ) W a ∧ W.filter Event.visible = H

/-- Operations done one after the other, with their results, from `v` to `v'`. -/
inductive Spec.Legal (S : Spec σ ο ρ) (v : σ) : List (ο × ρ) → σ → Prop
  | nil : S.Legal v [] v
  | snoc {v' v'' : σ} {es : List (ο × ρ)} {o : ο} {r : ρ} :
      S.Legal v es v' → S.step v' o r v'' → S.Legal v (es ++ [(o, r)]) v''

/-- In every execution of an atomic object the commits, in order, are a legal sequence of
operations that leads to its value. -/
theorem object_legal {S : Spec σ ο ρ} {W : List (Event τ ο ρ)} {a : State τ σ ο ρ}
    (h : Exec (S.object τ) W a) : S.Legal S.init (W.filterMap Event.effect) a.val := by
  refine h.trace_invariant (I := fun W a => S.Legal S.init (W.filterMap Event.effect) a.val)
    (fun s h0 => ?_) fun W a e a' _ ih hs => ?_
  · cases h0; exact .nil
  · rw [List.filterMap_append]
    cases hs with
    | call _ => simpa [List.filterMap_cons, Event.effect] using ih
    | commit _ hs => simpa [List.filterMap_cons, Event.effect] using ih.snoc hs
    | ret _ => simpa [List.filterMap_cons, Event.effect] using ih

/-- What every legal operation keeps, every legal sequence keeps. -/
theorem Spec.Legal.invariant {S : Spec σ ο ρ} {I : List (ο × ρ) → σ → Prop} {v v' : σ}
    {es : List (ο × ρ)} (h : S.Legal v es v') (hi : I [] v)
    (hstep : ∀ es v o r v', I es v → S.step v o r v' → I (es ++ [(o, r)]) v') : I es v' := by
  induction h with
  | nil => exact hi
  | snoc _ hs ih => exact hstep _ _ _ _ _ ih hs

/-- A system whose executions are matched by executions of the atomic object is linearizable. -/
theorem linearizable_of_exec {S : Spec σ ο ρ} {W : List (Event τ ο ρ)} {a : State τ σ ο ρ}
    (h : Exec (S.object τ) W a) : S.Linearizable (W.filter Event.visible) :=
  ⟨W, a, h, rfl⟩

/-! ## Commits and returns -/

/-- The thread whose event it is. -/
def Event.thread : Event τ ο ρ → τ
  | .call t _ | .commit t _ _ | .ret t _ => t

/-- The operations that took effect. -/
def commits (W : List (Event τ ο ρ)) : List (τ × ο × ρ) :=
  W.filterMap fun
    | .commit t o r => some (t, o, r)
    | _ => none

omit [DecidableEq τ] in
theorem commits_append (W W' : List (Event τ ο ρ)) :
    commits (W ++ W') = commits W ++ commits W' :=
  List.filterMap_append

omit [DecidableEq τ] in
/-- A selection of the operations that took effect, without their threads. -/
theorem map_snd_commits {β : Type*} (f : ο × ρ → Option β) (W : List (Event τ ο ρ)) :
    ((commits W).filterMap fun e => (f e.2).map fun y => (e.1, y)).map Prod.snd =
      (W.filterMap Event.effect).filterMap f := by
  unfold commits
  rw [List.map_filterMap, List.filterMap_filterMap, List.filterMap_filterMap]
  congr 1
  funext e
  cases e with
  | commit t o r =>
    change ((f (o, r)).map (t, ·)).map Prod.snd = f (o, r)
    cases f (o, r) <;> rfl
  | call | ret => rfl

/-- What a trace says of the callers: the last call of each, and the operations that returned. -/
structure Book (τ ο ρ : Type*) where
  last : τ → Option ο
  returned : List (τ × ο × ρ)

/-- What an event adds to the book; a commitment adds nothing. -/
def Book.event (b : Book τ ο ρ) : Event τ ο ρ → Book τ ο ρ
  | .call t o => { b with last := Function.update b.last t (some o) }
  | .commit .. => b
  | .ret t r => { b with returned := b.returned ++ ((b.last t).map fun o => (t, o, r)).toList }

/-- The book of a history. -/
def book (W : List (Event τ ο ρ)) : Book τ ο ρ := W.foldl Book.event ⟨fun _ => none, []⟩

/-- The operations that returned, each with the call it answers. -/
def returns (W : List (Event τ ο ρ)) : List (τ × ο × ρ) := (book W).returned

theorem book_snoc (W : List (Event τ ο ρ)) (e : Event τ ο ρ) :
    book (W ++ [e]) = (book W).event e := by
  simp [book]

section
variable {α β : Type*}

/-- The entries of thread `t`, in order. -/
def ofThread (t : τ) (es : List (τ × α)) : List α :=
  es.filterMap fun e => if e.1 = t then some e.2 else none

@[simp] theorem ofThread_nil (t : τ) : ofThread t ([] : List (τ × α)) = [] := rfl

@[simp] theorem ofThread_cons_self (t : τ) (x : α) (es : List (τ × α)) :
    ofThread t ((t, x) :: es) = x :: ofThread t es := by
  simp [ofThread]

theorem ofThread_cons_ne {t u : τ} (h : u ≠ t) (x : α) (es : List (τ × α)) :
    ofThread t ((u, x) :: es) = ofThread t es := by
  simp [ofThread, h]

@[simp] theorem ofThread_append (t : τ) (es es' : List (τ × α)) :
    ofThread t (es ++ es') = ofThread t es ++ ofThread t es' := by
  simp [ofThread]

theorem mem_ofThread {t : τ} {x : α} {es : List (τ × α)} :
    x ∈ ofThread t es ↔ (t, x) ∈ es := by
  simp [ofThread]

/-- Entries are determined by the threads' parts, up to their interleaving. -/
theorem perm_of_ofThread {es es' : List (τ × α)} (h : ∀ t, ofThread t es = ofThread t es') :
    es.Perm es' := by
  classical
  have hcount : ∀ (es : List (τ × α)) (t : τ) (x : α),
      es.count (t, x) = (ofThread t es).count x := by
    intro es t x
    induction es with
    | nil => rfl
    | cons e es ih =>
      obtain ⟨u, y⟩ := e
      by_cases hu : u = t
      · subst hu
        rw [ofThread_cons_self, List.count_cons, List.count_cons, ih]
        simp
      · rw [ofThread_cons_ne hu, List.count_cons, ih]
        simp [hu]
  exact List.perm_iff_count.2 fun ⟨t, x⟩ => by rw [hcount, hcount, h]

/-- A selection of entries by their content, thread by thread. -/
theorem ofThread_filterMap (t : τ) (f : α → Option β) (es : List (τ × α)) :
    ofThread t (es.filterMap fun e => (f e.2).map fun y => (e.1, y)) =
      (ofThread t es).filterMap f := by
  induction es with
  | nil => rfl
  | cons e es ih =>
    obtain ⟨u, x⟩ := e
    by_cases hu : u = t
    · subst hu
      cases hf : f x with
      | none => simp [hf, ih]
      | some y => simp [hf, ih]
    · rw [ofThread_cons_ne hu, List.filterMap_cons]
      cases hf : f x with
      | none => simpa [hf] using ih
      | some y => simpa [hf, ofThread_cons_ne hu] using ih

end

theorem Step.phase_of_ne {S : Spec σ ο ρ} {a a' : State τ σ ο ρ} {e : Event τ ο ρ}
    (h : Step S a e a') {t : τ} (he : e.thread ≠ t) : a'.phase t = a.phase t := by
  cases h <;> exact Function.update_of_ne (Ne.symm he) ..

/-- What thread `t`, in phase `p`, has called, and which of its operations have returned. -/
inductive Settled (W : List (Event τ ο ρ)) (t : τ) : Phase ο ρ → Prop
  | idle : ofThread t (commits W) = ofThread t (returns W) → Settled W t .idle
  | called {o : ο} : .call t o ∈ W → (book W).last t = some o →
      ofThread t (commits W) = ofThread t (returns W) → Settled W t (.called o)
  | committed {o : ο} {r : ρ} : (book W).last t = some o →
      ofThread t (commits W) = ofThread t (returns W) ++ [(o, r)] → Settled W t (.committed r)

/-- What another thread does leaves a thread's part alone. -/
theorem Settled.frame {W : List (Event τ ο ρ)} {u : τ} {p : Phase ο ρ} (h : Settled W u p)
    {e : Event τ ο ρ} (he : e.thread ≠ u) : Settled (W ++ [e]) u p := by
  have hlast : (book (W ++ [e])).last u = (book W).last u := by
    rw [book_snoc]
    cases e with
    | call t o => exact Function.update_of_ne (Ne.symm he) ..
    | commit | ret => rfl
  have hcommits : ofThread u (commits (W ++ [e])) = ofThread u (commits W) := by
    rw [commits_append, ofThread_append]
    cases e with
    | commit t o r =>
      have hc : commits [Event.commit t o r] = [(t, o, r)] := rfl
      rw [hc, ofThread_cons_ne (show t ≠ u from he), ofThread_nil, List.append_nil]
    | call | ret => simp [commits]
  have hreturns : ofThread u (returns (W ++ [e])) = ofThread u (returns W) := by
    unfold returns
    rw [book_snoc]
    cases e with
    | ret t r =>
      simp only [Book.event, ofThread_append]
      cases (book W).last t with
      | none => simp
      | some o => simp [ofThread_cons_ne (show t ≠ u from he)]
    | call | commit => rfl
  cases h with
  | idle h => exact .idle (by rw [hcommits, hreturns, h])
  | called hm hl h =>
    exact .called (List.mem_append_left _ hm) (by rw [hlast, hl]) (by rw [hcommits, hreturns, h])
  | committed hl h => exact .committed (by rw [hlast, hl]) (by rw [hcommits, hreturns, h])

section
variable {W : List (Event τ ο ρ)} {t : τ} {o : ο} {r : ρ}

theorem Settled.call (h : Settled W t .idle) : Settled (W ++ [.call t o]) t (.called o) := by
  cases h with
  | idle h =>
    refine .called (by simp) (by simp [book_snoc, Book.event]) ?_
    simpa [commits_append, commits, returns, book_snoc, Book.event] using h

theorem Settled.commit (h : Settled W t (.called o)) :
    Settled (W ++ [.commit t o r]) t (.committed r) := by
  cases h with
  | called _ hl h =>
    refine .committed (by simpa [book_snoc, Book.event] using hl) ?_
    simpa [commits_append, commits, returns, book_snoc, Book.event] using h

theorem Settled.ret (h : Settled W t (.committed r)) : Settled (W ++ [.ret t r]) t .idle := by
  cases h with
  | committed hl h =>
    refine .idle ?_
    simpa [commits_append, commits, returns, book_snoc, Book.event, hl] using h

end

/-- **A thread's operations return in the order they took effect, the last one maybe later.** -/
theorem object_settled {S : Spec σ ο ρ} {W : List (Event τ ο ρ)} {a : State τ σ ο ρ}
    (h : Exec (S.object τ) W a) (t : τ) : Settled W t (a.phase t) := by
  refine h.trace_invariant (I := fun W a => Settled W t (a.phase t)) (fun a h0 => ?_)
    fun W a e a' _ ih hs => ?_
  · cases h0
    exact .idle rfl
  · by_cases he : e.thread = t
    · subst he
      cases hs with
      | call hp =>
        dsimp only [Event.thread] at ih ⊢
        rw [hp] at ih
        rw [Function.update_self]
        exact ih.call
      | commit hp _ =>
        dsimp only [Event.thread] at ih ⊢
        rw [hp] at ih
        rw [Function.update_self]
        exact ih.commit
      | ret hp =>
        dsimp only [Event.thread] at ih ⊢
        rw [hp] at ih
        rw [Function.update_self]
        exact ih.ret
    · rw [hs.phase_of_ne he]
      exact ih.frame he

end Atomic
