import Snippets.Queue.Proof.Section

/-!
# Elements lost to an exception

A push stores its element before it changes anything else, and a pop moves the front element into
a local one before `pop_front`; but it moves the local element into the returned `std::optional`
after `pop_front`. A section that leaves by an exception therefore keeps the queue unless it is that
last move that throws (`Section.threw_queue`).

`Accounted`: the accepted values are the values taken out of the queue followed by those in it, and
the delivered values are the taken ones less one for every step that loses an element
(`Step.accounted`). So nothing is lost just when there was no such step
(`throw_keeps_queue_iff`).
-/

namespace BlockingQueue

open Lts

variable {T ι : Type*} {capacity : Nat}

/-- A pop that has taken an element throws while it moves it into what it returns. -/
def Label.loses : Label ι T → Bool
  | .leave _ _ (some .returnElem) .threw => true
  | _ => false

/-- How many elements are lost. -/
def lost (ls : List (Label ι T)) : Nat := ls.countP Label.loses

/-- Where the accepted values are: in the queue or taken out of it, and of the taken ones all but
the lost ones were delivered. -/
def Accounted (ls : List (Label ι T)) (s : State ι T) : Prop :=
  ∃ taken, accepted (effects ls) = taken ++ s.shared.queue ∧
    (delivered (effects ls)).Sublist taken ∧
    taken.length = (delivered (effects ls)).length + lost ls

/-! ## One section -/

/-- What a section that leaves can do to the queue, with the values it accepts and delivers and
whether it loses one. -/
inductive Passes : List T → List T → List T → List T → Bool → Prop
  | same (q : List T) : Passes q [] [] q false
  | accept (q : List T) (x : T) : Passes q [x] [] (q ++ [x]) false
  | deliver (q : List T) (x : T) : Passes (x :: q) [] [x] q false
  | lose (q : List T) (x : T) : Passes (x :: q) [] [] q true

section
variable {timedOut : Bool} {throwAt : Option ThrowAt} {q q' : Shared T} {c : Call T}
  {n : Option Cv} {r : Res T}

theorem Section.threw_queue (h : Section capacity timedOut throwAt q c (.leave q' n .threw)) :
    q'.queue = q.queue ↔ throwAt ≠ some .returnElem := by
  cases h with
  | acceptThrow _ _ _ ht | frontThrow _ _ ht => simp [ht]
  | returnThrow _ hq ht => simp [ht, hq]

theorem Label.loses_of_ne {t : ι} (h : r ≠ .threw) : (Label.leave t c throwAt r).loses = false := by
  unfold Label.loses
  split
  · rename_i heq
    cases heq
    exact absurd rfl h
  · rfl

theorem Section.passes (h : Section capacity timedOut throwAt q c (.leave q' n r)) (t : ι) :
    Passes q.queue (accepted [(c, r)]) (delivered [(c, r)]) q'.queue
      (Label.leave t c throwAt r).loses := by
  cases h with
  | accept hc _ _ _ =>
    rw [Label.loses_of_ne (by simp)]
    rcases hc with rfl | rfl <;> exact .accept _ _
  | refuse hc _ =>
    rw [Label.loses_of_ne (by simp)]
    rcases hc with rfl | rfl <;> exact .same _
  | deliver hc hq _ _ =>
    rw [Label.loses_of_ne (by simp), hq]
    rcases hc with rfl | rfl <;> exact .deliver _ _
  | nothing hc _ _ =>
    rw [Label.loses_of_ne (by simp)]
    rcases hc with rfl | rfl <;> exact .same _
  | close | size | empty | isClosed =>
    rw [Label.loses_of_ne (by simp)]
    exact .same _
  | acceptThrow hc _ _ ht =>
    subst ht
    rcases hc with rfl | rfl <;> exact .same _
  | frontThrow hc _ ht =>
    subst ht
    rcases hc with rfl | rfl <;> exact .same _
  | returnThrow hc hq ht =>
    -- the element is out of the deque when its move into the result throws
    subst ht
    rw [hq]
    rcases hc with rfl | rfl <;> exact .lose _ _

end

/-! ## Runs -/

section
variable {ls : List (Label ι T)} {s s' : State ι T} {l : Label ι T}

theorem lost_snoc : lost (ls ++ [l]) = lost ls + if l.loses then 1 else 0 := by
  unfold lost
  rw [List.countP_append, List.countP_singleton]

theorem effects_snoc : effects (ls ++ [l]) = effects ls ++ effects [l] := by
  simp [effects]

theorem Accounted.passes {acc del : List T} {b : Bool} (h : Accounted ls s)
    (hp : Passes s.shared.queue acc del s'.shared.queue b) (ha : accepted (effects [l]) = acc)
    (hd : delivered (effects [l]) = del) (hb : l.loses = b) : Accounted (ls ++ [l]) s' := by
  obtain ⟨taken, hacc, hsub, hlen⟩ := h
  have hacc' : accepted (effects (ls ++ [l])) = accepted (effects ls) ++ acc := by
    rw [effects_snoc, ← ha]; exact List.filterMap_append
  have hdel' : delivered (effects (ls ++ [l])) = delivered (effects ls) ++ del := by
    rw [effects_snoc, ← hd]; exact List.filterMap_append
  unfold Accounted
  rw [hacc', hdel', lost_snoc, hb, hacc]
  generalize s.shared.queue = q, s'.shared.queue = q' at hp
  cases hp with
  | same => exact ⟨taken, by simp, by simpa using hsub, by simpa using hlen⟩
  | accept => exact ⟨taken, by simp, by simpa using hsub, by simpa using hlen⟩
  | deliver _ x =>
    refine ⟨taken ++ [x], by simp, hsub.append_right [x], ?_⟩
    simp only [List.length_append, List.length_singleton, Bool.false_eq_true, if_false]
    omega
  | lose _ x =>
    refine ⟨taken ++ [x], by simp, by simpa using hsub.trans (List.sublist_append_left _ _), ?_⟩
    simp only [List.length_append, List.length_singleton, List.length_nil, if_true]
    omega

/-- What was accepted is what was delivered followed by the contents just when nothing is lost. -/
theorem Accounted.conserves (h : Accounted ls s) :
    accepted (effects ls) = delivered (effects ls) ++ s.shared.queue ↔
      ∀ l ∈ ls, l.loses = false := by
  obtain ⟨taken, hacc, hsub, hlen⟩ := h
  have hlost : lost ls = 0 ↔ ∀ l ∈ ls, l.loses = false := by simp [lost]
  rw [← hlost, hacc, List.append_left_inj]
  constructor
  · intro heq
    rw [heq] at hlen
    omega
  · intro h0
    exact (hsub.eq_of_length (by omega)).symm

variable [DecidableEq ι]

/-- **Every step keeps account of the accepted values**, throw or not. -/
theorem Step.accounted (hs : Step capacity s l s') (h : Accounted ls s) :
    Accounted (ls ++ [l]) s' := by
  cases hs with
  | @leave t c _ _ q n r pc _ hsec _ => exact h.passes ((Section.of_eq hsec).passes t) rfl rfl rfl
  | _ => exact h.passes (.same _) rfl rfl rfl

theorem system_accounted (h : Exec (system ι T capacity) ls s) : Accounted ls s := by
  refine h.trace_invariant (fun s h0 => ?_) fun ls s l s' _ hi hs => Step.accounted hs hi
  cases h0
  exact ⟨[], rfl, .slnil, rfl⟩

/-- **A throw keeps the queue unless it is the last one `pop` can make.** In every reachable state,
a call that leaves by an exception leaves the queued elements as they were if and only if the move
that throws is not that into the returned `std::optional`; and in every run the accepted values are
those delivered followed by the contents if and only if no such move has thrown. -/
theorem throw_keeps_queue_iff (h : Exec (system ι T capacity) ls s) :
    (∀ t c throwAt s', Step capacity s (.leave t c throwAt .threw) s' →
        (s'.shared.queue = s.shared.queue ↔ throwAt ≠ some .returnElem)) ∧
      (accepted (effects ls) = delivered (effects ls) ++ s.shared.queue ↔
        ∀ l ∈ ls, l.loses = false) := by
  refine ⟨fun t c throwAt s' hs => ?_, (system_accounted h).conserves⟩
  cases hs with
  | leave _ hsec _ => exact (Section.of_eq hsec).threw_queue

end

/-- A push whose argument throws when it is stored. -/
theorem throw_keeps_queue_iff_push : ∃ (ls : List (Label Bool Nat)) (s s' : State Bool Nat),
    Exec (system Bool Nat 1) ls s ∧
      Step 1 s (.leave true (.push 5 true) (some .pushBack) .threw) s' ∧
      s'.shared.queue = s.shared.queue := by
  have h0 : Exec (system Bool Nat 1) [] ⟨⟨[], false⟩, fun _ => .idle⟩ := .init rfl
  have h1 := h0.snoc (.call (t := true) (c := .push 5 true) rfl)
  have hs : Step 1 _ (.leave true (.push 5 true) (some .pushBack) .threw) _ :=
    .leave (s := ⟨⟨[], false⟩, Function.update (fun _ => .idle) true (.enter (.push 5 true))⟩)
      (.enter _) rfl .none
  exact ⟨_, _, _, h1, hs, ((throw_keeps_queue_iff h1).1 _ _ _ _ hs).2 (by simp)⟩

/-- The pushed 5 was accepted and is gone: `pop` threw while it moved it into its result. -/
theorem pop_throw_loses : ∃ (ls : List (Label Bool Nat)) (s s' : State Bool Nat),
    Exec (system Bool Nat 1) ls s ∧ Step 1 s (.leave true .pop (some .returnElem) .threw) s' ∧
      s.shared.queue = [5] ∧ s'.shared.queue = [] ∧ accepted (effects ls) = [5] ∧
      delivered (effects (ls ++ [.leave true .pop (some .returnElem) .threw])) = [] := by
  have h0 : Exec (system Bool Nat 1) [] ⟨⟨[], false⟩, fun _ => .idle⟩ := .init rfl
  have h1 := h0.snoc (.call (t := false) (c := .push 5 true) rfl)
  have h2 : Exec (system Bool Nat 1) (_ ++ [.leave false (.push 5 true) none _]) _ :=
    h1.snoc (.leave (.enter _) rfl (.one (.none fun t c h => by cases t <;> cases h)))
  have h3 := h2.snoc (.call (t := true) (c := .pop) rfl)
  refine ⟨_, _, _, h3, .leave (.enter _) rfl (.one (.none fun t c h => ?_)), rfl, rfl, rfl, rfl⟩
  cases t <;> cases h

end BlockingQueue
