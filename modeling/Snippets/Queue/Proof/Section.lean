import Snippets.Queue.Spec

/-!
# What a section does

`Section capacity timedOut throwAt q c o`: the possible outcomes of the section of call `c` on the
shared members `q`, with the condition each of them needs. `runSection_spec` is the inversion
of `runSection` that every later proof uses; `Section.fifo`: a section that leaves without a throw
is a step of the closable FIFO queue.
-/

namespace BlockingQueue

variable {T : Type*}

/-- What a section can do, and when: the calls that wait, the pushes that are accepted or refused,
the pops that deliver or do not, what throws, and the calls that do not wait. -/
inductive Section (capacity : Nat) (timedOut : Bool) (throwAt : Option ThrowAt) (q : Shared T) :
    Call T → Outcome T → Prop
  | parkPush {c : Call T} {x : T} {rvalue : Bool} : c.IsPush x rvalue → q.closed = false →
      capacity ≤ q.queue.length → Section capacity timedOut throwAt q c .park
  | parkPop {c : Call T} : c.IsPop → q.closed = false → q.queue = [] →
      Section capacity timedOut throwAt q c .park
  | accept {c : Call T} {x : T} {rvalue : Bool} : c.IsPush x rvalue → q.closed = false →
      q.queue.length < capacity → throwAt ≠ some .pushBack →
      Section capacity timedOut throwAt q c (.leave { q with queue := q.queue ++ [x] }
        (some .notEmpty) (.pushed true (forward x rvalue)))
  | acceptThrow {c : Call T} {x : T} {rvalue : Bool} : c.IsPush x rvalue → q.closed = false →
      q.queue.length < capacity → throwAt = some .pushBack →
      Section capacity timedOut throwAt q c (.leave q none .threw)
  | refuse {c : Call T} {x : T} {rvalue : Bool} : c.IsPush x rvalue →
      q.closed = true ∨ (c.timed = true ∧ capacity ≤ q.queue.length) →
      Section capacity timedOut throwAt q c (.leave q none (.pushed false (.intact x)))
  | deliver {c : Call T} {x : T} {rest : List T} : c.IsPop → q.queue = x :: rest →
      throwAt ≠ some .moveFront → throwAt ≠ some .returnElem →
      Section capacity timedOut throwAt q c
        (.leave { q with queue := rest } (some .notFull) (.popped (some x)))
  | frontThrow {c : Call T} {x : T} {rest : List T} : c.IsPop → q.queue = x :: rest →
      throwAt = some .moveFront → Section capacity timedOut throwAt q c (.leave q none .threw)
  | returnThrow {c : Call T} {x : T} {rest : List T} : c.IsPop → q.queue = x :: rest →
      throwAt = some .returnElem → Section capacity timedOut throwAt q c
        (.leave { q with queue := rest } (some .notFull) .threw)
  | nothing {c : Call T} : c.IsPop → q.queue = [] → q.closed = true ∨ c.timed = true →
      Section capacity timedOut throwAt q c (.leave q none (.popped none))
  | close : Section capacity timedOut throwAt q .close
      (.leave { q with closed := true } none .closed)
  | size : Section capacity timedOut throwAt q .size (.leave q none (.size q.queue.length))
  | empty : Section capacity timedOut throwAt q .empty (.leave q none (.flag q.queue.isEmpty))
  | isClosed : Section capacity timedOut throwAt q .isClosed (.leave q none (.flag q.closed))

variable {capacity : Nat} {timedOut : Bool} {throwAt : Option ThrowAt} {q : Shared T} {c : Call T}

/-! ## The waits -/

theorem wait_eq_none {pred : Bool} : wait pred = none ↔ pred = false := by
  cases pred <;> simp [wait]

theorem waitFor_eq_none {pred : Bool} :
    waitFor pred timedOut = none ↔ pred = false ∧ timedOut = false := by
  cases pred <;> cases timedOut <;> simp [waitFor]

theorem waitFor_eq_some {pred success : Bool} (h : waitFor pred timedOut = some success) :
    success = pred := by
  cases pred <;> cases timedOut <;> simp_all [waitFor]

theorem notFull_eq_false : q.notFull capacity = false ↔ capacity ≤ q.queue.length ∧
    q.closed = false := by
  simp [Shared.notFull]

theorem notEmpty_eq_false : q.notEmpty = false ↔ q.queue = [] ∧ q.closed = false := by
  simp [Shared.notEmpty]

/-! ## The acts -/

theorem store_spec {x : T} {rvalue : Bool} (hc : c.IsPush x rvalue) (hopen : q.closed = false)
    (hroom : q.queue.length < capacity) :
    Section capacity timedOut throwAt q c (store q x rvalue throwAt) := by
  unfold store
  split
  · rename_i h; exact .acceptThrow hc hopen hroom h
  · rename_i h; exact .accept hc hopen hroom h

theorem take_spec (hc : c.IsPop) (hne : q.queue ≠ []) :
    Section capacity timedOut throwAt q c (take q throwAt) := by
  unfold take
  split
  · rename_i h; exact absurd h hne
  · rename_i x rest hq
    split
    · rename_i h; exact .frontThrow hc hq h
    · rename_i hf
      split
      · rename_i h; exact .returnThrow hc hq h
      · rename_i hr; exact .deliver hc hq hf hr

theorem push_spec {x : T} {rvalue : Bool} :
    Section capacity timedOut throwAt q (.push x rvalue) (push capacity q x rvalue throwAt) := by
  have hc : (Call.push x rvalue).IsPush x rvalue := .inl rfl
  unfold push
  split
  · rename_i h
    obtain ⟨hfull, hopen⟩ := notFull_eq_false.1 (wait_eq_none.1 h)
    exact .parkPush hc hopen hfull
  · rename_i h
    have hp : q.notFull capacity ≠ false := fun hf => by rw [wait_eq_none.2 hf] at h; cases h
    split
    · rename_i hclosed; exact .refuse hc (.inl hclosed)
    · rename_i hopen
      have hopen : q.closed = false := by simpa using hopen
      refine store_spec hc hopen (Nat.lt_of_not_le fun hfull => ?_)
      exact hp (notFull_eq_false.2 ⟨hfull, hopen⟩)

theorem tryPush_spec {x : T} {rvalue : Bool} :
    Section capacity timedOut throwAt q (.tryPush x rvalue)
      (tryPush capacity q x rvalue timedOut throwAt) := by
  have hc : (Call.tryPush x rvalue).IsPush x rvalue := .inr rfl
  unfold tryPush
  split
  · rename_i h
    obtain ⟨hfull, hopen⟩ := notFull_eq_false.1 (waitFor_eq_none.1 h).1
    exact .parkPush hc hopen hfull
  · rename_i success h
    obtain rfl := waitFor_eq_some h
    split
    · rename_i hor
      refine .refuse hc ?_
      cases hp : q.notFull capacity with
      | true => rw [hp] at hor; exact .inl (by simpa using hor)
      | false => exact .inr ⟨rfl, (notFull_eq_false.1 hp).1⟩
    · rename_i hor
      simp only [Bool.or_eq_true, Bool.not_eq_true', not_or, Bool.not_eq_false,
        Bool.not_eq_true] at hor
      refine store_spec hc hor.2 (Nat.lt_of_not_le fun hfull => ?_)
      rw [notFull_eq_false.2 ⟨hfull, hor.2⟩] at hor
      exact Bool.false_ne_true hor.1

theorem pop_spec : Section capacity timedOut throwAt q .pop (pop q throwAt) := by
  have hc : (Call.pop : Call T).IsPop := .inl rfl
  unfold pop
  split
  · rename_i h
    obtain ⟨hempty, hopen⟩ := notEmpty_eq_false.1 (wait_eq_none.1 h)
    exact .parkPop hc hopen hempty
  · rename_i h
    have hp : q.notEmpty ≠ false := fun hf => by rw [wait_eq_none.2 hf] at h; cases h
    split
    · rename_i hand
      simp only [Bool.and_eq_true, List.isEmpty_iff] at hand
      exact .nothing hc hand.1 (.inl hand.2)
    · rename_i hand
      refine take_spec hc fun hempty => hp (notEmpty_eq_false.2 ⟨hempty, ?_⟩)
      simpa [hempty] using hand

theorem tryPop_spec : Section capacity timedOut throwAt q .tryPop (tryPop q timedOut throwAt) := by
  have hc : (Call.tryPop : Call T).IsPop := .inr rfl
  unfold tryPop
  split
  · rename_i h
    obtain ⟨hempty, hopen⟩ := notEmpty_eq_false.1 (waitFor_eq_none.1 h).1
    exact .parkPop hc hopen hempty
  · rename_i success h
    obtain rfl := waitFor_eq_some h
    by_cases hempty : q.queue = []
    · split
      · exact .nothing hc hempty (.inr rfl)
      · rename_i hor
        have hopen : q.closed = false := by simp_all
        exact absurd (by simp [notEmpty_eq_false.2 ⟨hempty, hopen⟩]) hor
    · have hp : q.notEmpty = true := by simp [Shared.notEmpty, hempty]
      rw [if_neg (by simp [hp, hempty])]
      exact take_spec hc hempty

theorem runSection_spec :
    Section capacity timedOut throwAt q c (runSection capacity timedOut throwAt q c) := by
  cases c with
  | push => exact push_spec
  | tryPush => exact tryPush_spec
  | pop => exact pop_spec
  | tryPop => exact tryPop_spec
  | close => exact .close
  | size => exact .size
  | empty => exact .empty
  | isClosed => exact .isClosed

theorem Section.of_eq {o : Outcome T} (h : runSection capacity timedOut throwAt q c = o) :
    Section capacity timedOut throwAt q c o := h ▸ runSection_spec

/-- `front()` is never called on an empty deque. -/
theorem runSection_defined : runSection capacity timedOut throwAt q c ≠ .undefined := by
  intro h
  cases Section.of_eq h

theorem Section.fifo {q' : Shared T} {notify : Option Cv} {r : Res T}
    (hlen : q.queue.length ≤ capacity)
    (h : Section capacity timedOut none q c (.leave q' notify r)) : FifoStep capacity q c r q' := by
  cases h with
  | accept hc hopen hroom _ => exact .accept hc hopen hroom
  | refuse hc h => exact .refuse hc (h.imp_right fun ⟨ht, hf⟩ => ⟨ht, Nat.le_antisymm hlen hf⟩)
  | deliver hc hq _ _ => exact .deliver hc hq
  | nothing hc hq h => exact .nothing hc hq h
  | close => exact .close
  | size => exact .size
  | empty => exact .empty
  | isClosed => exact .isClosed
  | acceptThrow _ _ _ h | frontThrow _ _ h | returnThrow _ _ h => cases h

end BlockingQueue
