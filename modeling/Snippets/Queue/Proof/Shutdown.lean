import Snippets.Queue.Proof.Linear

/-!
# Orderly shutdown

`Drained`: the queue is closed and empty. A `pop` returns `nullopt` only there
(`Step.nullopt_drained`), and no step leaves it, accepts a push or delivers an element there
(`Step.drained`).

`Loops consumer W`: in the trace `W` every consumer calls nothing but `pop`, and nothing any more
after a `nullopt`, and the other threads never pop. What `Orderly` says of such a trace is kept by
every event (`orderly`); once every consumer has left its loop, what the consumers received is what
the pushes that were accepted pushed (`orderly_shutdown`).
-/

namespace BlockingQueue

open Lts Atomic

variable {T ι : Type*} {capacity : Nat}

/-! ## The drained queue -/

/-- Closed and empty. -/
def Shared.Drained (q : Shared T) : Prop := q.closed = true ∧ q.queue = []

/-- The result is neither that of an accepted push nor a value delivered by a pop. -/
def Res.Declined : Res T → Prop
  | .pushed true _ | .popped (some _) => False
  | _ => True

/-- The step accepts no push and delivers no value. -/
def Label.Declined : Label ι T → Prop
  | .leave _ _ _ r => r.Declined
  | _ => True

theorem Section.drained {timedOut : Bool} {throwAt : Option ThrowAt} {q q' : Shared T} {c : Call T}
    {n : Option Cv} {r : Res T} (h : Section capacity timedOut throwAt q c (.leave q' n r))
    (hq : q.Drained) : q' = q ∧ r.Declined := by
  obtain ⟨hclosed, hempty⟩ := hq
  cases h with
  | accept _ hopen _ _ | acceptThrow _ hopen _ _ => rw [hclosed] at hopen; cases hopen
  | deliver _ hfront _ _ | frontThrow _ hfront _ | returnThrow _ hfront _ =>
    rw [hempty] at hfront; cases hfront
  | close => exact ⟨by rw [← hclosed], trivial⟩
  | refuse | nothing | size | empty | isClosed => exact ⟨rfl, trivial⟩

theorem FifoStep.drained {q q' : Shared T} {c : Call T} {r : Res T}
    (h : FifoStep capacity q c r q') (hq : q.Drained) : q'.Drained := by
  refine ⟨h.closed hq.1, ?_⟩
  cases h with
  | accept _ hopen _ => rw [hq.1] at hopen; cases hopen
  | deliver _ hfront => rw [hq.2] at hfront; cases hfront
  | _ => exact hq.2

theorem FifoStep.nullopt {q q' : Shared T} (h : FifoStep capacity q .pop (.popped none) q') :
    q.Drained := by
  cases h with
  | nothing _ hempty hor => exact ⟨hor.resolve_right nofun, hempty⟩

section
variable [DecidableEq ι] {s s' : State ι T} {l : Label ι T} {ls : List (Label ι T)}

/-- `pop ()` returns `nullopt` only at the drained queue. -/
theorem Step.nullopt_drained {t : ι} {throwAt : Option ThrowAt}
    (h : Step capacity s (.leave t .pop throwAt (.popped none)) s') : s.shared.Drained := by
  cases h with
  | leave _ hsec _ =>
    cases Section.of_eq hsec with
    | nothing _ hempty hor => exact ⟨hor.resolve_right nofun, hempty⟩

/-- Nothing is accepted or delivered at the drained queue, throw or not. -/
theorem Step.drained (hs : Step capacity s l s') (hq : s.shared.Drained) :
    s'.shared = s.shared ∧ l.Declined := by
  cases hs with
  | leave _ hsec _ => exact (Section.of_eq hsec).drained hq
  | _ => exact ⟨rfl, trivial⟩

theorem drained_stays (h : Run (system ι T capacity) s ls s') (hq : s.shared.Drained) :
    s'.shared = s.shared ∧ ∀ l ∈ ls, l.Declined := by
  induction h with
  | nil => exact ⟨rfl, nofun⟩
  | snoc _ hs ih =>
    obtain ⟨hsame, hdeclined⟩ := ih
    obtain ⟨hsame', hl⟩ := hs.drained (hsame ▸ hq)
    refine ⟨hsame'.trans hsame, fun l hm => ?_⟩
    rcases List.mem_append.1 hm with hm | hm
    · exact hdeclined l hm
    · rw [List.mem_singleton.1 hm]
      exact hl

end

/-! ## Values and their threads -/

/-- The value of a push that was accepted. -/
def pushedElem : Call T × Res T → Option T
  | (.push x _, .pushed true _) | (.tryPush x _, .pushed true _) => some x
  | _ => none

/-- The value that a pop delivered. -/
def poppedElem : Call T × Res T → Option T
  | (_, .popped (some x)) => some x
  | _ => none

/-- The values that the operations `es` put into the queue, each with its producer. -/
def pushes (es : List (ι × Call T × Res T)) : List (ι × T) :=
  es.filterMap fun e => (pushedElem e.2).map fun x => (e.1, x)

/-- The values that the operations `es` took out of the queue, each with its consumer. -/
def pops (es : List (ι × Call T × Res T)) : List (ι × T) :=
  es.filterMap fun e => (poppedElem e.2).map fun x => (e.1, x)

section
variable [DecidableEq ι] (ls : List (Label ι T))

/-- The accepted pushes of a run, in the order they took effect. -/
def acceptances : List (ι × T) := pushes (commits (ls.flatMap events))

/-- The pushes of a run that returned true. -/
def confirmations : List (ι × T) := pushes (returns (ls.flatMap events))

/-- What the pops of a run returned. -/
def receipts : List (ι × T) := pops (returns (ls.flatMap events))

end

theorem pushes_elems (W : List (Event ι (Call T) (Res T))) :
    (pushes (commits W)).map Prod.snd = accepted (W.filterMap Event.effect) :=
  map_snd_commits pushedElem W

theorem pops_elems (W : List (Event ι (Call T) (Res T))) :
    (pops (commits W)).map Prod.snd = delivered (W.filterMap Event.effect) :=
  map_snd_commits poppedElem W

theorem FifoStep.isPop {q q' : Shared T} {c : Call T} {r : Res T} (h : FifoStep capacity q c r q')
    {x : T} (hr : poppedElem (c, r) = some x) : c.IsPop := by
  cases h with
  | deliver hc _ | nothing hc _ _ => exact hc
  | _ => cases hr

/-! ## The consumers' loops -/

/-- The consumers loop on `pop ()` until it returns `nullopt`, and nobody else pops. -/
structure Loops (consumer : ι → Prop) (W : List (Event ι (Call T) (Res T))) : Prop where
  pops : ∀ t c, .call t c ∈ W → consumer t → c = .pop
  others : ∀ t c, .call t c ∈ W → ¬consumer t → ¬c.IsPop
  until_nullopt : W.Pairwise fun e e' =>
    ∀ t, consumer t → e = .ret t (.popped none) → ∀ c, e' ≠ .call t c

theorem Loops.init {consumer : ι → Prop} {W : List (Event ι (Call T) (Res T))}
    {e : Event ι (Call T) (Res T)} (h : Loops consumer (W ++ [e])) : Loops consumer W where
  pops t c hm := h.pops t c (List.mem_append_left _ hm)
  others t c hm := h.others t c (List.mem_append_left _ hm)
  until_nullopt := (List.pairwise_append.1 h.until_nullopt).1

theorem Loops.left {consumer : ι → Prop} {W : List (Event ι (Call T) (Res T))} {t : ι} {c : Call T}
    (h : Loops consumer (W ++ [.call t c])) (ht : consumer t) : .ret t (.popped none) ∉ W :=
  fun hm => (List.pairwise_append.1 h.until_nullopt).2.2 _ hm _ (List.mem_singleton_self _) t ht rfl
    c rfl

/-- What the loops keep: a consumer that has left its loop is outside, the queue is drained from
the first `nullopt` on, and only consumers take elements. -/
structure Orderly (consumer : ι → Prop) (W : List (Event ι (Call T) (Res T)))
    (a : Atomic.State ι (Shared T) (Call T) (Res T)) : Prop where
  outside : ∀ t, consumer t → .ret t (.popped none) ∈ W → a.phase t = .idle
  answered : ∀ t, consumer t → a.phase t = .committed (.popped none) → a.val.Drained
  left : ∀ t, consumer t → .ret t (.popped none) ∈ W → a.val.Drained
  takers : ∀ e ∈ pops (commits W), consumer e.1

variable [DecidableEq ι] {consumer : ι → Prop} {W : List (Event ι (Call T) (Res T))}
  {a : Atomic.State ι (Shared T) (Call T) (Res T)}

theorem called_mem (h : Exec ((fifo T capacity).object ι) W a) {t : ι} {c : Call T}
    (hp : a.phase t = .called c) : .call t c ∈ W := by
  have hs := object_settled h t
  rw [hp] at hs
  cases hs with
  | called hm _ _ => exact hm

omit [DecidableEq ι] in
theorem mem_of_mem_snoc {e e' : Event ι (Call T) (Res T)} (hm : e' ∈ W ++ [e]) (hne : e' ≠ e) :
    e' ∈ W :=
  (List.mem_append.1 hm).resolve_right fun h => hne (List.mem_singleton.1 h)

omit [DecidableEq ι] in
theorem takers_snoc {e : Event ι (Call T) (Res T)} (hi : Orderly consumer W a)
    (he : ∀ d ∈ pops (commits [e]), consumer d.1) :
    ∀ d ∈ pops (commits (W ++ [e])), consumer d.1 := by
  intro d hd
  rw [commits_append, pops, List.filterMap_append] at hd
  exact (List.mem_append.1 hd).elim (hi.takers d) (he d)

theorem of_update {α : Type*} {f : ι → α} {t u : ι} {x y : α} (h : Function.update f t x u = y)
    (hne : x ≠ y) : u ≠ t ∧ f u = y := by
  by_cases hut : u = t
  · subst hut
    rw [Function.update_self] at h
    exact absurd h hne
  · rw [Function.update_of_ne hut] at h
    exact ⟨hut, h⟩

section
variable {t : ι} {c : Call T} {r : Res T}

theorem Orderly.call (hi : Orderly consumer W a) (hloops : Loops consumer (W ++ [.call t c])) :
    Orderly consumer (W ++ [.call t c])
      { a with phase := Function.update a.phase t (.called c) } where
  outside u hu hm := by
    have hold := mem_of_mem_snoc hm nofun
    have hne : u ≠ t := by
      rintro rfl
      exact hloops.left hu hold
    simpa only [Function.update_of_ne hne] using hi.outside u hu hold
  answered u hu hp := hi.answered u hu (of_update hp nofun).2
  left u hu hm := hi.left u hu (mem_of_mem_snoc hm nofun)
  takers := takers_snoc hi nofun

theorem Orderly.commit {q : Shared T} (hi : Orderly consumer W a)
    (hloops : Loops consumer (W ++ [.commit t c r])) (hcall : .call t c ∈ W)
    (hp : a.phase t = .called c) (hs : FifoStep capacity a.val c r q) :
    Orderly consumer (W ++ [.commit t c r]) ⟨q, Function.update a.phase t (.committed r)⟩ where
  outside u hu hm := by
    have hidle := hi.outside u hu (mem_of_mem_snoc hm nofun)
    have hne : u ≠ t := by
      rintro rfl
      rw [hp] at hidle
      cases hidle
    simpa only [Function.update_of_ne hne] using hidle
  answered u hu hp' := by
    by_cases hut : u = t
    · subst hut
      simp only [Function.update_self, Phase.committed.injEq] at hp'
      subst hp'
      obtain rfl := hloops.pops u c (List.mem_append_left _ hcall) hu
      exact hs.drained hs.nullopt
    · simp only [Function.update_of_ne hut] at hp'
      exact hs.drained (hi.answered u hu hp')
  left u hu hm := hs.drained (hi.left u hu (mem_of_mem_snoc hm nofun))
  takers := takers_snoc hi fun d hd => by
    obtain ⟨x, hx, rfl⟩ : ∃ x, poppedElem (c, r) = some x ∧ (t, x) = d := by
      simpa [pops, commits] using hd
    by_contra hu
    exact hloops.others t c (List.mem_append_left _ hcall) hu (hs.isPop hx)

theorem Orderly.ret (hi : Orderly consumer W a) (hp : a.phase t = .committed r) :
    Orderly consumer (W ++ [.ret t r]) { a with phase := Function.update a.phase t .idle } where
  outside u hu hm := by
    by_cases hut : u = t
    · subst hut
      simp only [Function.update_self]
    · simp only [Function.update_of_ne hut]
      exact hi.outside u hu (mem_of_mem_snoc hm fun h => hut (by cases h; rfl))
  answered u hu hp' := hi.answered u hu (of_update hp' nofun).2
  left u hu hm := by
    rcases List.mem_append.1 hm with hm | hm
    · exact hi.left u hu hm
    · cases List.mem_singleton.1 hm
      exact hi.answered t hu hp
  takers := takers_snoc hi nofun

end

theorem Orderly.step {a' : Atomic.State ι (Shared T) (Call T) (Res T)}
    {e : Event ι (Call T) (Res T)} (h : Exec ((fifo T capacity).object ι) W a)
    (hi : Orderly consumer W a) (hloops : Loops consumer (W ++ [e]))
    (hs : Atomic.Step (fifo T capacity) a e a') : Orderly consumer (W ++ [e]) a' := by
  cases hs with
  | call _ => exact hi.call hloops
  | commit hp hs => exact hi.commit hloops (called_mem h hp) hp hs
  | ret hp => exact hi.ret hp

theorem orderly (h : Exec ((fifo T capacity).object ι) W a) (hloops : Loops consumer W) :
    Orderly consumer W a := by
  refine h.trace_invariant (I := fun W a => Loops consumer W → Orderly consumer W a)
    (fun a h0 _ => ?_) (fun W a e a' h ih hs hloops => (ih hloops.init).step h hloops hs) hloops
  cases h0
  exact ⟨nofun, nofun, nofun, nofun⟩

/-! ## Producers and consumers -/

/-- An element on its way from its producer to its consumer. -/
structure Handover (ι T : Type*) where
  producer : ι
  elem : T
  consumer : ι

omit [DecidableEq ι] in
/-- The values of two lists are the same: their threads are paired value by value. -/
theorem exists_handovers {ps cs : List (ι × T)} (h : ps.map Prod.snd = cs.map Prod.snd) :
    ∃ hs : List (Handover ι T), hs.map (fun h => (h.producer, h.elem)) = ps ∧
      hs.map (fun h => (h.consumer, h.elem)) = cs := by
  induction ps generalizing cs with
  | nil =>
    obtain rfl : cs = [] := by simpa using h.symm
    exact ⟨[], rfl, rfl⟩
  | cons p ps ih =>
    cases cs with
    | nil => cases h
    | cons c cs =>
      obtain ⟨i, x⟩ := p
      obtain ⟨j, y⟩ := c
      simp only [List.map_cons, List.cons.injEq] at h
      obtain ⟨rfl, h⟩ := h
      obtain ⟨hs, hp, hc⟩ := ih h
      exact ⟨⟨i, x, j⟩ :: hs, by simp [hp], by simp [hc]⟩

theorem ofThread_map (t : ι) (hs : List (Handover ι T)) (f : Handover ι T → ι) :
    ofThread t (hs.map fun h => (f h, h.elem)) = (hs.filter (f · = t)).map Handover.elem := by
  induction hs with
  | nil => rfl
  | cons h hs ih =>
    by_cases hf : f h = t
    · subst hf
      simpa using ih
    · simpa [ofThread_cons_ne hf, hf] using ih

/-- Of a thread's accepted pushes, at most the last one has not returned yet. -/
theorem pushes_settled (h : Exec ((fifo T capacity).object ι) W a) (t : ι) :
    ofThread t (pushes (commits W)) = ofThread t (pushes (returns W)) ∨
      ∃ x arg, a.phase t = .committed (.pushed true arg) ∧
        ofThread t (pushes (commits W)) = ofThread t (pushes (returns W)) ++ [x] := by
  have hs := object_settled h t
  unfold pushes
  rw [ofThread_filterMap, ofThread_filterMap]
  generalize a.phase t = p at hs
  cases hs with
  | idle hw => exact .inl (by rw [hw])
  | called _ _ hw => exact .inl (by rw [hw])
  | @committed c r _ hw =>
    rw [hw, List.filterMap_append]
    cases hx : pushedElem (c, r) with
    | none => exact .inl (by simp [hx])
    | some x =>
      obtain ⟨arg, rfl⟩ : ∃ arg, r = .pushed true arg := by
        unfold pushedElem at hx
        split at hx
        · rename_i heq; cases heq; exact ⟨_, rfl⟩
        · rename_i heq; cases heq; exact ⟨_, rfl⟩
        · cases hx
      exact .inr ⟨x, arg, rfl, by simp [hx]⟩

/-- Once every consumer has left its loop, what was delivered was received. -/
theorem pops_received (h : Exec ((fifo T capacity).object ι) W a) (hi : Orderly consumer W a)
    (hleft : ∀ t, consumer t → .ret t (.popped none) ∈ W) (t : ι) :
    ofThread t (pops (commits W)) = ofThread t (pops (returns W)) := by
  have hs := object_settled h t
  by_cases ht : consumer t
  · rw [hi.outside t ht (hleft t ht)] at hs
    cases hs with
    | idle hw =>
      unfold pops
      rw [ofThread_filterMap, ofThread_filterMap, hw]
  · have hnone : ofThread t (pops (commits W)) = [] :=
      List.eq_nil_iff_forall_not_mem.2 fun x hx => ht (hi.takers _ (mem_ofThread.1 hx))
    rw [hnone]
    unfold pops at hnone ⊢
    rw [ofThread_filterMap] at hnone ⊢
    generalize a.phase t = p at hs
    cases hs with
    | idle hw => rw [← hw, hnone]
    | called _ _ hw => rw [← hw, hnone]
    | committed _ hw =>
      rw [hw, List.filterMap_append] at hnone
      exact (List.append_eq_nil_iff.1 hnone).1.symm

theorem Pc.eq_done {p : Pc T} {arg : Arg T} (h : p.phase = .committed (.pushed true arg)) :
    p = .done (.pushed true arg) := by
  cases p with
  | done r => cases h; rfl
  | _ => cases h

/-- **Orderly shutdown.** `pop` returns `nullopt` only when the queue is closed and everything
accepted has been taken, and from then on nothing is accepted or delivered. If the consumers loop
on `pop` until `nullopt`, whatever the other threads push and whenever anyone closes, then once all
consumers have left, what they received is what the accepted pushes pushed, every consumer having
received the values of each producer in the order they were pushed. Every accepted push has
returned true or is about to. -/
theorem orderly_shutdown {ls : List (Label ι T)} {s : State ι T}
    (h : Exec ((system ι T capacity).restrict NoThrow) ls s) :
    (∀ t throwAt s', Step capacity s (.leave t .pop throwAt (.popped none)) s' →
      s.shared.Drained ∧ accepted (effects ls) = delivered (effects ls) ∧
        ∀ ls' s'', Run (system ι T capacity) s' ls' s'' → s''.shared.Drained ∧
          ∀ l ∈ ls', l.Declined) ∧
      ∀ consumer : ι → Prop, (∃ t, consumer t) → Loops consumer (ls.flatMap events) →
        (∀ t, consumer t → .ret t (.popped none) ∈ ls.flatMap events) →
        ∃ hs : List (Handover ι T),
          hs.map (fun h => (h.producer, h.elem)) = acceptances ls ∧
          (∀ t, ofThread t (receipts ls) = (hs.filter (·.consumer = t)).map Handover.elem) ∧
          (∀ p t, ((hs.filter fun h => h.consumer = t ∧ h.producer = p).map Handover.elem).Sublist
            (ofThread p (acceptances ls))) ∧
          ((receipts ls).map Prod.snd).Perm ((acceptances ls).map Prod.snd) ∧
          (∀ t, ofThread t (acceptances ls) = ofThread t (confirmations ls) ∨
            ∃ x arg, s.pc t = .done (.pushed true arg) ∧
              ofThread t (acceptances ls) = ofThread t (confirmations ls) ++ [x]) ∧
          ((∀ t arg, s.pc t ≠ .done (.pushed true arg)) →
            ((receipts ls).map Prod.snd).Perm ((confirmations ls).map Prod.snd)) := by
  obtain ⟨hobj, -⟩ := system_refines h
  have hcons : accepted (effects ls) = delivered (effects ls) ++ s.shared.queue :=
    (fifo_conserves (Atomic.object_legal hobj)).1
  refine ⟨fun t throwAt s' hs => ?_, fun consumer ⟨t₀, ht₀⟩ hloops hleft => ?_⟩
  · have hq := hs.nullopt_drained
    have hq' : s'.shared.Drained := by rw [(hs.drained hq).1]; exact hq
    refine ⟨hq, by simpa only [hq.2, List.append_nil] using hcons, fun ls' s'' hrun => ?_⟩
    obtain ⟨hsame, hdeclined⟩ := drained_stays hrun hq'
    exact ⟨hsame ▸ hq', hdeclined⟩
  · have hi := orderly hobj hloops
    have hempty : s.shared.queue = [] := (hi.left t₀ ht₀ (hleft t₀ ht₀)).2
    have hvals : (acceptances ls).map Prod.snd =
        (pops (commits (ls.flatMap events))).map Prod.snd := by
      rw [hempty, List.append_nil] at hcons
      exact (pushes_elems _).trans (hcons.trans (pops_elems _).symm)
    obtain ⟨hs, hp, hc⟩ := exists_handovers hvals
    have hreceived : ∀ t, ofThread t (pops (commits (ls.flatMap events))) =
        ofThread t (receipts ls) := pops_received hobj hi hleft
    have hperm : ((receipts ls).map Prod.snd).Perm ((acceptances ls).map Prod.snd) := by
      rw [hvals]
      exact ((perm_of_ofThread hreceived).map Prod.snd).symm
    have hlate : ∀ t, ofThread t (acceptances ls) = ofThread t (confirmations ls) ∨
        ∃ x arg, s.pc t = .done (.pushed true arg) ∧
          ofThread t (acceptances ls) = ofThread t (confirmations ls) ++ [x] :=
      fun t => (pushes_settled hobj t).imp_right fun ⟨x, arg, hphase, hw⟩ =>
        ⟨x, arg, Pc.eq_done hphase, hw⟩
    refine ⟨hs, hp, fun t => ?_, fun p t => ?_, hperm, hlate, fun hquiet => hperm.trans ?_⟩
    · rw [← hreceived, ← hc, ofThread_map]
    · rw [← hp, ofThread_map]
      refine (List.monotone_filter_right hs fun h hh => ?_).map _
      simp only [decide_eq_true_eq] at hh ⊢
      exact hh.2
    · refine (perm_of_ofThread fun t => ?_).map Prod.snd
      exact (hlate t).resolve_right fun ⟨_, arg, hdone, _⟩ => hquiet t arg hdone

/-- One producer, one consumer that waits, and a close between them. -/
theorem orderly_shutdown_one : ∃ (ls : List (Label Bool Nat)) (s : State Bool Nat),
    Exec ((system Bool Nat 1).restrict NoThrow) ls s ∧ confirmations ls = [(false, 5)] ∧
      ((receipts ls).map Prod.snd).Perm [5] := by
  have h0 : Exec ((system Bool Nat 1).restrict NoThrow) [] ⟨⟨[], false⟩, fun _ => .idle⟩ :=
    .init rfl
  have h1 := h0.snoc ⟨.call (t := true) (c := .pop) rfl, trivial⟩
  have h2 := h1.snoc ⟨.park (t := true) (.enter _) rfl, trivial⟩
  have h3 := h2.snoc ⟨.call (t := false) (c := .push 5 true) rfl, trivial⟩
  have h4 := h3.snoc ⟨.leave (t := false) (.enter _) rfl (.one (.one (t := true) rfl rfl)), rfl⟩
  have h5 := h4.snoc ⟨.ret (t := false) rfl, trivial⟩
  have h6 := h5.snoc ⟨.call (t := false) (c := .close) rfl, trivial⟩
  have h7 := h6.snoc ⟨.leave (t := false) (.enter _) rfl .none, rfl⟩
  have h8 := h7.snoc ⟨.leave (t := true) (.woken _ _) rfl
    (.one (.none fun t c h => by cases t <;> cases h)), rfl⟩
  have h9 := h8.snoc ⟨.ret (t := true) rfl, trivial⟩
  have h10 := h9.snoc ⟨.call (t := true) (c := .pop) rfl, trivial⟩
  have h11 := h10.snoc ⟨.leave (t := true) (.enter _) rfl .none, rfl⟩
  have h12 := h11.snoc ⟨.ret (t := true) rfl, trivial⟩
  obtain ⟨hs, hp, -, -, hperm, -⟩ := (orderly_shutdown h12).2 (· = true) ⟨true, rfl⟩
    ⟨by simp [events], by simp [events, Call.IsPop], by simp [events]⟩ (by simp [events])
  exact ⟨_, _, h12, rfl, hperm⟩

end BlockingQueue
