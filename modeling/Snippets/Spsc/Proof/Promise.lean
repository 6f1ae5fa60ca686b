import Snippets.Spsc.Proof.Indices

/-!
# What an endpoint learns from a query

While the producer makes a query it stores no index, and what the consumer does in the meantime
only takes elements, so the answer is true of at least the number of elements there are
(`QueryPc.ProducerOk`); for the consumer it is true of at most that number
(`QueryPc.ConsumerOk`). `Promised` keeps both over every step (`SeenStep.promised`).

From there the runs of the ring buffer take over: as many pushes as there is room
(`run_pushes`), or pops as there are elements (`run_pops`), cannot fail. Together,
`endpoint_promises`.
-/

namespace Spsc

open Lts

variable {T : Type*} {Capacity : Nat}

/-! ## Bounds kept by the queries -/

/-- The producer's locals in a query: its answer is true of some number of elements that is at
least the present one. -/
def QueryPc.ProducerOk (Capacity : Nat) (s : State T) : QueryPc → Prop
  | .idle | .start _ => True
  | .loadTail _ h => h = s.head
  | .loadHead _ t => t ≤ Capacity ∧ count Capacity s.head s.tail ≤ count Capacity s.head t
  | .done q a => ∃ m, a.TrueOf Capacity q m ∧ count Capacity s.head s.tail ≤ m ∧ m ≤ Capacity

/-- The consumer's locals in a query: its answer is true of some number of elements that is at
most the present one. -/
def QueryPc.ConsumerOk (Capacity : Nat) (s : State T) : QueryPc → Prop
  | .idle | .start _ => True
  | .loadTail _ h => h ≤ Capacity ∧ count Capacity h s.tail ≤ count Capacity s.head s.tail
  | .loadHead _ t => t = s.tail
  | .done q a => ∃ m, a.TrueOf Capacity q m ∧ m ≤ count Capacity s.head s.tail

/-- What the promises rest on. A query of the producer or of the consumer comes between its own
operations, so it knows one index, and the other one can only have moved in one direction. -/
structure Promised (Capacity : Nat) (s : Observed T) : Prop where
  ring : Inv Capacity s.ring
  between : ∀ c, s.query c ≠ .idle → s.Between c
  producer : (s.query .producer).ProducerOk Capacity s.ring
  consumer : (s.query .consumer).ConsumerOk Capacity s.ring

theorem QueryPc.ProducerOk.of {s s' : State T} {pc : QueryPc} (h : pc.ProducerOk Capacity s)
    (hh : s'.head = s.head)
    (hn : count Capacity s'.head s'.tail ≤ count Capacity s.head s.tail) :
    pc.ProducerOk Capacity s' := by
  cases pc with
  | idle | start _ => trivial
  | loadTail q i => exact Eq.trans h hh.symm
  | loadHead q t => exact ⟨h.1, hn.trans (hh ▸ h.2)⟩
  | done q a =>
    obtain ⟨m, ha, hm, hle⟩ := h
    exact ⟨m, ha, hn.trans hm, hle⟩

theorem QueryPc.ConsumerOk.of {s s' : State T} {pc : QueryPc} (h : pc.ConsumerOk Capacity s)
    (ht : s'.tail = s.tail)
    (hn : count Capacity s.head s.tail ≤ count Capacity s'.head s'.tail) :
    pc.ConsumerOk Capacity s' := by
  cases pc with
  | idle | start _ => trivial
  | loadTail q i =>
    refine ⟨h.1, le_trans ?_ hn⟩
    rw [ht]
    exact h.2
  | loadHead q t => exact Eq.trans h ht.symm
  | done q a =>
    obtain ⟨m, ha, hm⟩ := h
    exact ⟨m, ha, hm.trans hn⟩

theorem Step.prod_idle {s s' : State T} {l : Label T} (hs : Step Capacity s l s')
    (hp : s.prod = .idle) (hl : l.caller ≠ some .producer) : s'.prod = .idle := by
  cases hs with
  | push _ => exact absurd rfl hl
  | pushLoadHead h | pushLoadTail h _ | pushFull h _ | pushAssign h | pushThrow h | pushStore h
  | pushRet h => exact nomatch hp.symm.trans h
  | _ => exact hp

theorem Step.cons_idle {s s' : State T} {l : Label T} (hs : Step Capacity s l s')
    (hc : s.cons = .idle) (hl : l.caller ≠ some .consumer) : s'.cons = .idle := by
  cases hs with
  | pop _ => exact absurd rfl hl
  | popLoadTail h | popLoadHead h _ | popEmpty h _ | popRead h | popThrow h | popStore h
  | popRet h => exact nomatch hc.symm.trans h
  | _ => exact hc

theorem Promised.set {s : Observed T} (hi : Promised Capacity s) {c : Caller} {pc : QueryPc}
    (hb : pc ≠ .idle → s.Between c) (hp : c = .producer → pc.ProducerOk Capacity s.ring)
    (hc : c = .consumer → pc.ConsumerOk Capacity s.ring) :
    Promised Capacity { s with query := Function.update s.query c pc } := by
  refine ⟨hi.ring, ?_, ?_, ?_⟩
  · intro d hd
    by_cases he : d = c
    · subst he
      simp only [Function.update_self] at hd
      cases d <;> exact hb hd
    · simp only [Function.update_of_ne he] at hd
      have := hi.between d hd
      cases d <;> exact this
  · by_cases he : Caller.producer = c
    · subst he
      simpa only [Function.update_self] using hp rfl
    · simpa only [Function.update_of_ne he] using hi.producer
  · by_cases he : Caller.consumer = c
    · subst he
      simpa only [Function.update_self] using hc rfl
    · simpa only [Function.update_of_ne he] using hi.consumer

section
variable (hC : Capacity + 1 < 2 ^ 64)
include hC

/-- A step of the other thread keeps what an endpoint knows from its query. -/
theorem Promised.ring_step {s : Observed T} {l : Label T} {r : State T} (hi : Promised Capacity s)
    (hs : Step Capacity s.ring l r) (hl : ∀ c, l.caller = some c → s.query c = .idle) :
    Promised Capacity { s with ring := r } := by
  have hn := (run_indices hC (.single hs : Run (Spsc.ring T Capacity) _ _ _)
    hi.ring).2.2
  simp only [List.countP_singleton] at hn
  refine ⟨Step.inv hC hi.ring hs, ?_, ?_, ?_⟩
  · intro c hc
    have hnot : l.caller ≠ some c := fun he => hc (hl c he)
    cases c with
    | producer => exact hs.prod_idle (hi.between _ hc) hnot
    | consumer => exact hs.cons_idle (hi.between _ hc) hnot
    | third => trivial
  · by_cases hc : s.query .producer = .idle
    · show (s.query .producer).ProducerOk Capacity r
      rw [hc]; trivial
    · cases hs.indices hi.ring with
      | push _ _ hp _ _ _ => exact absurd (hi.between _ hc) hp
      | pop h1 h2 _ hh _ _ =>
        rw [h1, h2] at hn
        simp only [if_true, Bool.false_eq_true, if_false] at hn
        exact hi.producer.of hh (by dsimp only; omega)
      | none _ _ hh ht => exact hi.producer.of hh (by rw [hh, ht])
  · by_cases hc : s.query .consumer = .idle
    · show (s.query .consumer).ConsumerOk Capacity r
      rw [hc]; trivial
    · cases hs.indices hi.ring with
      | push h1 h2 _ _ ht _ =>
        rw [h1, h2] at hn
        simp only [if_true, Bool.false_eq_true, if_false] at hn
        exact hi.consumer.of ht (by dsimp only; omega)
      | pop _ _ hp _ _ _ => exact absurd (hi.between _ hc) hp
      | none _ _ hh ht => exact hi.consumer.of ht (by rw [hh, ht])

theorem SeenStep.promised {s s' : Observed T} {l : Seen T} (hi : Promised Capacity s)
    (hs : SeenStep Capacity s l s') : Promised Capacity s' := by
  have hbusy : ∀ {c pc}, s.query c = pc → pc ≠ .idle → s.Between c := by
    intro c pc he hne
    exact hi.between c (by rwa [he])
  cases hs with
  | ring hs hl => exact hi.ring_step hC hs hl
  | query hb _ => exact hi.set (fun _ => hb) (fun _ => trivial) fun _ => trivial
  | headFirst h =>
    exact hi.set (fun _ => hbusy h nofun) (fun _ => rfl) fun _ => ⟨hi.ring.head, le_rfl⟩
  | tailFirst h _ =>
    exact hi.set (fun _ => hbusy h nofun) (fun _ => ⟨hi.ring.tail, le_rfl⟩) fun _ => rfl
  | @tailLast c q h hq =>
    refine hi.set (fun _ => hbusy hq nofun) ?_ ?_
    · rintro rfl
      have hp := hi.producer
      rw [hq] at hp
      cases hp
      exact ⟨_, answer_trueOf hC hi.ring.head hi.ring.tail q, le_rfl, count_le hi.ring.head⟩
    · rintro rfl
      have hc := hi.consumer
      rw [hq] at hc
      exact ⟨_, answer_trueOf hC hc.1 hi.ring.tail q, hc.2⟩
  | @headLast c q t hq =>
    refine hi.set (fun _ => hbusy hq nofun) ?_ ?_
    · rintro rfl
      have hp := hi.producer
      rw [hq] at hp
      exact ⟨_, answer_trueOf hC hi.ring.head hp.1 q, hp.2, count_le hi.ring.head⟩
    · rintro rfl
      have hc := hi.consumer
      rw [hq] at hc
      cases hc
      exact ⟨_, answer_trueOf hC hi.ring.head hi.ring.tail q, le_rfl⟩
  | ret h => exact hi.set (fun hne => absurd rfl hne) (fun _ => trivial) fun _ => trivial

theorem observed_promised {s : Observed T} {ls : List (Seen T)}
    (h : Exec (observed T Capacity) ls s) : Promised Capacity s := by
  refine h.invariant (I := Promised Capacity) (fun s h0 => ?_)
    fun _ _ _ hi hs => SeenStep.promised hC hi hs
  obtain ⟨h0, hq⟩ := h0
  refine ⟨Inv.init h0, fun c hc => absurd (hq c) hc, ?_, ?_⟩
  · rw [hq]; trivial
  · rw [hq]; trivial

end

/-! ## Calls in a run -/

/-- The push has not taken effect yet. -/
def PushPc.pending : PushPc T → Nat
  | .loadHead _ | .loadTail _ _ _ | .assign _ _ _ | .store _ _ => 1
  | .idle | .done _ => 0

/-- 1 in a pop that may still take an element. -/
def PopPc.pending : PopPc T → Nat
  | .loadTail | .loadHead _ | .read _ | .store _ _ => 1
  | .idle | .done _ => 0

theorem accepts_le_pushes {s s' : State T} {ls : List (Label T)}
    (h : Run (ring T Capacity) s ls s') :
    ls.countP Label.accepts + s'.prod.pending ≤ ls.countP Label.isPush + s.prod.pending := by
  refine h.countP_le (m := fun s => s.prod.pending) fun s l s' hs => ?_
  cases hs with
  | push h | pushLoadHead h | pushLoadTail h _ | pushFull h _ | pushAssign h | pushThrow h
  | pushStore h | pushRet h => simp [h, PushPc.pending, Label.accepts, Label.isPush]
  | _ => simp [Label.accepts, Label.isPush]

theorem takes_le_pops {s s' : State T} {ls : List (Label T)} (h : Run (ring T Capacity) s ls s') :
    ls.countP Label.takes + s'.cons.pending ≤ ls.countP Label.isPop + s.cons.pending := by
  refine h.countP_le (m := fun s => s.cons.pending) fun s l s' hs => ?_
  cases hs with
  | pop h | popLoadTail h | popLoadHead h _ | popEmpty h _ | popRead h | popThrow h
  | popStore h | popRet h => simp [h, PopPc.pending, Label.takes, Label.isPop]
  | _ => simp [Label.takes, Label.isPop]

/-- How a push comes to its answer. -/
theorem Step.prod_done {s s' : State T} {l : Label T} (hs : Step Capacity s l s')
    {r : Fifo.Res T} (hd : s'.prod = .done r) :
    s.prod = .done r ∨ (∃ item, l = .pushLoadTail item true) ∨ r = .pushed ∨
      r = .threw ∧ ∃ item, l = .pushAssign item true := by
  cases hs with
  | push | pushLoadHead | pushLoadTail | pushAssign | pushRet => cases hd
  | pushFull => exact .inr (.inl ⟨_, rfl⟩)
  | pushThrow =>
    cases hd
    exact .inr (.inr (.inr ⟨rfl, _, rfl⟩))
  | pushStore =>
    cases hd
    exact .inr (.inr (.inl rfl))
  | _ => exact .inl hd

theorem Step.cons_done {s s' : State T} {l : Label T} (hs : Step Capacity s l s')
    {r : Fifo.Res T} (hd : s'.cons = .done r) :
    s.cons = .done r ∨ l = .popLoadHead true ∨ (∃ x, r = .popped x) ∨
      r = .threw ∧ l = .popRead true := by
  cases hs with
  | pop | popLoadTail | popLoadHead | popRead | popRet => cases hd
  | popEmpty => exact .inr (.inl rfl)
  | popThrow =>
    cases hd
    exact .inr (.inr (.inr ⟨rfl, rfl⟩))
  | popStore =>
    cases hd
    exact .inr (.inr (.inl ⟨_, rfl⟩))
  | _ => exact .inl hd

theorem Step.pushRet_done {s s' : State T} {r : Fifo.Res T}
    (hs : Step Capacity s (.pushRet r) s') : s.prod = .done r := by
  cases hs with
  | pushRet h => exact h

theorem Step.popRet_done {s s' : State T} {r : Fifo.Res T}
    (hs : Step Capacity s (.popRet r) s') : s.cons = .done r := by
  cases hs with
  | popRet h => exact h

/-- A push answers that it was accepted, unless it found no room or its assignment threw. -/
theorem pushRet_cases {s s' : State T} {ls : List (Label T)} (h : Run (ring T Capacity) s ls s')
    (hp : s.prod = .idle) (hfull : ∀ item, .pushLoadTail item true ∉ ls) :
    (∀ r, s'.prod = .done r ∨ .pushRet r ∈ ls →
      r = .pushed ∨ r = .threw ∧ ∃ item, .pushAssign item true ∈ ls) := by
  induction h with
  | nil => simp [hp]
  | @snoc x y ls l _ hs ih =>
    have old : ∀ r, x.prod = .done r ∨ .pushRet r ∈ ls →
        r = .pushed ∨ r = .threw ∧ ∃ item, .pushAssign item true ∈ ls ++ [l] := by
      intro r hr
      rcases ih (fun item hm => hfull item (List.mem_append_left _ hm)) r hr with h | ⟨h, item, hm⟩
      · exact .inl h
      · exact .inr ⟨h, item, List.mem_append_left _ hm⟩
    intro r hr
    rcases hr with hd | hm
    · rcases hs.prod_done hd with hd | ⟨item, rfl⟩ | rfl | ⟨rfl, item, rfl⟩
      · exact old r (.inl hd)
      · exact absurd (by simp) (hfull item)
      · exact .inl rfl
      · exact .inr ⟨rfl, item, by simp⟩
    · rcases List.mem_append.1 hm with hm | hm
      · exact old r (.inr hm)
      · obtain rfl := List.mem_singleton.1 hm
        exact old r (.inl hs.pushRet_done)

/-- A pop answers with an element, unless it found none or its assignment threw. -/
theorem popRet_cases {s s' : State T} {ls : List (Label T)} (h : Run (ring T Capacity) s ls s')
    (hc : s.cons = .idle) (hempty : .popLoadHead true ∉ ls) :
    (∀ r, s'.cons = .done r ∨ .popRet r ∈ ls →
      (∃ x, r = .popped x) ∨ r = .threw ∧ .popRead true ∈ ls) := by
  induction h with
  | nil => simp [hc]
  | @snoc x y ls l _ hs ih =>
    have old : ∀ r, x.cons = .done r ∨ .popRet r ∈ ls →
        (∃ x, r = .popped x) ∨ r = .threw ∧ .popRead true ∈ ls ++ [l] := by
      intro r hr
      have hold := ih (fun hm => hempty (List.mem_append_left _ hm)) r hr
      exact hold.imp_right fun ⟨h, hm⟩ => ⟨h, List.mem_append_left _ hm⟩
    intro r hr
    rcases hr with hd | hm
    · rcases hs.cons_done hd with hd | rfl | ⟨x, rfl⟩ | ⟨rfl, rfl⟩
      · exact old r (.inl hd)
      · exact absurd (by simp) hempty
      · exact .inl ⟨x, rfl⟩
      · exact .inr ⟨rfl, by simp⟩
    · rcases List.mem_append.1 hm with hm | hm
      · exact old r (.inr hm)
      · obtain rfl := List.mem_singleton.1 hm
        exact old r (.inl hs.popRet_done)

/-! ## Elements in a run -/

theorem effects_append (ls ls' : List (Label T)) :
    effects (ls ++ ls') = effects ls ++ effects ls' := by
  simp [effects]

theorem delivered_append (es es' : List (Fifo.Op T × Fifo.Res T)) :
    Fifo.delivered (es ++ es') = Fifo.delivered es ++ Fifo.delivered es' := by
  simp [Fifo.delivered]

theorem delivered_length (ls : List (Label T)) :
    (Fifo.delivered (effects ls)).length = ls.countP Label.takes := by
  induction ls with
  | nil => rfl
  | cons l ls ih =>
    have hl : (Fifo.delivered (effects [l])).length = if l.takes then 1 else 0 := by
      cases l with
      | pushLoadTail _ full => cases full <;> rfl
      | pushAssign _ threw => cases threw <;> rfl
      | popLoadHead empty => cases empty <;> rfl
      | popRead threw => cases threw <;> rfl
      | _ => rfl
    rw [← List.singleton_append, effects_append, delivered_append, List.length_append, hl, ih,
      List.countP_append, List.countP_singleton]

/-- What was in the queue and what came in is what was taken and what is left. -/
theorem run_contents (hC : Capacity + 1 < 2 ^ 64) {s s' : State T} {ks ls : List (Label T)}
    (h : Exec (ring T Capacity) ks s) (hr : Run (ring T Capacity) s ls s') :
    contents Capacity s ++ Fifo.accepted (effects ls) =
      Fifo.delivered (effects ls) ++ contents Capacity s' := by
  have h1 := Fifo.accepted_eq (Atomic.object_legal (ring_refines hC h))
  have h2 := Fifo.accepted_eq (Atomic.object_legal (ring_refines hC (h.append hr)))
  change Fifo.accepted (effects (ks ++ ls)) = Fifo.delivered (effects (ks ++ ls)) ++ _ at h2
  change Fifo.accepted (effects ks) = Fifo.delivered (effects ks) ++ contents Capacity s at h1
  rw [effects_append, delivered_append, Fifo.accepted, List.filterMap_append, ← Fifo.accepted,
    ← Fifo.accepted, h1, List.append_assoc, List.append_assoc] at h2
  exact List.append_cancel_left h2

/-- The element of a pop that has not returned yet. -/
def PopPc.answered : PopPc T → List T
  | .done (.popped elem) => [elem]
  | _ => []

/-- The elements returned are the ones taken, but for a pop that has not returned yet. -/
theorem run_returned {s s' : State T} {ls : List (Label T)} (h : Run (ring T Capacity) s ls s') :
    ls.filterMap Label.returned ++ s'.cons.answered =
      s.cons.answered ++ Fifo.delivered (effects ls) := by
  induction h with
  | nil => simp [effects, Fifo.delivered]
  | @snoc x y ls l _ hs ih =>
    rw [List.filterMap_append, effects_append, delivered_append, ← List.append_assoc, ← ih]
    cases hs with
    | pop h | popLoadTail h | popLoadHead h _ | popEmpty h _ | popRead h | popThrow h
    | popStore h =>
      rw [h]
      simp [PopPc.answered, Label.returned, effects, events, Atomic.Event.effect, Fifo.delivered,
        List.filterMap_cons]
    | @popRet r h =>
      rw [h]
      cases r <;> simp [PopPc.answered, Label.returned, effects, events, Atomic.Event.effect,
        Fifo.delivered, List.filterMap_cons]
    | _ =>
      simp [Label.returned, effects, events, Atomic.Event.effect, Fifo.delivered,
        List.filterMap_cons]

/-! ## Progress -/

/-- The steps of its own that a push still takes. -/
def PushPc.left : PushPc T → Nat
  | .idle => 0
  | .loadHead _ => 5
  | .loadTail _ _ _ => 4
  | .assign _ _ _ => 3
  | .store _ _ => 2
  | .done _ => 1

/-- The steps of its own that a pop still takes. -/
def PopPc.left : PopPc T → Nat
  | .idle => 0
  | .loadTail => 5
  | .loadHead _ => 4
  | .read _ => 3
  | .store _ _ => 2
  | .done _ => 1

theorem push_advances {s : State T} (hp : s.prod ≠ .idle) :
    ∃ l s', Step Capacity s l s' ∧ l.caller = none ∧ s'.prod.left < s.prod.left := by
  cases h : s.prod with
  | idle => exact absurd h hp
  | loadHead item => exact ⟨_, _, .pushLoadHead h, rfl, by simp [PushPc.left]⟩
  | loadTail item i n =>
    by_cases he : n = s.tail
    · exact ⟨_, _, .pushFull h he, rfl, by simp [PushPc.left]⟩
    · exact ⟨_, _, .pushLoadTail h he, rfl, by simp [PushPc.left]⟩
  | assign item i n => exact ⟨_, _, .pushAssign h, rfl, by simp [PushPc.left]⟩
  | store item n => exact ⟨_, _, .pushStore h, rfl, by simp [PushPc.left]⟩
  | done r => exact ⟨_, _, .pushRet h, rfl, by simp [PushPc.left]⟩

theorem pop_advances {s : State T} (hc : s.cons ≠ .idle) :
    ∃ l s', Step Capacity s l s' ∧ l.caller = none ∧ s'.cons.left < s.cons.left := by
  cases h : s.cons with
  | idle => exact absurd h hc
  | loadTail => exact ⟨_, _, .popLoadTail h, rfl, by simp [PopPc.left]⟩
  | loadHead t =>
    by_cases he : t = s.head
    · exact ⟨_, _, .popEmpty h he, rfl, by simp [PopPc.left]⟩
    · exact ⟨_, _, .popLoadHead h he, rfl, by simp [PopPc.left]⟩
  | read t => exact ⟨_, _, .popRead h, rfl, by simp [PopPc.left]⟩
  | store t elem => exact ⟨_, _, .popStore h, rfl, by simp [PopPc.left]⟩
  | done r => exact ⟨_, _, .popRet h, rfl, by simp [PopPc.left]⟩

/-- No call is ever stuck: its thread can take a step that brings it closer to its return. -/
def CallsAdvance (Capacity : Nat) (s : Observed T) : Prop :=
  (s.ring.prod ≠ .idle → ∃ l s', SeenStep Capacity s (.ring l) s' ∧
    s'.ring.prod.left < s.ring.prod.left) ∧
  (s.ring.cons ≠ .idle → ∃ l s', SeenStep Capacity s (.ring l) s' ∧
    s'.ring.cons.left < s.ring.cons.left)

theorem calls_advance (s : Observed T) : CallsAdvance Capacity s := by
  refine ⟨fun hp => ?_, fun hc => ?_⟩
  · obtain ⟨l, r, hs, hl, hlt⟩ := push_advances hp
    exact ⟨l, _, .ring hs (by rw [hl]; nofun), hlt⟩
  · obtain ⟨l, r, hs, hl, hlt⟩ := pop_advances hc
    exact ⟨l, _, .ring hs (by rw [hl]; nofun), hlt⟩

/-! ## Promises -/

section
variable (hC : Capacity + 1 < 2 ^ 64)
include hC

/-- As many pushes as there is room find room. -/
theorem run_pushes {s s' : State T} {ls : List (Label T)} {n : Nat}
    (h : Run (ring T Capacity) s ls s') (hi : Inv Capacity s) (hp : s.prod = .idle)
    (hn : count Capacity s.head s.tail ≤ n) (hls : ls.countP Label.isPush ≤ Capacity - n) :
    ∀ item, .pushLoadTail item true ∉ ls := by
  induction h with
  | nil => exact fun _ => List.not_mem_nil
  | @snoc x y ls l h hs ih =>
    intro item hm
    rw [List.countP_append] at hls
    rcases List.mem_append.1 hm with hm | hm
    · exact ih (by omega) item hm
    · have hcalls := accepts_le_pushes h
      have hix := run_inv hC h hi
      have hcount := (run_indices hC h hi).2.2
      rw [List.mem_singleton] at hm
      subst hm
      cases hs with
      | pushFull hpc he =>
        have hok := hix.prod
        rw [hpc] at hcalls hok
        obtain ⟨rfl, rfl⟩ := hok
        have hfull := (nextIndex_eq_tail hC hix.head hix.tail).1 he
        rw [hp] at hcalls
        simp only [PushPc.pending] at hcalls
        omega

/-- As many pops as there are elements find one. -/
theorem run_pops {s s' : State T} {ls : List (Label T)} {n : Nat}
    (h : Run (ring T Capacity) s ls s') (hi : Inv Capacity s) (hc : s.cons = .idle)
    (hn : n ≤ count Capacity s.head s.tail) (hls : ls.countP Label.isPop ≤ n) :
    .popLoadHead true ∉ ls := by
  induction h with
  | nil => exact List.not_mem_nil
  | @snoc x y ls l h hs ih =>
    intro hm
    rw [List.countP_append] at hls
    rcases List.mem_append.1 hm with hm | hm
    · exact ih (by omega) hm
    · have hcalls := takes_le_pops h
      have hix := run_inv hC h hi
      have hcount := (run_indices hC h hi).2.2
      rw [List.mem_singleton] at hm
      subst hm
      cases hs with
      | popEmpty hpc he =>
        have hok := hix.cons
        rw [hpc] at hcalls hok
        cases hok
        have hempty := (count_eq_zero hix.tail).2 he
        rw [hc] at hcalls
        simp only [PopPc.pending] at hcalls
        omega

end

/-- The pushes that return in the run succeed, but for an element's assignment that throws. -/
def PushesSucceed (ls : List (Seen T)) : Prop :=
  ∀ r, .ring (.pushRet r) ∈ ls →
    r = .pushed ∨ r = .threw ∧ ∃ item, .ring (.pushAssign item true) ∈ ls

/-- The pops that return in the run succeed, but for an element's assignment that throws. -/
def PopsSucceed (ls : List (Seen T)) : Prop :=
  ∀ r, .ring (.popRet r) ∈ ls → (∃ x, r = .popped x) ∨ r = .threw ∧ .ring (.popRead true) ∈ ls

/-- The number of calls of `push` in a run. -/
def pushCalls (ls : List (Seen T)) : Nat := (ls.flatMap Seen.toRing).countP Label.isPush

/-- The number of calls of `pop` in a run. -/
def popCalls (ls : List (Seen T)) : Nat := (ls.flatMap Seen.toRing).countP Label.isPop

/-- The elements the pops of a run return, in order. -/
def popped (ls : List (Seen T)) : List T := (ls.flatMap Seen.toRing).filterMap Label.returned

theorem mem_toRing {ls : List (Seen T)} {l : Label T} :
    l ∈ ls.flatMap Seen.toRing ↔ .ring l ∈ ls := by
  rw [List.mem_flatMap]
  constructor
  · rintro ⟨e, he, hl⟩
    cases e with
    | ring l' => rw [List.mem_singleton.1 hl]; exact he
    | _ => cases hl
  · exact fun h => ⟨_, h, List.mem_singleton_self _⟩

/-- The state in which a query returns. -/
theorem ret_state {s s' : Observed T} {c : Caller} {q : Query} {a : Answer}
    (hs : SeenStep Capacity s (.ret c q a) s') : s.query c = .done q a ∧ s'.ring = s.ring := by
  cases hs with
  | ret h => exact ⟨h, rfl⟩

section
variable (hC : Capacity + 1 < 2 ^ 64) {s s' : Observed T} {ks ls : List (Seen T)} {n : Nat}
include hC

theorem pushes_succeed (h : Exec (observed T Capacity) ks s) (hp : s.ring.prod = .idle)
    (hn : count Capacity s.ring.head s.ring.tail ≤ n) (hr : Run (observed T Capacity) s ls s')
    (hls : pushCalls ls ≤ Capacity - n) : PushesSucceed ls := by
  have hrun := observed_run hr
  have hfull := run_pushes hC hrun (observed_inv hC h) hp hn hls
  intro r hm
  have := pushRet_cases hrun hp hfull r (.inr (mem_toRing.2 hm))
  simpa only [mem_toRing] using this

theorem pops_succeed (h : Exec (observed T Capacity) ks s) (hc : s.ring.cons = .idle)
    (hn : n ≤ count Capacity s.ring.head s.ring.tail) (hr : Run (observed T Capacity) s ls s')
    (hls : popCalls ls ≤ n) :
    PopsSucceed ls ∧ popped ls <+: (contents Capacity s.ring).take n := by
  have hrun := observed_run hr
  have hempty := run_pops hC hrun (observed_inv hC h) hc hn hls
  refine ⟨?_, ?_⟩
  · intro r hm
    have := popRet_cases hrun hc hempty r (.inr (mem_toRing.2 hm))
    simpa only [mem_toRing] using this
  · -- returned elements are taken ones, and these are the first of the queue
    have hret := run_returned hrun
    have hcont := run_contents hC (observed_ring h) hrun
    have htakes := takes_le_pops hrun
    rw [hc] at hret htakes
    have hlen : (Fifo.delivered (effects (ls.flatMap Seen.toRing))).length ≤ n := by
      rw [delivered_length]
      simp only [PopPc.pending] at htakes
      unfold popCalls at hls
      omega
    have hpre : Fifo.delivered (effects (ls.flatMap Seen.toRing)) <+: contents Capacity s.ring :=
      List.prefix_of_prefix_length_le ⟨_, hcont.symm⟩ ⟨_, rfl⟩
        (hlen.trans (hn.trans_eq (contents_length _).symm))
    have hsub : popped ls <+: Fifo.delivered (effects (ls.flatMap Seen.toRing)) := ⟨_, hret⟩
    exact List.prefix_take_iff.2 ⟨hsub.trans hpre, hsub.length_le.trans hlen⟩

/-- **Queries of an endpoint are promises.** When `size` of the producer returns `n`, then
`n ≤ Capacity` and its next `Capacity - n` pushes succeed, whatever the other threads do; when
its `is_full` returns `false`, the next one does. When `size` of the consumer returns `n`, its
next `n` pops succeed and return the `n` oldest elements in order; when its `is_empty` returns
`false`, the next one succeeds. And no call is ever stuck. -/
theorem endpoint_promises (h : Exec (observed T Capacity) ks s) :
    (∀ n t, SeenStep Capacity s (.ret .producer .size (.number n)) t → n ≤ Capacity ∧
      ∀ ls t', Run (observed T Capacity) t ls t' → pushCalls ls ≤ Capacity - n →
        PushesSucceed ls) ∧
    (∀ t, SeenStep Capacity s (.ret .producer .isFull (.flag false)) t →
      ∀ ls t', Run (observed T Capacity) t ls t' → pushCalls ls ≤ 1 → PushesSucceed ls) ∧
    (∀ n t, SeenStep Capacity s (.ret .consumer .size (.number n)) t →
      n ≤ (contents Capacity t.ring).length ∧
      ∀ ls t', Run (observed T Capacity) t ls t' → popCalls ls ≤ n →
        PopsSucceed ls ∧ popped ls <+: (contents Capacity t.ring).take n) ∧
    (∀ t, SeenStep Capacity s (.ret .consumer .isEmpty (.flag false)) t →
      ∀ ls t', Run (observed T Capacity) t ls t' → popCalls ls ≤ 1 → PopsSucceed ls) ∧
    CallsAdvance Capacity s := by
  have hi := observed_promised hC h
  have hprod := hi.producer
  have hcons := hi.consumer
  refine ⟨fun n t hs => ?_, fun t hs => ?_, fun n t hs => ?_, fun t hs => ?_, calls_advance s⟩
  all_goals
    obtain ⟨hq, ht⟩ := ret_state hs
    have hex := h.snoc hs
    have hb := hi.between _ (by rw [hq]; nofun)
  · rw [hq] at hprod
    obtain ⟨m, rfl, hle, hm⟩ := hprod
    exact ⟨hm, fun ls t' hr => pushes_succeed hC hex (ht ▸ hb) (ht ▸ hle) hr⟩
  · rw [hq] at hprod
    obtain ⟨m, ha, hle, hm⟩ := hprod
    have hne : m ≠ Capacity := fun he => nomatch ha.2 he
    exact fun ls t' hr hls => pushes_succeed hC hex (ht ▸ hb) (ht ▸ hle) hr (by omega)
  · rw [hq] at hcons
    obtain ⟨m, rfl, hle⟩ := hcons
    rw [← ht] at hle
    exact ⟨hle.trans_eq (contents_length _).symm,
      fun ls t' hr => pops_succeed hC hex (ht ▸ hb) hle hr⟩
  · rw [hq] at hcons
    obtain ⟨m, ha, hle⟩ := hcons
    have hne : m ≠ 0 := fun he => nomatch ha.2 he
    rw [← ht] at hle
    exact fun ls t' hr hls =>
      (pops_succeed hC hex (ht ▸ hb) hle hr (hls.trans (Nat.pos_of_ne_zero hne))).1

end

/-- A producer that finds one of two places taken, and can fill the other one. -/
theorem endpoint_promises_one : ∃ (ks : List (Seen Nat)) (s t : Observed Nat),
    Exec (observed Nat 2) ks s ∧ SeenStep 2 s (.ret .producer .size (.number 1)) t ∧ 1 ≤ 2 ∧
      ∀ ls t', Run (observed Nat 2) t ls t' → pushCalls ls ≤ 2 - 1 → PushesSucceed ls := by
  have h0 : Exec (observed Nat 2) [] ⟨⟨0, 0, fun _ => 0, .idle, .idle⟩, fun _ => .idle⟩ :=
    .init ⟨⟨rfl, rfl, rfl, rfl⟩, fun _ => rfl⟩
  have h3 := ((h0.snoc (.ring (@Step.push _ _ _ 7 rfl) fun _ _ => rfl)).snoc
    (.ring (.pushLoadHead rfl) nofun)).snoc (.ring (.pushLoadTail rfl (by decide)) nofun)
  have h6 := ((h3.snoc (.ring (.pushAssign rfl) nofun)).snoc (.ring (.pushStore rfl) nofun)).snoc
    (.ring (.pushRet rfl) nofun)
  have h9 := ((h6.snoc (@SeenStep.query _ _ _ .producer .size rfl rfl)).snoc
    (.headFirst (c := .producer) rfl)).snoc (.tailLast (c := .producer) rfl)
  exact ⟨_, _, _, h9, .ret rfl, (endpoint_promises (by decide) h9).1 1 _ (.ret rfl)⟩

end Spsc
