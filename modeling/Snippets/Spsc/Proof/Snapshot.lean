import Snippets.Spsc.Proof.Indices

/-!
# What a third thread learns from a query

Between the two loads of a query the other threads may do any number of steps, so the two indices
need not belong to one state: `size` can report a number of elements the queue never held, and
`is_empty` and `is_full` can be true of no state (`untrue_answers`). What is left
(`snapshot`): an answer `false` is right at some moment between the loads, every answer is when no
push or no pop stores its index in between, and `size` stays in `[0, Capacity]`, off by the
pops that came in between, modulo `Capacity + 1`.
-/

namespace Spsc

open Lts

variable {T : Type*} {Capacity : Nat}

/-- The thread `c` loads the first index of the query `q` in `s` and the second one in `s'`, and
answers `a`; the run in between has the labels `ls` and the states `xs`. -/
inductive Reads (Capacity : Nat) (c : Caller) (q : Query) (a : Answer) :
    Observed T → List (Seen T) → List (Observed T) → Observed T → Prop
  | mk {s t s' t' : Observed T} {ls : List (Seen T)} {xs : List (Observed T)} :
      SeenStep Capacity s (.first c q) t → Visits (observed T Capacity) t ls xs s' →
      (∀ q' a', .last c q' a' ∉ ls) → SeenStep Capacity s' (.last c q a) t' →
      Reads Capacity c q a s ls xs s'

/-- The number of elements in the queue. -/
def Observed.elements (Capacity : Nat) (s : Observed T) : Nat := (contents Capacity s.ring).length

theorem elements_eq (s : Observed T) :
    s.elements Capacity = count Capacity s.ring.head s.ring.tail := contents_length _

/-- The pushes accepted in a run. -/
def accepts (ls : List (Seen T)) : Nat := (ls.flatMap Seen.toRing).countP Label.accepts

/-- The pops that took an element in a run. -/
def takes (ls : List (Seen T)) : Nat := (ls.flatMap Seen.toRing).countP Label.takes

/-! ## The values loaded -/

theorem query_kept {s s' : Observed T} {ls : List (Seen T)} {c : Caller} {pc : QueryPc}
    (hpc : (∃ q h, pc = .loadTail q h) ∨ ∃ q t, pc = .loadHead q t)
    (h : Run (observed T Capacity) s ls s') (hs : s.query c = pc)
    (hlast : ∀ q a, .last c q a ∉ ls) : s'.query c = pc := by
  induction h with
  | nil => exact hs
  | @snoc x x' ls l hr hstep ih =>
    have hx := ih fun q a hm => hlast q a (List.mem_append_left _ hm)
    have hne : ∀ q a, l ≠ .last c q a := fun q a he => hlast q a (by simp [he])
    -- the query of another thread moves
    have hother : ∀ (d : Caller) (pc' : QueryPc), x.query d ≠ pc →
        Function.update x.query d pc' c = pc := by
      intro d pc' hd
      have hcd : c ≠ d := fun he => hd (he ▸ hx)
      rw [Function.update_of_ne hcd, hx]
    have hpc' : pc ≠ .idle ∧ (∀ q, pc ≠ .start q) ∧ ∀ q a, pc ≠ .done q a := by
      rcases hpc with ⟨_, _, rfl⟩ | ⟨_, _, rfl⟩ <;> exact ⟨nofun, nofun, nofun⟩
    cases hstep with
    | ring _ _ => exact hx
    | query _ hq => exact hother _ _ (by rw [hq]; exact hpc'.1.symm)
    | headFirst hq => exact hother _ _ (by rw [hq]; exact (hpc'.2.1 _).symm)
    | tailFirst hq _ => exact hother _ _ (by rw [hq]; exact (hpc'.2.1 _).symm)
    | ret hq => exact hother _ _ (by rw [hq]; exact (hpc'.2.2 _ _).symm)
    | @tailLast d q h hq =>
      have hcd : c ≠ d := fun he => hne q _ (by rw [he])
      show Function.update x.query d _ c = pc
      rw [Function.update_of_ne hcd, hx]
    | @headLast d q t hq =>
      have hcd : c ≠ d := fun he => hne q _ (by rw [he])
      show Function.update x.query d _ c = pc
      rw [Function.update_of_ne hcd, hx]

/-- What the answer of a query is computed from: `head_` of the state of the first load and
`tail_` of the state of the second, or the other way round. -/
theorem Reads.answer_eq {s s' : Observed T} {ls : List (Seen T)} {xs : List (Observed T)}
    {c : Caller} {q : Query} {a : Answer} (h : Reads Capacity c q a s ls xs s') :
    ∃ t, Visits (observed T Capacity) t ls xs s' ∧ t.ring = s.ring ∧
      (a = answer Capacity q s.ring.head s'.ring.tail ∨
        q ≠ .size ∧ a = answer Capacity q s'.ring.head s.ring.tail) := by
  obtain ⟨h1, hv, hlast, h2⟩ := h
  cases h1 with
  | headFirst _ =>
    have hk := query_kept (.inl ⟨q, s.ring.head, rfl⟩) hv.run (Function.update_self c _ _) hlast
    refine ⟨_, hv, rfl, .inl ?_⟩
    cases h2 with
    | tailLast hq => rw [hk] at hq; cases hq; rfl
    | headLast hq => rw [hk] at hq; cases hq
  | tailFirst _ hne =>
    have hk := query_kept (.inr ⟨q, s.ring.tail, rfl⟩) hv.run (Function.update_self c _ _) hlast
    refine ⟨_, hv, rfl, .inr ⟨hne, ?_⟩⟩
    cases h2 with
    | tailLast hq => rw [hk] at hq; cases hq
    | headLast hq => rw [hk] at hq; cases hq; rfl

/-! ## Moments of the query -/

section
variable (hC : Capacity + 1 < 2 ^ 64) {s s' : Observed T} {ls : List (Seen T)}
  {xs : List (Observed T)}
include hC

theorem visits_inv (h : Visits (observed T Capacity) s ls xs s') (hi : Inv Capacity s.ring) :
    ∀ x ∈ xs, Inv Capacity x.ring :=
  h.invariant (I := fun x => Inv Capacity x.ring)
    (fun _ _ _ hi hs => run_inv hC (seen_run hs) hi) hi

/-- Every step of the queue in the run is between two of its states. -/
theorem exists_moves (h : Visits (observed T Capacity) s ls xs s') (hi : Inv Capacity s.ring)
    {l : Label T} (hl : l ∈ ls.flatMap Seen.toRing) :
    ∃ x ∈ xs, ∃ x' ∈ xs, Inv Capacity x.ring ∧ Moves Capacity x.ring l x'.ring ∧
      x'.elements Capacity + (if l.takes then 1 else 0) =
        x.elements Capacity + if l.accepts then 1 else 0 := by
  obtain ⟨e, he, hle⟩ := List.mem_flatMap.1 hl
  obtain ⟨x, hx, x', hx', hs⟩ := h.exists_step he
  have hix := visits_inv hC h hi x hx
  have hn := (run_indices hC (seen_run hs) hix).2.2
  cases hs with
  | ring hstep _ =>
    obtain rfl := List.mem_singleton.1 hle
    refine ⟨x, hx, _, hx', hix, hstep.indices hix, ?_⟩
    rw [elements_eq, elements_eq]
    simpa only [Seen.toRing, List.countP_singleton] using hn
  | _ => cases hle

/-- If a push is accepted in the run, the queue is not empty in one of its states. -/
theorem exists_nonempty (h : Visits (observed T Capacity) s ls xs s') (hi : Inv Capacity s.ring)
    (ha : accepts ls ≠ 0) : ∃ x ∈ xs, x.elements Capacity ≠ 0 := by
  obtain ⟨l, hl, hacc⟩ := List.countP_pos_iff.1 (Nat.pos_of_ne_zero ha)
  obtain ⟨x, hx, x', hx', -, hmoves, hn⟩ := exists_moves hC h hi hl
  refine ⟨x', hx', ?_⟩
  cases hmoves with
  | push h1 h2 _ _ _ _ =>
    rw [h1, h2, if_pos rfl, if_neg Bool.false_ne_true] at hn
    omega
  | pop _ h2 _ _ _ _ => rw [h2] at hacc; cases hacc
  | none h1 _ _ _ => rw [h1] at hacc; cases hacc

/-- If an element is taken in the run, the queue is not full in one of its states. -/
theorem exists_room (h : Visits (observed T Capacity) s ls xs s') (hi : Inv Capacity s.ring)
    (ht : takes ls ≠ 0) : ∃ x ∈ xs, x.elements Capacity ≠ Capacity := by
  obtain ⟨l, hl, htake⟩ := List.countP_pos_iff.1 (Nat.pos_of_ne_zero ht)
  obtain ⟨x, hx, x', hx', hix, hmoves, hn⟩ := exists_moves hC h hi hl
  refine ⟨x', hx', ?_⟩
  cases hmoves with
  | push _ h2 _ _ _ _ => rw [h2] at htake; cases htake
  | pop h1 h2 _ _ _ _ =>
    rw [h1, h2, if_pos rfl, if_neg Bool.false_ne_true] at hn
    have hle : count Capacity x.ring.head x.ring.tail ≤ Capacity := count_le hix.head
    rw [← elements_eq] at hle
    omega
  | none _ h2 _ _ => rw [h2] at htake; cases htake

/-- While one of the indices stays, the answer is that of a state of the run. -/
theorem Reads.exists_trueOf {c : Caller} {q : Query} {a : Answer} (hi : Inv Capacity s.ring)
    (h : Reads Capacity c q a s ls xs s') (hn : accepts ls = 0 ∨ takes ls = 0) :
    ∃ x ∈ xs, a.TrueOf Capacity q (x.elements Capacity) := by
  obtain ⟨t, hv, ht, ha⟩ := h.answer_eq
  rw [← ht] at hi ha
  have hi' := visits_inv hC hv hi _ hv.last_mem
  obtain ⟨hhead, htail, -⟩ := run_indices hC (observed_run hv.run) hi
  have hstay : s'.ring.head = t.ring.head ∨ s'.ring.tail = t.ring.tail := by
    rcases hn with hn | hn
    · unfold accepts at hn
      rw [hn, Nat.add_zero, Nat.mod_eq_of_lt (Nat.lt_succ_of_le hi.head)] at hhead
      exact .inl hhead
    · unfold takes at hn
      rw [hn, Nat.add_zero, Nat.mod_eq_of_lt (Nat.lt_succ_of_le hi.tail)] at htail
      exact .inr htail
  have hfirst := answer_trueOf hC hi.head hi.tail q
  have hlast := answer_trueOf hC hi'.head hi'.tail q
  rw [← elements_eq] at hfirst hlast
  rcases ha with rfl | ⟨-, rfl⟩
  · rcases hstay with he | he
    · exact ⟨s', hv.last_mem, by rwa [he] at hlast⟩
    · exact ⟨t, hv.first_mem, by rwa [he]⟩
  · rcases hstay with he | he
    · exact ⟨t, hv.first_mem, by rwa [he]⟩
    · exact ⟨s', hv.last_mem, by rwa [he] at hlast⟩

/-- An answer `false` is right in a state of the run. -/
theorem Reads.false_trueOf {c : Caller} {q : Query} (hi : Inv Capacity s.ring)
    (h : Reads Capacity c q (.flag false) s ls xs s') :
    ∃ x ∈ xs, (Answer.flag false).TrueOf Capacity q (x.elements Capacity) := by
  obtain ⟨t, hv, ht, ha⟩ := h.answer_eq
  have hit : Inv Capacity t.ring := ht ▸ hi
  cases q with
  | size => rcases ha with ha | ⟨-, ha⟩ <;> cases ha
  | isFull =>
    by_cases hn : takes ls = 0
    · exact h.exists_trueOf hC hi (.inr hn)
    · obtain ⟨x, hx, hne⟩ := exists_room hC hv hit hn
      exact ⟨x, hx, iff_of_false nofun hne⟩
  | isEmpty =>
    by_cases hn : accepts ls = 0
    · exact h.exists_trueOf hC hi (.inl hn)
    · obtain ⟨x, hx, hne⟩ := exists_nonempty hC hv hit hn
      exact ⟨x, hx, iff_of_false nofun hne⟩

/-- What `size` returns, and how far it is off. -/
theorem Reads.size_bounds {c : Caller} {q : Query} {n : Nat} (hi : Inv Capacity s.ring)
    (h : Reads Capacity c q (.number n) s ls xs s') :
    n ≤ Capacity ∧ n + takes ls ≡ s.elements Capacity [MOD Capacity + 1] := by
  obtain ⟨t, hv, ht, ha⟩ := h.answer_eq
  have hit : Inv Capacity t.ring := ht ▸ hi
  have hi' := visits_inv hC hv hit _ hv.last_mem
  obtain ⟨-, htail, -⟩ := run_indices hC (observed_run hv.run) hit
  rw [ht] at htail
  have hn : n = count Capacity s.ring.head s'.ring.tail := by
    rcases ha with ha | ⟨hne, ha⟩
    · cases q with
      | size =>
        cases ha
        exact size_eq_count hC hi.head hi'.tail
      | isFull => cases ha
      | isEmpty => cases ha
    · cases q with
      | size => exact absurd rfl hne
      | isFull => cases ha
      | isEmpty => cases ha
  refine ⟨hn ▸ count_le hi.head, ?_⟩
  -- both sides lead from `tail_` to `head_` of the first load
  have h1 : (_ + count Capacity _ _) % _ = _ := head_slot hi.head hi'.tail
  have h2 : (_ + count Capacity _ _) % _ = _ := head_slot hi.head hi.tail
  rw [← hn, htail, Nat.mod_add_mod] at h1
  rw [← elements_eq] at h2
  refine Nat.ModEq.add_left_cancel' s.ring.tail ?_
  unfold Nat.ModEq takes
  rw [h2, ← h1]
  congr 1
  omega

/-- **What an answer to any thread is worth**: in every reachable state and for every run of the
other threads between the two loads of a query, an answer `false` is right in one of the states
of that run; any answer is if no push or no pop stores its index in it; and `size` returns at
most `Capacity`, namely the number of elements at its first load less the elements taken
since, modulo `Capacity + 1`. -/
theorem snapshot {ks : List (Seen T)} (h : Exec (observed T Capacity) ks s) {c : Caller}
    {q : Query} {a : Answer} (hr : Reads Capacity c q a s ls xs s') :
    (a = .flag false → ∃ x ∈ xs, a.TrueOf Capacity q (x.elements Capacity)) ∧
      (accepts ls = 0 ∨ takes ls = 0 → ∃ x ∈ xs, a.TrueOf Capacity q (x.elements Capacity)) ∧
      ∀ n, a = .number n →
        n ≤ Capacity ∧ n + takes ls ≡ s.elements Capacity [MOD Capacity + 1] := by
  have hi := observed_inv hC h
  refine ⟨?_, hr.exists_trueOf hC hi, ?_⟩
  · rintro rfl
    exact hr.false_trueOf hC hi
  · rintro n rfl
    exact hr.size_bounds hC hi

end

/-! ## Answers that are true of no state -/

/-- A run that ends no query and stays in states that satisfy `P`. -/
def Quiet (Capacity : Nat) (P : Observed T → Prop) (s s' : Observed T) : Prop :=
  ∃ ls xs, Visits (observed T Capacity) s ls xs s' ∧ (∀ c q a, Seen.last c q a ∉ ls) ∧
    ∀ x ∈ xs, P x

theorem Quiet.trans {P : Observed T → Prop} {s s' s'' : Observed T} (h : Quiet Capacity P s s')
    (h' : Quiet Capacity P s' s'') : Quiet Capacity P s s'' := by
  obtain ⟨ls, xs, hv, hl, hP⟩ := h
  obtain ⟨ls', ys, hv', hl', hP'⟩ := h'
  obtain ⟨zs, hz, hmem⟩ := hv.append hv'
  refine ⟨ls ++ ls', zs, hz, ?_, fun x hx => (hmem x hx).elim (hP x) (hP' x)⟩
  intro c q a hm
  exact (List.mem_append.1 hm).elim (hl c q a) (hl' c q a)

section
variable (P : Observed T → Prop) (h t : Nat) (buf : Nat → T) {query : Caller → QueryPc}

theorem caller_idle {c₀ : Caller} {l₀ : Label T} (hcaller : l₀.caller = some c₀)
    (hq : query c₀ = .idle) (l : Label T) (hl : l = l₀ ∨ l.caller = none) :
    ∀ c, l.caller = some c → query c = .idle := by
  intro c hc
  rcases hl with rfl | hl
  · rw [hcaller] at hc
    obtain rfl := Option.some.inj hc
    exact hq
  · rw [hl] at hc
    cases hc

/-- A whole push, the consumer standing still. -/
theorem quiet_push (item : T) (hq : query .producer = .idle) (hroom : nextIndex Capacity h ≠ t)
    (hP : ∀ b p, P ⟨⟨h, t, b, p, .idle⟩, query⟩)
    (hP' : ∀ b p, P ⟨⟨nextIndex Capacity h, t, b, p, .idle⟩, query⟩) :
    Quiet Capacity P ⟨⟨h, t, buf, .idle, .idle⟩, query⟩
      ⟨⟨nextIndex Capacity h, t, Function.update buf h item, .idle, .idle⟩, query⟩ := by
  have free := caller_idle (show (Label.push item).caller = some .producer from rfl) hq
  have h0 : Visits (observed T Capacity) ⟨⟨h, t, buf, .idle, .idle⟩, query⟩ [] _ _ := .nil _
  have h3 := ((h0.snoc (.ring (.push rfl) (free _ (.inl rfl)))).snoc
    (.ring (.pushLoadHead rfl) (free _ (.inr rfl)))).snoc
    (.ring (.pushLoadTail rfl hroom) (free _ (.inr rfl)))
  have h6 := ((h3.snoc (.ring (.pushAssign rfl) (free _ (.inr rfl)))).snoc
    (.ring (.pushStore rfl) (free _ (.inr rfl)))).snoc (.ring (.pushRet rfl) (free _ (.inr rfl)))
  exact ⟨_, _, h6, by simp, by simp [hP, hP']⟩

/-- A whole pop, the producer standing still. -/
theorem quiet_pop (hq : query .consumer = .idle) (hsome : t ≠ h)
    (hP : ∀ p, P ⟨⟨h, t, buf, .idle, p⟩, query⟩)
    (hP' : ∀ p, P ⟨⟨h, nextIndex Capacity t, buf, .idle, p⟩, query⟩) :
    Quiet Capacity P ⟨⟨h, t, buf, .idle, .idle⟩, query⟩
      ⟨⟨h, nextIndex Capacity t, buf, .idle, .idle⟩, query⟩ := by
  have free := caller_idle (show (Label.pop (T := T)).caller = some .consumer from rfl) hq
  have h0 : Visits (observed T Capacity) ⟨⟨h, t, buf, .idle, .idle⟩, query⟩ [] _ _ := .nil _
  have h3 := ((h0.snoc (.ring (.pop rfl) (free _ (.inl rfl)))).snoc
    (.ring (.popLoadTail rfl) (free _ (.inr rfl)))).snoc
    (.ring (.popLoadHead rfl hsome) (free _ (.inr rfl)))
  have h6 := ((h3.snoc (.ring (.popRead rfl) (free _ (.inr rfl)))).snoc
    (.ring (.popStore rfl) (free _ (.inr rfl)))).snoc (.ring (.popRet rfl) (free _ (.inr rfl)))
  exact ⟨_, _, h6, by simp, by simp [hP, hP']⟩

end

/-- Only the third thread is in a query. -/
def third (pc : QueryPc) : Caller → QueryPc := Function.update (fun _ => .idle) .third pc

@[simp] theorem third_third (pc : QueryPc) : third pc .third = pc := Function.update_self ..

theorem third_of_ne {c : Caller} (hc : c ≠ .third) (pc : QueryPc) : third pc c = .idle :=
  Function.update_of_ne hc ..

@[simp] theorem update_third (pc pc' : QueryPc) :
    Function.update (third pc) .third pc' = third pc' := Function.update_idem ..

/-- The buffer of the runs below: room for two elements, one in it, a third thread in a query. -/
def oneElement (pc : QueryPc) : Observed Nat :=
  ⟨⟨1, 0, Function.update (fun _ => 0) 0 7, .idle, .idle⟩, third pc⟩

theorem oneElement_exec (q : Query) : ∃ ks, Exec (observed Nat 2) ks (oneElement (.start q)) := by
  have h0 : Exec (observed Nat 2) [] ⟨⟨0, 0, fun _ => 0, .idle, .idle⟩, fun _ => .idle⟩ :=
    .init ⟨⟨rfl, rfl, rfl, rfl⟩, fun _ => rfl⟩
  have hquiet : Quiet 2 _ ⟨_, fun _ => .idle⟩ _ := quiet_push (fun _ => True) 0 0 (fun _ => 0) 7
    rfl (by decide) (fun _ _ => trivial) fun _ _ => trivial
  obtain ⟨ls, xs, hv, -⟩ := hquiet
  exact ⟨_, (h0.append hv.run).snoc (.query (c := .third) trivial rfl)⟩

/-- The third thread loads `head_`, other threads run, it loads `tail_`. -/
theorem reads_of_quiet {q : Query} {P : Observed Nat → Prop} {h t : Nat} {b : Nat → Nat}
    (hv : Quiet 2 P (oneElement (.loadTail q 1)) ⟨⟨h, t, b, .idle, .idle⟩, third (.loadTail q 1)⟩) :
    ∃ ls xs s', Reads 2 .third q (answer 2 q 1 t) (oneElement (.start q)) ls xs s' ∧
      ∀ x ∈ xs, P x := by
  obtain ⟨ls, xs, hv, hlast, hxs⟩ := hv
  have h1 : SeenStep 2 (oneElement (.start q)) (.first .third q) (oneElement (.loadTail q 1)) := by
    have : SeenStep 2 _ _ _ := .headFirst (s := oneElement (.start q)) (c := .third)
      (third_third (.start q))
    rwa [show (oneElement (.start q)).query = third (.start q) from rfl, update_third] at this
  exact ⟨ls, xs, _, .mk h1 hv (hlast _) (.tailLast (third_third _)), hxs⟩

/-- A push and a pop between the two loads of a query: the indices loaded are equal, but the
queue was at no moment empty. -/
theorem crossed_answer (q : Query) : ∃ ls xs s', Reads 2 .third q (answer 2 q 1 1)
    (oneElement (.start q)) ls xs s' ∧ ∀ x ∈ xs, x.elements 2 ≠ 0 := by
  have hq := third_of_ne (c := .producer) nofun (.loadTail q 1)
  have hq' := third_of_ne (c := .consumer) nofun (.loadTail q 1)
  have hpush : Quiet 2 _ (oneElement _) _ := quiet_push (fun x => x.elements 2 ≠ 0) 1 0 _ 8 hq
    (by decide) (fun _ _ => by simp [elements_eq, count])
    fun _ _ => by simp [elements_eq, count, nextIndex]
  exact reads_of_quiet (hpush.trans (quiet_pop _ _ _ _ hq' (by decide)
    (fun _ => by simp [elements_eq, count, nextIndex])
    fun _ => by simp [elements_eq, count, nextIndex]))

/-- A pop, a push and a pop between the two loads: the indices loaded are those of a full buffer,
but the queue never held more than one element. -/
theorem lapped_answer (q : Query) : ∃ ls xs s', Reads 2 .third q (answer 2 q 1 2)
    (oneElement (.start q)) ls xs s' ∧ ∀ x ∈ xs, x.elements 2 < 2 := by
  have hq := third_of_ne (c := .producer) nofun (.loadTail q 1)
  have hq' := third_of_ne (c := .consumer) nofun (.loadTail q 1)
  have hpop : Quiet 2 _ (oneElement _) _ := quiet_pop (fun x => x.elements 2 < 2) 1 0 _ hq'
    (by decide) (fun _ => by simp [elements_eq, count])
    fun _ => by simp [elements_eq, count, nextIndex]
  have hpush : Quiet 2 _ _ _ := quiet_push (fun x => x.elements 2 < 2) 1 1
    (Function.update (fun _ => 0) 0 7) 8 hq (by decide)
    (fun _ _ => by simp [elements_eq, count]) fun _ _ => by simp [elements_eq, count, nextIndex]
  exact reads_of_quiet ((hpop.trans hpush).trans (quiet_pop _ _ _ _ hq' (by decide)
    (fun _ => by simp [elements_eq, count, nextIndex])
    fun _ => by simp [elements_eq, count, nextIndex]))

/-- `size` answers 2 on a buffer that never holds more than one element; it is off by the two
elements taken between its loads, modulo 3. -/
theorem snapshot_lapped : ∃ ls xs s', Reads 2 .third .size (.number 2) (oneElement (.start .size))
    ls xs s' ∧ (∀ x ∈ xs, x.elements 2 < 2) ∧ 2 ≤ 2 ∧ 2 + takes ls ≡ 1 [MOD 3] := by
  obtain ⟨ks, hs⟩ := oneElement_exec .size
  obtain ⟨ls, xs, s', hr, hx⟩ := lapped_answer .size
  exact ⟨ls, xs, s', hr, hx, (snapshot (by decide) hs hr).2.2 2 rfl⟩

/-- Each of the three queries can be answered with what was true at no moment between its loads:
`size` with 2 and `is_full` with `true` on a buffer that never holds two elements, `is_empty`
with `true` on one that is never empty. -/
theorem untrue_answers :
    (∃ ks s ls xs s', Exec (observed Nat 2) ks s ∧
      Reads 2 .third .size (.number 2) s ls xs s' ∧ ∀ x ∈ xs, x.elements 2 ≠ 2) ∧
    (∃ ks s ls xs s', Exec (observed Nat 2) ks s ∧
      Reads 2 .third .isFull (.flag true) s ls xs s' ∧ ∀ x ∈ xs, x.elements 2 ≠ 2) ∧
    ∃ ks s ls xs s', Exec (observed Nat 2) ks s ∧
      Reads 2 .third .isEmpty (.flag true) s ls xs s' ∧ ∀ x ∈ xs, x.elements 2 ≠ 0 := by
  refine ⟨?_, ?_, ?_⟩
  · obtain ⟨ks, hs⟩ := oneElement_exec .size
    obtain ⟨ls, xs, s', hr, hx⟩ := lapped_answer .size
    exact ⟨ks, _, ls, xs, s', hs, hr, fun x hm => (hx x hm).ne⟩
  · obtain ⟨ks, hs⟩ := oneElement_exec .isFull
    obtain ⟨ls, xs, s', hr, hx⟩ := lapped_answer .isFull
    exact ⟨ks, _, ls, xs, s', hs, hr, fun x hm => (hx x hm).ne⟩
  · obtain ⟨ks, hs⟩ := oneElement_exec .isEmpty
    obtain ⟨ls, xs, s', hr, hx⟩ := crossed_answer .isEmpty
    exact ⟨ks, _, ls, xs, s', hs, hr, hx⟩

end Spsc
