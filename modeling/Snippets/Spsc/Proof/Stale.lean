import Snippets.Spsc.Proof.Linear
import Snippets.Spsc.Stale

/-!
# Outdated index reads are safe

With `acc` the accepted elements and `del` the popped ones, the producer's view of `tail_`, the
position of `tail_`, the consumer's view of `head_` and the position of `head_` are ordered,
and the last is at most `Capacity` past the first (`Inv.order`). Positions less than
`Capacity + 1` apart have different slots, so the slot the producer writes is none of those
the consumer still reads (`Inv.slot_ne`), each of these was written last by its own push, and a
store to `head_` that the consumer has seen makes that write visible (`Inv.readable`).
-/

namespace Spsc.Stale

open Lts

variable {T : Type*} {Capacity : Nat}

/-! ## The invariant -/

/-- The producer's locals, when `p` elements are accepted. -/
def PushPc.Ok (Capacity p seenTail : Nat) (slots : Nat → List T) : PushPc T → Prop
  | .idle | .loadHead _ | .done _ => True
  | .loadTail _ h n => h = p % (Capacity + 1) ∧ n = (p + 1) % (Capacity + 1)
  | .assign _ h n | .writing _ h n =>
      h = p % (Capacity + 1) ∧ n = (p + 1) % (Capacity + 1) ∧ p < seenTail + Capacity
  | .store item n => n = (p + 1) % (Capacity + 1) ∧ p < seenTail + Capacity ∧
      (slots (p % (Capacity + 1))).getLast? = some item

/-- The consumer's locals, when `q` elements of `acc` are popped. -/
def PopPc.Ok (Capacity q seenHead : Nat) (acc : List T) : PopPc T → Prop
  | .idle | .loadTail | .done _ => True
  | .loadHead t => t = q % (Capacity + 1)
  | .read t | .reading t => t = q % (Capacity + 1) ∧ q < seenHead
  | .store t elem => t = q % (Capacity + 1) ∧ q < seenHead ∧ acc[q]? = some elem

/-- The values that the indices have held are those of the elements accepted and delivered, what a
thread has read last is not older than the other one's progress allows, and the slots between hold
the elements due. -/
structure Inv (Capacity : Nat) (acc del : List T) (s : State T) : Prop where
  prefix_acc : del <+: acc
  heads_length : s.heads.length = acc.length + 1
  tails_length : s.tails.length = del.length + 1
  heads : ∀ (k : Nat) m, s.heads[k]? = some m → m.value = k % (Capacity + 1)
  tails : ∀ (k : Nat) t, s.tails[k]? = some t → t = k % (Capacity + 1)
  order : s.seenTail ≤ del.length ∧ del.length ≤ s.seenHead ∧ s.seenHead ≤ acc.length ∧
    acc.length ≤ s.seenTail + Capacity
  -- the slot of a push that is not popped yet holds its element, and has since its store
  slots : ∀ p, del.length ≤ p → p < acc.length →
    (s.slots (p % (Capacity + 1))).getLast? = acc[p]?
  views : ∀ (k : Nat) m p, s.heads[k]? = some m → del.length ≤ p → p < k →
    (s.slots (p % (Capacity + 1))).length ≤ m.view (p % (Capacity + 1))
  visible : ∀ p, del.length ≤ p → p < s.seenHead →
    (s.slots (p % (Capacity + 1))).length ≤ s.visible (p % (Capacity + 1))
  prod : s.prod.Ok Capacity acc.length s.seenTail s.slots
  cons : s.cons.Ok Capacity del.length s.seenHead acc

theorem Inv.init {s : State T} (h : (ring T Capacity).init s) : Inv Capacity [] [] s := by
  obtain ⟨hh, ht, -, hp, hc, hu, hv, -⟩ := h
  refine ⟨List.nil_prefix, by rw [hh]; rfl, by rw [ht]; rfl, ?_, ?_, by simp [hu, hv], ?_, ?_, ?_,
    ?_, ?_⟩
  · intro k m hm
    rw [hh, List.getElem?_singleton] at hm
    split at hm
    · cases hm; subst k; simp
    · cases hm
  · intro k t hk
    rw [ht, List.getElem?_singleton] at hk
    split at hk
    · cases hk; subst k; simp
    · cases hk
  · intro p _ hlt; simp at hlt
  · intro k m p hm _ hlt
    rw [hh, List.getElem?_singleton] at hm
    split at hm
    · omega
    · cases hm
  · intro p _ hlt; omega
  · rw [hp]; trivial
  · rw [hc]; trivial

section
variable {acc del : List T} {s : State T} (hi : Inv Capacity acc del s)
include hi

theorem Inv.last_head {m : Store} (h : s.heads.getLast? = some m) :
    m.value = acc.length % (Capacity + 1) := by
  rw [List.getLast?_eq_getElem?, hi.heads_length, Nat.add_sub_cancel] at h
  exact hi.heads _ _ h

theorem Inv.last_tail {t : Nat} (h : s.tails.getLast? = some t) :
    t = del.length % (Capacity + 1) := by
  rw [List.getLast?_eq_getElem?, hi.tails_length, Nat.add_sub_cancel] at h
  exact hi.tails _ _ h

theorem Inv.tails_lt {k t : Nat} (h : s.tails[k]? = some t) : k ≤ del.length := by
  have := (List.getElem?_eq_some_iff.1 h).1
  have := hi.tails_length
  omega

theorem Inv.heads_lt {k : Nat} {m : Store} (h : s.heads[k]? = some m) : k ≤ acc.length := by
  have := (List.getElem?_eq_some_iff.1 h).1
  have := hi.heads_length
  omega

/-- While the producer has seen room, the slot it writes is not one of an element that is not
popped yet. -/
theorem Inv.slot_ne (hroom : acc.length < s.seenTail + Capacity) {p : Nat} (hp : del.length ≤ p)
    (hlt : p < acc.length) : p % (Capacity + 1) ≠ acc.length % (Capacity + 1) := by
  have := hi.order
  exact Circular.mod_ne hlt (by omega)

/-- The producer and the consumer are at different slots. -/
theorem Inv.exclusive {i j : Nat} (hw : s.Writes i) (hr : s.Reads j) : j ≠ i := by
  have hp : i = acc.length % (Capacity + 1) ∧ acc.length < s.seenTail + Capacity := by
    have hok := hi.prod
    obtain ⟨item, n, h | h⟩ := hw
    · rw [h] at hok; exact ⟨hok.1, hok.2.2⟩
    · rw [h] at hok; exact ⟨hok.1, hok.2.2⟩
  have hc : j = del.length % (Capacity + 1) ∧ del.length < s.seenHead := by
    have hok := hi.cons
    rcases hr with h | h
    · rw [h] at hok; exact hok
    · rw [h] at hok; exact hok
  have := hi.order
  rw [hp.1, hc.1]
  exact hi.slot_ne hp.2 le_rfl (by omega)

/-- What the consumer can read is the element of the push it is due to deliver. -/
theorem Inv.readable {t : Nat} {x : T} (hc : s.cons = .reading t) (hx : s.Readable t x) :
    acc[del.length]? = some x := by
  have hok := hi.cons
  rw [hc] at hok
  obtain ⟨rfl, hlt⟩ := hok
  have hord := hi.order
  rcases hx with ⟨k, hk, hx⟩ | ⟨item, n, hp⟩
  · -- only the newest write to the slot is not overwritten
    have hvis := hi.visible _ le_rfl hlt
    have hbound := (List.getElem?_eq_some_iff.1 hx).1
    rw [← hi.slots _ le_rfl (by omega), List.getLast?_eq_getElem?, ← hx]
    congr 1
    omega
  · exact absurd rfl (hi.exclusive ⟨item, n, .inr hp⟩ (.inr hc))

end

/-! ## Steps -/

section
variable {acc del : List T} {s : State T} (hi : Inv Capacity acc del s)
include hi

theorem Inv.write {x : T} {pc : PushPc T} (hroom : acc.length < s.seenTail + Capacity)
    (hpc : pc.Ok Capacity acc.length s.seenTail (Function.update s.slots
      (acc.length % (Capacity + 1)) (s.slots (acc.length % (Capacity + 1)) ++ [x]))) :
    Inv Capacity acc del { s with
      slots := Function.update s.slots (acc.length % (Capacity + 1))
        (s.slots (acc.length % (Capacity + 1)) ++ [x]), prod := pc } := by
  have hord := hi.order
  have hkeep : ∀ p, del.length ≤ p → p < acc.length → Function.update s.slots
      (acc.length % (Capacity + 1)) (s.slots (acc.length % (Capacity + 1)) ++ [x])
        (p % (Capacity + 1)) = s.slots (p % (Capacity + 1)) :=
    fun p hp hlt => Function.update_of_ne (hi.slot_ne hroom hp hlt) _ _
  refine { hi with slots := ?_, views := ?_, visible := ?_, prod := hpc }
  · intro p hp hlt
    dsimp only
    rw [hkeep p hp hlt]
    exact hi.slots p hp hlt
  · intro k m p hm hp hlt
    have hk := hi.heads_lt hm
    dsimp only
    rw [hkeep p hp (by omega)]
    exact hi.views k m p hm hp hlt
  · intro p hp hlt
    dsimp only at hlt ⊢
    rw [hkeep p hp (by omega)]
    exact hi.visible p hp hlt

theorem Inv.accept {item : T} (hroom : acc.length < s.seenTail + Capacity)
    (hslot : (s.slots (acc.length % (Capacity + 1))).getLast? = some item) :
    Inv Capacity (acc ++ [item]) del { s with
      heads := s.heads ++ [⟨(acc.length + 1) % (Capacity + 1), fun i => (s.slots i).length⟩],
      prod := .done .pushed } := by
  have hord := hi.order
  refine { hi with
    prefix_acc := hi.prefix_acc.trans (List.prefix_append _ _), heads_length := ?_, heads := ?_,
    order := ?_, slots := ?_, views := ?_, prod := trivial, cons := ?_ }
  · simp [hi.heads_length]
  · intro k m hm
    rcases Nat.lt_or_ge k s.heads.length with hk | hk
    · rw [List.getElem?_append_left hk] at hm
      exact hi.heads k m hm
    · rw [List.getElem?_append_right hk, List.getElem?_singleton] at hm
      split at hm
      · have hl := hi.heads_length
        cases hm
        rw [show k = acc.length + 1 by omega]
      · cases hm
  · simp only [List.length_append, List.length_singleton]
    omega
  · intro p hp hlt
    simp only [List.length_append, List.length_singleton] at hlt
    rcases Nat.lt_or_ge p acc.length with hlt' | hge
    · rw [List.getElem?_append_left hlt']
      exact hi.slots p hp hlt'
    · obtain rfl : p = acc.length := by omega
      rw [List.getElem?_append_right le_rfl, Nat.sub_self]
      exact hslot
  · intro k m p hm hp hlt
    rcases Nat.lt_or_ge k s.heads.length with hk | hk
    · rw [List.getElem?_append_left hk] at hm
      exact hi.views k m p hm hp hlt
    · rw [List.getElem?_append_right hk, List.getElem?_singleton] at hm
      split at hm
      · cases hm; exact le_rfl
      · cases hm
  · have hc := hi.cons
    cases h : s.cons with
    | store t elem =>
      rw [h] at hc
      obtain ⟨ht, hlt, he⟩ := hc
      refine ⟨ht, hlt, ?_⟩
      rw [List.getElem?_append_left (by omega)]
      exact he
    | _ => rw [h] at hc; exact hc

/-- The consumer loads `head_` as it was after `k` stores. -/
theorem Inv.see {k : Nat} {m : Store} {pc : PopPc T} (hk : s.seenHead ≤ k)
    (hm : s.heads[k]? = some m) (hpc : pc.Ok Capacity del.length k acc) :
    Inv Capacity acc del { s with
      cons := pc, seenHead := k, visible := fun i => max (s.visible i) (m.view i) } := by
  have hord := hi.order
  have hle := hi.heads_lt hm
  refine { hi with
    order := ⟨hord.1, hord.2.1.trans hk, hle, hord.2.2.2⟩, visible := ?_, cons := hpc }
  intro p hp hlt
  exact (hi.views k m p hm hp hlt).trans (le_max_right _ _)

/-- The consumer stores the next index: it has taken the element. -/
theorem Inv.take {elem : T} (hlt : del.length < s.seenHead) (he : acc[del.length]? = some elem) :
    Inv Capacity acc (del ++ [elem]) { s with
      tails := s.tails ++ [(del.length + 1) % (Capacity + 1)],
      cons := .done (.popped elem) } := by
  have hord := hi.order
  refine { hi with
    prefix_acc := ?_, tails_length := ?_, tails := ?_, order := ?_, slots := ?_, views := ?_,
    visible := ?_, cons := trivial }
  · obtain ⟨rest, rfl⟩ := hi.prefix_acc
    cases rest with
    | nil => simp at he
    | cons y rest =>
      obtain rfl : y = elem := by simpa using he
      exact ⟨rest, by simp⟩
  · simp [hi.tails_length]
  · intro k t ht
    rcases Nat.lt_or_ge k s.tails.length with hk | hk
    · rw [List.getElem?_append_left hk] at ht
      exact hi.tails k t ht
    · rw [List.getElem?_append_right hk, List.getElem?_singleton] at ht
      split at ht
      · have hl := hi.tails_length
        cases ht
        rw [show k = del.length + 1 by omega]
      · cases ht
  all_goals simp only [List.length_append, List.length_singleton]
  · omega
  · exact fun p hp => hi.slots p (by omega)
  · exact fun k m p hm hp => hi.views k m p hm (by omega)
  · exact fun p hp => hi.visible p (by omega)

end

theorem Step.inv (hC : Capacity + 1 < 2 ^ 64) {acc del : List T} {s s' : State T} {l : Label T}
    (hi : Inv Capacity acc del s) (hs : Step Capacity s l s') :
    Inv Capacity (acc ++ accepted [l]) (del ++ popped [l]) s' := by
  have hp := hi.prod
  have hc := hi.cons
  have hord := hi.order
  have hnext : ∀ p, nextIndex Capacity (p % (Capacity + 1)) = (p + 1) % (Capacity + 1) := by
    intro p
    have hlt := Nat.mod_lt p (Nat.succ_pos Capacity)
    rw [nextIndex_eq_mod hC (Nat.lt_succ_iff.1 hlt), Nat.mod_add_mod]
  -- most steps accept and take nothing
  have hnone : Inv Capacity acc del s' → accepted [l] = [] → popped [l] = [] →
      Inv Capacity (acc ++ accepted [l]) (del ++ popped [l]) s' := by
    intro h ha hd
    rwa [ha, hd, List.append_nil, List.append_nil]
  cases hs with
  | push h => exact hnone { hi with prod := trivial } rfl rfl
  | pushLoadHead h hm =>
    refine hnone { hi with prod := ?_ } rfl rfl
    rw [hi.last_head hm]
    exact ⟨rfl, hnext _⟩
  | @pushLoadTail item i n k t h hk ht hne =>
    rw [h] at hp
    obtain ⟨rfl, rfl⟩ := hp
    have hle := hi.tails_lt ht
    -- the tail read is outdated, but not by a round: not full then, not full now
    have hroom : acc.length < k + Capacity := by
      rcases Nat.lt_or_ge acc.length (k + Capacity) with hlt | hge
      · exact hlt
      · refine absurd ?_ hne
        rw [hi.tails _ _ ht, show acc.length + 1 = k + (Capacity + 1) by omega, Nat.add_mod_right]
    refine hnone { hi with order := ?_, prod := ⟨rfl, rfl, hroom⟩ } rfl rfl
    exact ⟨hle, hord.2.1, hord.2.2.1, hroom.le⟩
  | @pushFull item i n k t h hk ht _ =>
    have hle := hi.tails_lt ht
    refine hnone { hi with order := ?_, prod := trivial } rfl rfl
    exact ⟨hle, hord.2.1, hord.2.2.1, hord.2.2.2.trans (Nat.add_le_add_right hk _)⟩
  | pushWrite h =>
    rw [h] at hp
    exact hnone { hi with prod := hp } rfl rfl
  | pushWritten h =>
    rw [h] at hp
    obtain ⟨rfl, rfl, hroom⟩ := hp
    refine hnone (hi.write hroom ⟨rfl, hroom, ?_⟩) rfl rfl
    rw [Function.update_self, List.getLast?_concat]
  | pushThrow h =>
    rw [h] at hp
    obtain ⟨rfl, rfl, hroom⟩ := hp
    exact hnone (hi.write hroom trivial) rfl rfl
  | @pushStore item n h =>
    rw [h] at hp
    obtain ⟨rfl, hroom, hslot⟩ := hp
    have := hi.accept hroom hslot
    simpa [accepted, popped] using this
  | pushRet h => exact hnone { hi with prod := trivial } rfl rfl
  | pop h => exact hnone { hi with cons := trivial } rfl rfl
  | popLoadTail h ht => exact hnone { hi with cons := hi.last_tail ht } rfl rfl
  | @popLoadHead t k m h hk hm hne =>
    rw [h] at hc
    cases hc
    have hle := hi.heads_lt hm
    -- the head read is not before the tail: not empty then, not empty now
    have hlt : del.length < k := by
      rcases Nat.lt_or_ge del.length k with hlt | hge
      · exact hlt
      · refine absurd ?_ hne
        rw [hi.heads _ _ hm, show k = del.length by omega]
    exact hnone (hi.see hk hm ⟨rfl, hlt⟩) rfl rfl
  | popEmpty h hk hm _ => exact hnone (hi.see hk hm trivial) rfl rfl
  | popRead h =>
    rw [h] at hc
    exact hnone { hi with cons := hc } rfl rfl
  | popGot h hx =>
    have he := hi.readable h hx
    rw [h] at hc
    exact hnone { hi with cons := ⟨hc.1, hc.2, he⟩ } rfl rfl
  | popThrow h => exact hnone { hi with cons := trivial } rfl rfl
  | @popStore t elem h =>
    rw [h] at hc
    obtain ⟨rfl, hlt, he⟩ := hc
    have := hi.take hlt he
    rw [← hnext] at this
    simpa [accepted, popped] using this
  | popRet h => exact hnone { hi with cons := trivial } rfl rfl

/-! ## Runs -/

section
variable (hC : Capacity + 1 < 2 ^ 64) {ls : List (Label T)} {s : State T}
include hC

theorem ring_inv (h : Exec (ring T Capacity) ls s) : Inv Capacity (accepted ls) (popped ls) s := by
  refine h.trace_invariant (I := fun ls s => Inv Capacity (accepted ls) (popped ls) s)
    (fun _ => Inv.init) fun ls s l s' _ hi hs => ?_
  have := Step.inv hC hi hs
  rwa [accepted, accepted, ← List.filterMap_append, popped, popped, ← List.filterMap_append] at this

/-- **Outdated index reads are safe.** Whatever values that the other index has held the loads
return, not going back: the slot the producer is about to write or is writing is not the one
the consumer is about to read or is reading; every read returns the element of the push that
the pop is due to deliver; so what was popped is a prefix of what was accepted, and at most
`Capacity` elements are outstanding. -/
theorem stale_reads_safe (h : Exec (ring T Capacity) ls s) :
    (∀ i j, s.Writes i → s.Reads j → i ≠ j) ∧
      (∀ elem s', Step Capacity s (.popGot elem) s' →
        (accepted ls)[(popped ls).length]? = some elem) ∧
      popped ls <+: accepted ls ∧ (accepted ls).length ≤ (popped ls).length + Capacity := by
  have hi := ring_inv hC h
  have hord := hi.order
  refine ⟨fun i j hw hr => (hi.exclusive hw hr).symm, ?_, hi.prefix_acc, by omega⟩
  intro elem s' hs
  cases hs with
  | popGot hc hx => exact hi.readable hc hx

end

/-- A pop that still finds the buffer empty after the push, and one that takes its element. -/
theorem stale_reads_safe_late : ∃ (ls : List (Label Nat)) (s : State Nat),
    Exec (ring Nat 1) ls s ∧ .popRet .empty ∈ ls ∧ popped ls = [7] ∧
      popped ls <+: accepted ls := by
  have h0 : Exec (ring Nat 1) [] ⟨[⟨0, fun _ => 1⟩], [0], fun _ => [0], .idle, .idle, 0, 0,
    fun _ => 1⟩ := .init ⟨rfl, rfl, fun _ => rfl, rfl, rfl, rfl, rfl, fun _ => rfl⟩
  have h3 := ((h0.snoc (@Step.push _ _ _ 7 rfl)).snoc (.pushLoadHead rfl rfl)).snoc
    (.pushLoadTail (k := 0) rfl (by decide) rfl (by decide))
  have h6 := ((h3.snoc (.pushWrite rfl)).snoc (.pushWritten rfl)).snoc (.pushStore rfl)
  -- the load of `head_` returns the value from before the push
  have h10 := (((h6.snoc (.pop rfl)).snoc (.popLoadTail rfl rfl)).snoc
    (.popEmpty (k := 0) rfl (by decide) rfl rfl)).snoc (.popRet rfl)
  have h13 := ((h10.snoc (.pop rfl)).snoc (.popLoadTail rfl rfl)).snoc
    (.popLoadHead (k := 1) rfl (by decide) rfl (by decide))
  have h16 := ((h13.snoc (.popRead rfl)).snoc
    (@Step.popGot _ _ _ _ 7 rfl (.inl ⟨1, by decide, rfl⟩))).snoc (.popStore rfl)
  exact ⟨_, _, h16, by simp, rfl, (stale_reads_safe (by decide) h16).2.2.1⟩

end Spsc.Stale
