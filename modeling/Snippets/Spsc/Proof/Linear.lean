import Snippets.Spsc.Ring

/-!
# `spsc_ring_buffer` is a bounded FIFO queue

`Inv`: the indices are in `[0, Capacity]`, and each thread's locals agree with its own index,
with the slot it has written or read and with the room or the element it has seen. What the
other thread does in between only adds room for the producer and elements for the consumer, so
a view of the other index that is out of date stays safe (`Step.inv`).

`Step.refines`: under `Inv` every step is, on the elements between `tail_` and `head_`, the
step of the atomic queue that `events` names. From both, `ring_linearizable`.
-/

namespace Spsc

open Lts Circular

variable {T : Type*} {Capacity : Nat}

/-! ## Indices -/

section
variable (hC : Capacity + 1 < 2 ^ 64) {i h t : Nat}
include hC

theorem nextIndex_eq (hi : i ≤ Capacity) :
    nextIndex Capacity i = if i = Capacity then 0 else i + 1 := by
  unfold nextIndex
  rw [Nat.mod_eq_of_lt (show i + 1 < 2 ^ 64 by omega), Nat.mod_eq_of_lt hC]
  split
  · subst i; exact Nat.mod_self _
  · exact Nat.mod_eq_of_lt (by omega)

theorem nextIndex_le (hi : i ≤ Capacity) : nextIndex Capacity i ≤ Capacity := by
  rw [nextIndex_eq hC hi]; split <;> omega

theorem nextIndex_eq_mod (hi : i ≤ Capacity) : nextIndex Capacity i = (i + 1) % (Capacity + 1) := by
  unfold nextIndex
  rw [Nat.mod_eq_of_lt (show i + 1 < 2 ^ 64 by omega), Nat.mod_eq_of_lt hC]

/-- `push` finds `tail_` right after `head_` exactly when the queue is full. -/
theorem nextIndex_eq_tail (hh : h ≤ Capacity) (ht : t ≤ Capacity) :
    nextIndex Capacity h = t ↔ count Capacity h t = Capacity := by
  rw [nextIndex_eq hC hh]; unfold count; split <;> split <;> omega

theorem count_push (hh : h ≤ Capacity) (ht : t ≤ Capacity) (hn : count Capacity h t < Capacity) :
    count Capacity (nextIndex Capacity h) t = count Capacity h t + 1 := by
  rw [nextIndex_eq hC hh]; unfold count at *; split at hn <;> split <;> split <;> omega

theorem count_pop (hh : h ≤ Capacity) (ht : t ≤ Capacity) (hn : 0 < count Capacity h t) :
    count Capacity h (nextIndex Capacity t) = count Capacity h t - 1 := by
  rw [nextIndex_eq hC ht]; unfold count at *; split at hn <;> split <;> split <;> omega

end

theorem count_le {h t : Nat} (hh : h ≤ Capacity) : count Capacity h t ≤ Capacity := by
  unfold count; split <;> omega

theorem count_eq_zero {h t : Nat} (ht : t ≤ Capacity) : count Capacity h t = 0 ↔ t = h := by
  unfold count; split <;> omega

/-- `head_` is the slot after the queue's elements. -/
theorem head_slot {h t : Nat} (hh : h ≤ Capacity) (ht : t ≤ Capacity) :
    (t + count Capacity h t) % (Capacity + 1) = h := by
  unfold count
  split
  · rw [Nat.mod_eq_of_lt (by omega)]; omega
  · rw [show t + (Capacity + 1 - (t - h)) = h + (Capacity + 1) by omega, Nat.add_mod_right,
      Nat.mod_eq_of_lt (by omega)]

/-! ## The invariant -/

/-- The producer's locals. -/
def PushPc.Ok (Capacity : Nat) (s : State T) : PushPc T → Prop
  | .idle | .loadHead _ | .done _ => True
  | .loadTail _ h n => h = s.head ∧ n = nextIndex Capacity s.head
  | .assign _ h n => h = s.head ∧ n = nextIndex Capacity s.head ∧
      count Capacity s.head s.tail < Capacity
  | .store item n => n = nextIndex Capacity s.head ∧ count Capacity s.head s.tail < Capacity ∧
      s.buffer s.head = item

/-- The consumer's locals. -/
def PopPc.Ok (Capacity : Nat) (s : State T) : PopPc T → Prop
  | .idle | .loadTail | .done _ => True
  | .loadHead t => t = s.tail
  | .read t => t = s.tail ∧ 0 < count Capacity s.head s.tail
  | .store t elem => t = s.tail ∧ 0 < count Capacity s.head s.tail ∧ elem = s.buffer t

/-- The indices are within the buffer, and the locals of each thread fit them. -/
structure Inv (Capacity : Nat) (s : State T) : Prop where
  head : s.head ≤ Capacity
  tail : s.tail ≤ Capacity
  prod : s.prod.Ok Capacity s
  cons : s.cons.Ok Capacity s

/-- The producer's locals survive what keeps `head_` and its slot and takes no room. -/
theorem PushPc.Ok.of {s s' : State T} {pc : PushPc T} (h : pc.Ok Capacity s)
    (hh : s'.head = s.head) (hb : s'.buffer s.head = s.buffer s.head)
    (hn : count Capacity s.head s.tail < Capacity → count Capacity s'.head s'.tail < Capacity) :
    pc.Ok Capacity s' := by
  cases pc with
  | idle | loadHead _ | done _ => trivial
  | loadTail item i n => rw [PushPc.Ok] at h ⊢; rwa [hh]
  | assign item i n =>
    obtain ⟨h1, h2, h3⟩ := h
    exact ⟨hh ▸ h1, hh ▸ h2, hn h3⟩
  | store item n =>
    obtain ⟨h1, h2, h3⟩ := h
    exact ⟨hh ▸ h1, hn h2, by rw [hh, hb, h3]⟩

/-- The consumer's locals survive what keeps `tail_` and the oldest element. -/
theorem PopPc.Ok.of {s s' : State T} {pc : PopPc T} (h : pc.Ok Capacity s) (ht : s'.tail = s.tail)
    (hn : 0 < count Capacity s.head s.tail → 0 < count Capacity s'.head s'.tail)
    (hb : 0 < count Capacity s.head s.tail → s'.buffer s.tail = s.buffer s.tail) :
    pc.Ok Capacity s' := by
  cases pc with
  | idle | loadTail | done _ => trivial
  | loadHead t => rw [PopPc.Ok] at h ⊢; rwa [ht]
  | read t =>
    obtain ⟨h1, h2⟩ := h
    exact ⟨h1.trans ht.symm, hn h2⟩
  | store t elem =>
    obtain ⟨rfl, h2, h3⟩ := h
    exact ⟨ht.symm, hn h2, h3.trans (hb h2).symm⟩

theorem Inv.init {s : State T} (h : (ring T Capacity).init s) : Inv Capacity s := by
  obtain ⟨hh, ht, hp, hc⟩ := h
  refine ⟨by omega, by omega, ?_, ?_⟩
  · rw [hp]; trivial
  · rw [hc]; trivial

/-- While the producer has room, the slot it writes is not the oldest element's. -/
theorem head_ne_tail {h t : Nat} (ht : t ≤ Capacity) (hn : 0 < count Capacity h t) : t ≠ h :=
  fun he => by rw [(count_eq_zero ht).2 he] at hn; exact Nat.lt_irrefl 0 hn

theorem Inv.cons_assign {s : State T} (hi : Inv Capacity s) (x : T) (pc : PushPc T) :
    s.cons.Ok Capacity { s with buffer := Function.update s.buffer s.head x, prod := pc } :=
  hi.cons.of rfl id fun hn => Function.update_of_ne (head_ne_tail hi.tail hn) _ _

theorem Step.inv (hC : Capacity + 1 < 2 ^ 64) {s s' : State T} {l : Label T}
    (hi : Inv Capacity s) (hs : Step Capacity s l s') : Inv Capacity s' := by
  have hp := hi.prod
  have hc := hi.cons
  cases hs with
  | push h => exact ⟨hi.head, hi.tail, trivial, hc.of rfl id fun _ => rfl⟩
  | pushLoadHead h => exact ⟨hi.head, hi.tail, ⟨rfl, rfl⟩, hc.of rfl id fun _ => rfl⟩
  | pushLoadTail h hne =>
    rw [h] at hp
    obtain ⟨rfl, rfl⟩ := hp
    -- not full when `tail_` was read
    have hlt : count Capacity s.head s.tail < Capacity :=
      Nat.lt_of_le_of_ne (count_le hi.head)
        fun he => hne ((nextIndex_eq_tail hC hi.head hi.tail).2 he)
    exact ⟨hi.head, hi.tail, ⟨rfl, rfl, hlt⟩, hc.of rfl id fun _ => rfl⟩
  | pushFull h _ => exact ⟨hi.head, hi.tail, trivial, hc.of rfl id fun _ => rfl⟩
  | pushAssign h =>
    rw [h] at hp
    obtain ⟨rfl, rfl, hlt⟩ := hp
    exact ⟨hi.head, hi.tail, ⟨rfl, hlt, Function.update_self _ _ _⟩, hi.cons_assign _ _⟩
  | pushThrow h =>
    rw [h] at hp
    obtain ⟨rfl, -, -⟩ := hp
    exact ⟨hi.head, hi.tail, trivial, hi.cons_assign _ _⟩
  | pushStore h =>
    rw [h] at hp
    obtain ⟨rfl, hlt, -⟩ := hp
    refine ⟨nextIndex_le hC hi.head, hi.tail, trivial, hc.of rfl (fun _ => ?_) fun _ => rfl⟩
    show 0 < count Capacity (nextIndex Capacity s.head) s.tail
    rw [count_push hC hi.head hi.tail hlt]
    exact Nat.succ_pos _
  | pushRet h => exact ⟨hi.head, hi.tail, trivial, hc.of rfl id fun _ => rfl⟩
  | pop h => exact ⟨hi.head, hi.tail, hp.of rfl rfl id, trivial⟩
  | popLoadTail h => exact ⟨hi.head, hi.tail, hp.of rfl rfl id, rfl⟩
  | popLoadHead h hne =>
    rw [h] at hc
    cases hc
    -- not empty when `head_` was read
    have hpos : 0 < count Capacity s.head s.tail :=
      Nat.pos_of_ne_zero fun he => hne ((count_eq_zero hi.tail).1 he)
    exact ⟨hi.head, hi.tail, hp.of rfl rfl id, rfl, hpos⟩
  | popEmpty h _ => exact ⟨hi.head, hi.tail, hp.of rfl rfl id, trivial⟩
  | popRead h =>
    rw [h] at hc
    obtain ⟨rfl, hpos⟩ := hc
    exact ⟨hi.head, hi.tail, hp.of rfl rfl id, rfl, hpos, rfl⟩
  | popThrow h => exact ⟨hi.head, hi.tail, hp.of rfl rfl id, trivial⟩
  | popStore h =>
    rw [h] at hc
    obtain ⟨rfl, hpos, -⟩ := hc
    refine ⟨hi.head, nextIndex_le hC hi.tail, hp.of rfl rfl fun hlt => ?_, trivial⟩
    show count Capacity s.head (nextIndex Capacity s.tail) < Capacity
    rw [count_pop hC hi.head hi.tail hpos]
    omega
  | popRet h => exact ⟨hi.head, hi.tail, hp.of rfl rfl id, trivial⟩

/-! ## Refinement -/

theorem contents_length (s : State T) :
    (contents Capacity s).length = count Capacity s.head s.tail := window_length

/-- Writing the slot at `head_` changes no element. -/
theorem contents_assign {s : State T} (hi : Inv Capacity s) (x : T) (pc : PushPc T) :
    contents Capacity { s with buffer := Function.update s.buffer s.head x, prod := pc } =
      contents Capacity s := by
  have hlt : count Capacity s.head s.tail < Capacity + 1 := Nat.lt_succ_of_le (count_le hi.head)
  have h : window _ (Function.update s.buffer _ x) s.tail _ = _ := window_update_end hlt x
  rwa [head_slot hi.head hi.tail] at h

/-- Storing the next index to `head_` appends the element in its slot. -/
theorem contents_push (hC : Capacity + 1 < 2 ^ 64) {s : State T} (hi : Inv Capacity s)
    (hlt : count Capacity s.head s.tail < Capacity) (pc : PushPc T) :
    contents Capacity { s with head := nextIndex Capacity s.head, prod := pc } =
      contents Capacity s ++ [s.buffer s.head] := by
  unfold contents
  rw [count_push hC hi.head hi.tail hlt, window_succ, head_slot hi.head hi.tail]

/-- Storing the next index to `tail_` drops the oldest element. -/
theorem contents_pop (hC : Capacity + 1 < 2 ^ 64) {s : State T} (hi : Inv Capacity s)
    (hpos : 0 < count Capacity s.head s.tail) (pc : PopPc T) :
    contents Capacity s = s.buffer s.tail ::
      contents Capacity { s with tail := nextIndex Capacity s.tail, cons := pc } := by
  obtain ⟨n, hn⟩ : ∃ n, count Capacity s.head s.tail = n + 1 := ⟨_, (Nat.succ_pred hpos.ne').symm⟩
  unfold contents
  rw [count_pop hC hi.head hi.tail hpos, hn, window_cons, nextIndex_eq_mod hC hi.tail,
    Nat.mod_eq_of_lt (Nat.lt_succ_of_le hi.tail), Nat.add_sub_cancel]

/-- A step of the producer that is the event `e` at the queue. -/
theorem refines_producer {s s' : State T} {e : Atomic.Event Tid (Fifo.Op T) (Fifo.Res T)}
    (hc : s'.cons = s.cons)
    (h : Atomic.Step (Fifo.spec Capacity) (abs Capacity s) e
      ⟨contents Capacity s', Function.update (abs Capacity s).phase .producer s'.prod.phase⟩) :
    Run ((Fifo.spec Capacity).object Tid) (abs Capacity s) [e] (abs Capacity s') := by
  have habs : abs Capacity s' =
      ⟨contents Capacity s', Function.update (abs Capacity s).phase .producer s'.prod.phase⟩ := by
    simp only [abs, hc, Atomic.State.mk.injEq, true_and]
    funext t
    cases t with
    | producer => rfl
    | consumer => rfl
  rw [habs]
  exact .single h

/-- A step of the consumer that is the event `e` at the queue. -/
theorem refines_consumer {s s' : State T} {e : Atomic.Event Tid (Fifo.Op T) (Fifo.Res T)}
    (hp : s'.prod = s.prod)
    (h : Atomic.Step (Fifo.spec Capacity) (abs Capacity s) e
      ⟨contents Capacity s', Function.update (abs Capacity s).phase .consumer s'.cons.phase⟩) :
    Run ((Fifo.spec Capacity).object Tid) (abs Capacity s) [e] (abs Capacity s') := by
  have habs : abs Capacity s' =
      ⟨contents Capacity s', Function.update (abs Capacity s).phase .consumer s'.cons.phase⟩ := by
    simp only [abs, hp, Atomic.State.mk.injEq, true_and]
    funext t
    cases t with
    | producer => rfl
    | consumer => rfl
  rw [habs]
  exact .single h

/-- A step that means nothing at the queue. -/
theorem refines_silent {s s' : State T} (hv : contents Capacity s' = contents Capacity s)
    (hp : s'.prod.phase = s.prod.phase) (hc : s'.cons.phase = s.cons.phase) :
    Run ((Fifo.spec Capacity).object Tid) (abs Capacity s) [] (abs Capacity s') := by
  have habs : abs Capacity s' = abs Capacity s := by simp only [abs, hv, hp, hc]
  rw [habs]
  exact .nil _

/-- **Every step is, on the elements of the queue, the step `events` names.** -/
theorem Step.refines (hC : Capacity + 1 < 2 ^ 64) {s s' : State T} {l : Label T}
    (hi : Inv Capacity s) (hs : Step Capacity s l s') :
    Run ((Fifo.spec Capacity).object Tid) (abs Capacity s) (events l) (abs Capacity s') := by
  have hp := hi.prod
  have hc := hi.cons
  cases hs with
  | push h =>
    have hph : s.prod.phase = .idle := by rw [h]; rfl
    exact refines_producer rfl (.call hph)
  | pushLoadHead h => exact refines_silent rfl (by rw [h]; rfl) rfl
  | pushLoadTail h _ => exact refines_silent rfl (by rw [h]; rfl) rfl
  | @pushFull item _ _ h he =>
    have hph : s.prod.phase = .called (.push item) := by rw [h]; rfl
    rw [h] at hp
    obtain ⟨rfl, rfl⟩ := hp
    have hfull : (contents Capacity s).length = Capacity := by
      rw [contents_length]; exact (nextIndex_eq_tail hC hi.head hi.tail).1 he
    exact refines_producer rfl (.commit hph (.full hfull))
  | pushAssign h =>
    rw [h] at hp
    obtain ⟨rfl, -, -⟩ := hp
    exact refines_silent (contents_assign hi _ _) (by rw [h]; rfl) rfl
  | @pushThrow item _ _ _ h =>
    have hph : s.prod.phase = .called (.push item) := by rw [h]; rfl
    rw [h] at hp
    obtain ⟨rfl, -, -⟩ := hp
    refine refines_producer rfl ?_
    rw [contents_assign hi]
    exact .commit hph .threw
  | pushStore h =>
    rw [h] at hp
    obtain ⟨rfl, hlt, rfl⟩ := hp
    have hph : s.prod.phase = .called (.push (s.buffer s.head)) := by rw [h]; rfl
    have hroom : (contents Capacity s).length < Capacity := by rwa [contents_length]
    refine refines_producer rfl ?_
    rw [contents_push hC hi hlt]
    exact .commit hph (.push hroom)
  | pushRet h =>
    exact refines_producer rfl (.ret (show s.prod.phase = .committed _ by rw [h]; rfl))
  | pop h => exact refines_consumer rfl (.call (show s.cons.phase = .idle by rw [h]; rfl))
  | popLoadTail h => exact refines_silent rfl rfl (by rw [h]; rfl)
  | popLoadHead h _ => exact refines_silent rfl rfl (by rw [h]; rfl)
  | popEmpty h he =>
    have hph : s.cons.phase = .called .pop := by rw [h]; rfl
    rw [h] at hc
    cases hc
    have hempty : contents Capacity s = [] := by
      rw [contents, (count_eq_zero hi.tail).2 he]; rfl
    refine refines_consumer rfl (.commit hph ?_)
    show Fifo.Step Capacity (contents Capacity s) .pop .empty (contents Capacity s)
    rw [hempty]
    exact .empty
  | popRead h => exact refines_silent rfl rfl (by rw [h]; rfl)
  | popThrow h =>
    exact refines_consumer rfl (.commit (show s.cons.phase = .called .pop by rw [h]; rfl) .threw)
  | popStore h =>
    have hph : s.cons.phase = .called .pop := by rw [h]; rfl
    rw [h] at hc
    obtain ⟨rfl, hpos, rfl⟩ := hc
    refine refines_consumer rfl (.commit hph ?_)
    show Fifo.Step Capacity (contents Capacity s) _ _ _
    rw [contents_pop hC hi hpos]
    exact .pop
  | popRet h =>
    exact refines_consumer rfl (.ret (show s.cons.phase = .committed _ by rw [h]; rfl))

/-! ## Runs -/

section
variable (hC : Capacity + 1 < 2 ^ 64) {ls : List (Label T)} {s : State T}
include hC

theorem ring_inv (h : Exec (ring T Capacity) ls s) : Inv Capacity s :=
  h.invariant (fun _ => Inv.init) fun _ _ _ hi hs => Step.inv hC hi hs

theorem ring_refines (h : Exec (ring T Capacity) ls s) :
    Exec ((Fifo.spec Capacity).object Tid) (ls.flatMap events) (abs Capacity s) := by
  have hinit : ∀ s : State T, (ring T Capacity).init s →
      abs Capacity s = ⟨[], fun _ => .idle⟩ := by
    rintro s ⟨hh, ht, hp, hc⟩
    simp only [abs, contents, hh, ht, hp, hc, Atomic.State.mk.injEq]
    refine ⟨rfl, ?_⟩
    funext t
    cases t with
    | producer => rfl
    | consumer => rfl
  obtain ⟨a, ha, -, rfl⟩ := h.simulate (R := fun s a => Inv Capacity s ∧ abs Capacity s = a)
    (fun s h0 => ⟨_, hinit s h0, Inv.init h0, rfl⟩)
    (fun s l s' a ⟨hi, hr⟩ hs => ⟨_, hr ▸ Step.refines hC hi hs, Step.inv hC hi hs, rfl⟩)
  exact ha

/-- **`spsc_ring_buffer` is linearizable** to the bounded FIFO queue of capacity `Capacity`, each
call taking effect at the step `events` names, the queue holding the elements between `tail_`
and `head_`; every step of a reachable state is that step of the queue, what was popped is a
prefix of what was accepted, and no index leaves `[0, Capacity]`. -/
theorem ring_linearizable (h : Exec (ring T Capacity) ls s) :
    Exec ((Fifo.spec Capacity).object Tid) (ls.flatMap events) (abs Capacity s) ∧
      (Fifo.spec Capacity).Linearizable ((ls.flatMap events).filter Atomic.Event.visible) ∧
      (∀ l s', Step Capacity s l s' → Run ((Fifo.spec Capacity).object Tid)
        (abs Capacity s) (events l) (abs Capacity s')) ∧
      Fifo.accepted (effects ls) = Fifo.delivered (effects ls) ++ contents Capacity s ∧
      Fifo.delivered (effects ls) <+: Fifo.accepted (effects ls) ∧
      s.head ≤ Capacity ∧ s.tail ≤ Capacity ∧ ∀ i, Accesses s i → i ≤ Capacity := by
  have hi := ring_inv hC h
  have hobj := ring_refines hC h
  have hlegal := Atomic.object_legal hobj
  refine ⟨hobj, Atomic.linearizable_of_exec hobj, fun l s' hs => hs.refines hC hi,
    Fifo.accepted_eq hlegal, Fifo.delivered_prefix hlegal, hi.head, hi.tail, ?_⟩
  rintro i (⟨item, n, hp⟩ | hc)
  · have := hi.prod
    rw [hp] at this
    exact this.1 ▸ hi.head
  · have := hi.cons
    rw [hc] at this
    exact this.1 ▸ hi.tail

end

/-- A push and a pop that overlap, in a buffer of one element. -/
theorem ring_linearizable_overlap : ∃ (ls : List (Label Nat)) (s : State Nat),
    Exec (ring Nat 1) ls s ∧ Fifo.delivered (effects ls) = [7] ∧
      Fifo.delivered (effects ls) <+: Fifo.accepted (effects ls) := by
  have h0 : Exec (ring Nat 1) [] ⟨0, 0, fun _ => 0, .idle, .idle⟩ := .init ⟨rfl, rfl, rfl, rfl⟩
  have h4 := (((h0.snoc (@Step.push _ _ _ 7 rfl)).snoc (.pop rfl)).snoc (.pushLoadHead rfl)).snoc
    (.popLoadTail rfl)
  have h7 := ((h4.snoc (.pushLoadTail rfl (by decide))).snoc (.pushAssign rfl)).snoc
    (.pushStore rfl)
  have h10 := ((h7.snoc (.popLoadHead rfl (by decide))).snoc (.popRead rfl)).snoc (.popStore rfl)
  exact ⟨_, _, h10, rfl, (ring_linearizable (by decide) h10).2.2.2.2.1⟩

end Spsc
