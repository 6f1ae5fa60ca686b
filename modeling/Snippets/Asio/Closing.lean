import Snippets.Asio.Channel
import Snippets.Asio.Timer
import Mathlib.Algebra.Order.BigOperators.Group.List
import Mathlib.Algebra.Order.Ring.Nat

/-!
# After `close ()` and `cancel ()`

How long a chain of handlers goes on after its sockets are closed. An operation counts two steps,
its completion and its handler, and two more if it ends in success (`Op.succeeds`), for the
operation that its handler may start. A wait on a timer counts two steps; two more if its handler
may run before the deadline that it watches, for the wait that the handler may start; and two more
for each operation that ends in success, whose handler may move the deadline. These weights go down
with every step: `Channel.Step.weight`, `Channel.Takes.weight`, `Timer.Fires.weight` and
`Timer.Takes.weight`.
-/

namespace Asio

variable {β : Type*} {c c' : Channel β} {cap : Nat}

/-! ## Operations on closed sockets -/

/-- 1 for an operation that ends in success though its sockets are closed. -/
def Op.succeeds (o : Op) : Nat :=
  match o.io, o.result with
  | _, some (.ok _) => 1
  | .write size, none => if o.sent = size then 1 else 0
  | _, _ => 0

/-- The steps left of an operation whose sockets are closed, and two more for a success, whose
handler may move the deadline. -/
def Op.weight (o : Op) : Nat :=
  2 * o.succeeds + match o.result with
    | none => 2
    | some _ => 1

def Channel.succeeds (c : Channel β) : Nat := (c.ops.map Op.succeeds).sum

def Channel.weight (c : Channel β) : Nat := (c.ops.map Op.weight).sum

/-- An operation transfers something. -/
def Op.Nonempty (o : Op) : Prop :=
  match o.io, o.result with
  | .receive, some (.ok n) => 0 < n
  | .receive, _ => True
  | .write size, _ => 0 < size

def Channel.Nonempty (c : Channel β) : Prop := ∀ o ∈ c.ops, o.Nonempty

theorem Op.succeeds_le (o : Op) : o.succeeds ≤ 1 := by
  unfold Op.succeeds
  split
  · exact Nat.le_refl _
  · split <;> decide
  · exact Nat.zero_le _

theorem Op.weight_le (o : Op) : o.weight ≤ 4 := by
  have := o.succeeds_le
  unfold Op.weight
  split <;> omega

/-- What happens to an operation on closed sockets brings it one step nearer to its end. -/
theorem Channel.Step.weight {e : Event β} (h : c.Step cap false false e c') :
    c'.weight + 1 ≤ c.weight ∧ c'.succeeds ≤ c.succeeds := by
  cases h with
  | deliver hopen | send hopen => cases hopen
  | finish hops | fail hops =>
    simp only [Channel.weight, Channel.succeeds, hops, List.map_append, List.map_cons,
      List.sum_append, List.sum_cons]
    simp only [Op.weight, Op.succeeds, if_true]
    omega

theorem Channel.Takes.weight {io : Io} {r : Result} (h : c.Takes io r c') :
    c'.weight + 1 ≤ c.weight ∧ c'.succeeds ≤ c.succeeds := by
  cases h with
  | intro hops =>
    simp only [Channel.weight, Channel.succeeds, hops, List.map_append, List.map_cons,
      List.sum_append, List.sum_cons]
    refine ⟨?_, by omega⟩
    simp only [Op.weight]
    omega

theorem Channel.Takes.start_weight {io io' : Io} {n : Nat} (h : c.Takes io (.ok n) c')
    (hio : io' ≠ .write 0) :
    (c'.start io').weight + 1 ≤ c.weight ∧ (c'.start io').succeeds + 1 ≤ c.succeeds := by
  cases h with
  | intro hops =>
    have hnew : Op.succeeds ⟨io', 0, none⟩ = 0 := by
      cases io' with
      | receive => rfl
      | write size =>
        have hsize : ¬(0 : Nat) = size := fun h => hio (by rw [← h])
        exact if_neg hsize
    simp only [Channel.start, Channel.weight, Channel.succeeds, hops, List.map_append,
      List.map_cons, List.map_nil, List.sum_append, List.sum_cons, List.sum_nil, Op.weight, hnew]
    simp only [Op.succeeds]
    omega

theorem sum_map_le {α : Type*} {f : α → Nat} {n : Nat} {l : List α} (h : ∀ a ∈ l, f a ≤ n) :
    (l.map f).sum ≤ n * l.length := by
  induction l with
  | nil => exact Nat.zero_le _
  | cons a l ih =>
    rw [List.map_cons, List.sum_cons, List.length_cons, Nat.mul_succ, Nat.add_comm]
    exact Nat.add_le_add (ih fun b hb => h b (List.mem_cons_of_mem a hb)) (h a List.mem_cons_self)

theorem Channel.weight_le (h : c.ops.length ≤ 1) : c.weight ≤ 4 ∧ c.succeeds ≤ 1 := by
  unfold Channel.weight Channel.succeeds
  match hops : c.ops with
  | [] => simp
  | [o] => simpa using ⟨o.weight_le, o.succeeds_le⟩
  | _ :: _ :: _ => rw [hops] at h; simp at h

theorem Channel.Nonempty.start {io : Io} (h : c.Nonempty) (hio : io ≠ .write 0) :
    (c.start io).Nonempty := by
  intro o ho
  rcases List.mem_append.1 ho with ho | ho
  · exact h o ho
  · rw [List.mem_singleton.1 ho]
    cases io with
    | receive => trivial
    | write size => exact Nat.pos_of_ne_zero fun h => hio (by rw [h])

theorem Channel.Nonempty.takes {io : Io} {r : Result} (h : c.Nonempty) (ht : c.Takes io r c') :
    c'.Nonempty ∧ ∀ n, io = .receive → r = .ok n → 0 < n := by
  cases ht with
  | @intro l₁ l₂ _ sent _ hops =>
    refine ⟨fun o ho => h o ?_, fun n hio hr => ?_⟩
    · rw [hops]
      rcases List.mem_append.1 ho with ho | ho
      · exact List.mem_append_left _ ho
      · exact List.mem_append_right _ (List.mem_cons_of_mem _ ho)
    · subst hio hr
      exact h ⟨.receive, sent, some (.ok n)⟩ (by rw [hops]; simp)

theorem Channel.Nonempty.step {e : Event β} {source target : Bool} (h : c.Nonempty)
    (hs : c.Step cap source target e c') : c'.Nonempty := by
  have hother : ∀ {l₁ l₂ : List Op} {o o' : Op}, c.ops = l₁ ++ o :: l₂ → o'.Nonempty →
      ∀ o₁ ∈ l₁ ++ o' :: l₂, o₁.Nonempty := by
    intro l₁ l₂ o o' hops ho' o₁ ho₁
    rcases List.mem_append.1 ho₁ with ho₁ | ho₁
    · exact h o₁ (by rw [hops]; exact List.mem_append_left _ ho₁)
    · rcases List.mem_cons.1 ho₁ with rfl | ho₁
      · exact ho'
      · exact h o₁ (by rw [hops]; exact List.mem_append_right _ (List.mem_cons_of_mem _ ho₁))
  cases hs with
  | deliver _ hops hne _ => exact hother hops (List.length_pos_of_ne_nil hne)
  | @send l₁ l₂ size sent piece _ hops _ _ =>
    exact hother hops (h ⟨.write size, sent, none⟩ (by rw [hops]; simp))
  | @finish l₁ l₂ size hops => exact hother hops (h ⟨.write size, size, none⟩ (by rw [hops]; simp))
  | @fail l₁ l₂ io sent e hops =>
    have ho := h ⟨io, sent, none⟩ (by rw [hops]; simp)
    refine hother hops ?_
    cases io with
    | receive => trivial
    | write size => exact ho

/-! ## Cancelled timers -/

/-- 1 if a handler that runs at the time `t` may find the deadline in the future. -/
def late (deadline t : Int) : Nat := if deadline ≤ t then 0 else 1

/-- `succeeds`: the operations whose handlers may move the deadline. -/
def Wait.weight (expiry deadline clock : Int) (succeeds : Nat) : Wait → Nat
  | .outstanding => 2 * (succeeds + late deadline expiry) + 2
  | .completed none => 2 * (succeeds + late deadline clock) + 1
  | .completed (some _) => 1

/-- The steps left of all waits of a timer, with those of waits that their handlers may start. -/
def Timer.weight (t : Timer) (deadline clock : Int) (succeeds : Nat) : Nat :=
  (t.waits.map (Wait.weight t.expiry deadline clock succeeds)).sum

section
variable {t t' : Timer} {w : Wait} {expiry deadline deadline' clock now : Int}
  {succeeds succeeds' : Nat}

theorem late_le_one (deadline clock : Int) : late deadline clock ≤ 1 := by
  unfold late
  split <;> decide

theorem late_mono (deadline : Int) (h : clock ≤ now) : late deadline now ≤ late deadline clock := by
  unfold late
  split
  · exact Nat.zero_le _
  · rw [if_neg (by omega)]

theorem Wait.weight_le : w.weight expiry deadline clock succeeds ≤ 2 * succeeds + 4 := by
  have h₁ := late_le_one deadline expiry
  have h₂ := late_le_one deadline clock
  unfold Wait.weight
  split <;> omega

theorem Wait.weight_mono (hclock : clock ≤ now) (hs : succeeds' ≤ succeeds) :
    w.weight expiry deadline now succeeds' ≤ w.weight expiry deadline clock succeeds := by
  have hlate := late_mono deadline hclock
  unfold Wait.weight
  split <;> omega

/-- The deadline is moved by the handler of an operation that ended in success. -/
theorem Wait.weight_delay (hs : succeeds' + 1 ≤ succeeds) :
    w.weight expiry deadline' now succeeds' ≤ w.weight expiry deadline clock succeeds := by
  have h₁ := late_le_one deadline' expiry
  have h₂ := late_le_one deadline' now
  unfold Wait.weight
  split <;> omega

theorem Wait.weight_abort (expiry' : Int) : w.abort.weight expiry' deadline clock succeeds ≤
    w.weight expiry deadline clock succeeds := by
  cases w with
  | outstanding =>
    simp only [Wait.abort, Wait.weight]
    omega
  | completed e => cases e <;> exact Nat.le_refl _

theorem sum_weight_mono (expiry deadline : Int) (succeeds : Nat) (hclock : clock ≤ now)
    (ws : List Wait) :
    (ws.map (Wait.weight expiry deadline now succeeds)).sum ≤
      (ws.map (Wait.weight expiry deadline clock succeeds)).sum :=
  List.sum_le_sum fun _ _ => Wait.weight_mono hclock (Nat.le_refl _)

theorem Timer.weight_le_of {f : Wait → Wait} (hwaits : t'.waits = t.waits.map f)
    (h : ∀ w, (f w).weight t'.expiry deadline' now succeeds' ≤
      w.weight t.expiry deadline clock succeeds) :
    t'.weight deadline' now succeeds' ≤ t.weight deadline clock succeeds := by
  unfold Timer.weight
  rw [hwaits, List.map_map]
  exact List.sum_le_sum fun w _ => h w

theorem Timer.weight_mono (t : Timer) (deadline : Int) (hclock : clock ≤ now)
    (hs : succeeds' ≤ succeeds) :
    t.weight deadline now succeeds' ≤ t.weight deadline clock succeeds :=
  weight_le_of (f := id) (List.map_id _).symm fun _ => Wait.weight_mono hclock hs

theorem Timer.weight_delay (t : Timer) (deadline deadline' clock now : Int)
    (hs : succeeds' + 1 ≤ succeeds) :
    t.weight deadline' now succeeds' ≤ t.weight deadline clock succeeds :=
  weight_le_of (f := id) (List.map_id _).symm fun _ => Wait.weight_delay hs

theorem Timer.weight_cancel (t : Timer) (deadline clock : Int) (succeeds : Nat) :
    t.cancel.weight deadline clock succeeds ≤ t.weight deadline clock succeeds :=
  weight_le_of rfl fun _ => Wait.weight_abort _

theorem Timer.Fires.weight (h : t.Fires now t') (deadline : Int) (succeeds : Nat)
    (hclock : clock ≤ now) :
    t'.weight deadline now succeeds + 1 ≤ t.weight deadline clock succeeds := by
  cases h with
  | @intro l₁ l₂ hw hexpiry =>
    have h₁ := sum_weight_mono t.expiry deadline succeeds hclock l₁
    have h₂ := sum_weight_mono t.expiry deadline succeeds hclock l₂
    have hlate := late_mono deadline hexpiry
    simp only [Timer.weight, hw, List.map_append, List.map_cons, List.sum_append, List.sum_cons,
      Wait.weight]
    omega

theorem Timer.Takes.weight {e : Option Error} (h : t.Takes e t') (deadline : Int)
    (succeeds : Nat) (hclock : clock ≤ now) :
    t'.weight deadline now succeeds +
      Wait.weight t.expiry deadline clock succeeds (.completed e) ≤
      t.weight deadline clock succeeds := by
  cases h with
  | @intro l₁ l₂ _ hw =>
    have h₁ := sum_weight_mono t.expiry deadline succeeds hclock l₁
    have h₂ := sum_weight_mono t.expiry deadline succeeds hclock l₂
    simp only [Timer.weight, hw, List.map_append, List.map_cons, List.sum_append, List.sum_cons]
    omega

theorem Timer.weight_le (deadline clock : Int) (succeeds : Nat) (h : t.waits.length ≤ 1) :
    t.weight deadline clock succeeds ≤ 2 * succeeds + 4 := by
  unfold Timer.weight
  match hw : t.waits with
  | [] => simp
  | [w] => simpa using Wait.weight_le
  | _ :: _ :: _ => rw [hw] at h; simp at h

theorem Timer.weight_arm (t : Timer) (deadline clock : Int) (succeeds : Nat) :
    ((t.expiresAt deadline).asyncWait).weight deadline clock succeeds ≤
    t.weight deadline clock succeeds + (2 * succeeds + 2) := by
  have hcancel : ((t.waits.map Wait.abort).map
      (Wait.weight deadline deadline clock succeeds)).sum ≤ t.weight deadline clock succeeds := by
    rw [List.map_map]
    exact List.sum_le_sum fun _ _ => Wait.weight_abort _
  have hlate : late deadline deadline = 0 := if_pos (Int.le_refl _)
  simp only [Timer.weight, Timer.asyncWait, Timer.expiresAt, Timer.cancel, List.map_append,
    List.sum_append, List.map_cons, List.map_nil, List.sum_cons, List.sum_nil, Wait.weight,
    hlate] at hcancel ⊢
  omega

end

end Asio
