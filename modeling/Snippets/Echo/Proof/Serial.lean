import Snippets.Echo.Proof.Faithful
import Snippets.Echo.Threads

/-!
# Serialisation of the sessions of `server.cc`

The strand keeps the handlers of a session apart, but the first receive and the first wait are set
up by `handle_accept`, which is bound to no strand: a completion may be taken while `start (false)`
still has calls to make. No two threads are inside one session exactly as long as this does not
happen (`serial_iff`).
-/

namespace Echo.Server

open Lts Asio

variable {ι α β : Type*} [DecidableEq ι] [DecidableEq α] [Inhabited β] {timeout : Int}
  {s s' : Pool ι α β} {l : Action ι α β} {ls : List (Action ι α β)}

/-! ## The condition -/

/-- The action begins a handler that makes calls on session `k`. -/
inductive Begins (k : Nat) : Action ι α β → Prop
  | take {i : ι} {io : Io} {r : Result} : Begins k (.take i k io r)
  | takeWait {i : ι} : Begins k (.takeWait i k none)

/-- No handler of a session begins before the `start (false)` of the session has made its calls. -/
def AfterStart (s : Pool ι α β) (l : Action ι α β) : Prop :=
  ∀ k, Begins k l → ∀ i a code, s.threads i = .running (.accept a) k code → code = .done

/-! ## Pairs of threads -/

/-- What two threads may run at the same time. -/
inductive Apart : Thread α → Thread α → Prop
  | idle {t : Thread α} : Apart .idle t
  | idle' {t : Thread α} : Apart t .idle
  | sessions {job job' : Job α} {k k' : Nat} {code code' : Code} : k ≠ k' →
      Apart (.running job k code) (.running job' k' code')
  | strand {a : α} {k k' : Nat} {code code' : Code} : code = .done ∨ code' = .done →
      Apart (.running .strand k code) (.running (.accept a) k' code')
  | accept {a : α} {k k' : Nat} {code code' : Code} : code = .done ∨ code' = .done →
      Apart (.running (.accept a) k code) (.running .strand k' code')

omit [DecidableEq α] in
theorem Apart.symm {t t' : Thread α} (h : Apart t t') : Apart t' t := by
  cases h with
  | idle => exact .idle'
  | idle' => exact .idle
  | sessions hk => exact .sessions hk.symm
  | strand hc => exact .accept hc.symm
  | accept hc => exact .strand hc.symm

omit [DecidableEq α] in
/-- A thread that makes a call was not apart from others because it had none left. -/
theorem Apart.call {job : Job α} {k : Nat} {code code' : Code} {t : Thread α} (hne : code ≠ .done)
    (h : Apart (.running job k code) t) : Apart (.running job k code') t := by
  cases h with
  | idle' => exact .idle'
  | sessions hk => exact .sessions hk
  | strand hc => exact .strand (.inr (hc.resolve_left hne))
  | accept hc => exact .accept (.inr (hc.resolve_left hne))

/-- `made`: threads run code of sessions that have been made. -/
structure Serial (s : Pool ι α β) : Prop where
  made : ∀ i job k code, s.threads i = .running job k code → k < s.made
  apart : ∀ i j, i ≠ j → Apart (s.threads i) (s.threads j)

omit [DecidableEq α] [Inhabited β] in
theorem Serial.update {i : ι} {t : Thread α} (hi : Serial s) (hthreads : s'.threads =
    Function.update s.threads i t) (hmade : s.made ≤ s'.made)
    (hk : ∀ job k code, t = .running job k code → k < s'.made)
    (hapart : ∀ j, j ≠ i → Apart t (s.threads j)) : Serial s' := by
  have hself : s'.threads i = t := by rw [hthreads, Function.update_self]
  have hother : ∀ j, j ≠ i → s'.threads j = s.threads j := fun j hj => by
    rw [hthreads, Function.update_of_ne hj]
  constructor
  · intro j job k code hrun
    by_cases hj : j = i
    · subst hj
      exact hk job k code (hself.symm.trans hrun)
    · rw [hother j hj] at hrun
      exact Nat.lt_of_lt_of_le (hi.made j job k code hrun) hmade
  · intro j j' hne
    by_cases hj : j = i
    · subst hj
      rw [hself, hother j' hne.symm]
      exact hapart j' hne.symm
    · by_cases hj' : j' = i
      · subst hj'
        rw [hself, hother j hj]
        exact (hapart j hj).symm
      · rw [hother j hj, hother j' hj']
        exact hi.apart j j' hne

omit [DecidableEq α] [Inhabited β] in
theorem Serial.take {i : ι} {k : Nat} {code : Code} (hi : Serial s) (hmade : k < s.made)
    (hfree : s.StrandFree k) (hthreads : s'.threads =
      Function.update s.threads i (.running .strand k code)) (hmade' : s'.made = s.made)
    (hafter : code = .done ∨ ∀ j a code', s.threads j = .running (.accept a) k code' →
      code' = .done) : Serial s' := by
  refine hi.update hthreads (Nat.le_of_eq hmade'.symm) ?_ fun j hj => ?_
  · rintro job k' code' ⟨⟩
    exact hmade' ▸ hmade
  · match hthread : s.threads j with
    | .idle => exact .idle'
    | .running .strand k' code' =>
      refine .sessions fun hk => ?_
      subst hk
      exact hfree j code' hthread
    | .running (.accept a) k' code' =>
      by_cases hk : k = k'
      · subst hk
        exact .strand (hafter.imp_right fun h => h j a code' hthread)
      · exact .sessions hk

omit [DecidableEq α] [Inhabited β] in
theorem Serial.idle {i : ι} (hi : Serial s) (hthreads : s'.threads =
    Function.update s.threads i .idle) (hmade : s'.made = s.made) : Serial s' :=
  hi.update hthreads (Nat.le_of_eq hmade.symm) nofun fun _ _ => .idle

theorem Serial.step (hi : Serial s) (h : Pool.Step timeout s l s') (hl : AfterStart s l) :
    Serial s' := by
  cases h with
  | accept | io | expire | refuse => exact ⟨hi.made, hi.apart⟩
  | @make i a sess =>
    refine hi.update (i := i) rfl (Nat.le_succ _) ?_ fun j hj => ?_
    · rintro job k code ⟨⟩
      exact Nat.lt_succ_self _
    · match hthread : s.threads j with
      | .idle => exact .idle'
      | .running job k code => exact .sessions (Nat.ne_of_gt (hi.made j job k code hthread))
  | @take i k io r c _ hmade hfree => exact hi.take hmade hfree rfl rfl (.inr (hl k .take))
  | @takeWait i k error t _ hmade hfree =>
    refine hi.take hmade hfree rfl rfl ?_
    cases error with
    | some e => exact .inl rfl
    | none => exact .inr (hl k .takeWait)
  | @call i job k code now hthread hne =>
    refine hi.update (i := i) rfl (Nat.le_refl _) ?_ fun j hj => ?_
    · rintro job' k' code' ⟨⟩
      exact hi.made i job k code hthread
    · exact Apart.call hne (hthread ▸ hi.apart i j hj.symm)
  | ret => exact hi.idle rfl rfl
  | listen => exact hi.idle rfl rfl

omit [DecidableEq ι] [DecidableEq α] [Inhabited β] in
theorem Serial.exclusive (hi : Serial s) : s.Exclusive := by
  rintro i j k ⟨job, code, hthread, hne⟩ ⟨job', code', hthread', hne'⟩
  by_contra hij
  have hapart := hi.apart i j hij
  rw [hthread, hthread'] at hapart
  cases hapart with
  | sessions hk => exact hk rfl
  | strand hc | accept hc => exact hc.elim hne hne'

/-! ## The result -/

theorem pool_serial (h : Exec ((pool ι α β timeout).restrict AfterStart) ls s) : Serial s := by
  refine h.invariant (fun s h0 => ?_) fun s l s' hi (hs : Pool.Step _ s l s' ∧ AfterStart s l) =>
    hi.step hs.1 hs.2
  obtain ⟨-, -, hthreads⟩ := h0
  refine ⟨fun i job k code hrun => ?_, fun i j _ => ?_⟩
  · rw [hthreads] at hrun
    cases hrun
  · rw [hthreads]
    exact .idle

theorem begins_code {k : Nat} (hb : Begins k l) (h : Pool.Step timeout s l s') :
    ∃ i code, s.threads i = .idle ∧ code ≠ .done ∧
      s'.threads = Function.update s.threads i (.running .strand k code) := by
  cases hb with
  | @take i io r =>
    cases h with
    | take hidle =>
      refine ⟨i, _, hidle, ?_, rfl⟩
      cases io <;> cases r <;> nofun
  | @takeWait i =>
    cases h with
    | takeWait hidle =>
      refine ⟨i, _, hidle, ?_, rfl⟩
      nofun

/-- A handler that begins too early is inside its session together with `start (false)`. -/
theorem not_exclusive (h : Pool.Step timeout s l s') (hl : ¬AfterStart s l) : ¬s'.Exclusive := by
  simp only [AfterStart, not_forall] at hl
  obtain ⟨k, hb, j, a, code, hthread, hne⟩ := hl
  obtain ⟨i, code', hidle, hne', hthreads⟩ := begins_code hb h
  have hij : j ≠ i := by
    rintro rfl
    rw [hthread] at hidle
    cases hidle
  intro hex
  refine hij (hex j i k ⟨.accept a, code, ?_, hne⟩ ⟨.strand, code', ?_, hne'⟩)
  · rw [hthreads, Function.update_of_ne hij, hthread]
  · rw [hthreads, Function.update_self]

/-- **When echo sessions are serialised.** In every run in which no handler of a session begins
before the `start (false)` of the session has made its calls, no two threads are ever inside one
session, and a step keeps it so exactly when it meets this condition. -/
theorem serial_iff (h : Exec ((pool ι α β timeout).restrict AfterStart) ls s) :
    s.Exclusive ∧ ∀ l s', Pool.Step timeout s l s' → (s'.Exclusive ↔ AfterStart s l) := by
  have hi := pool_serial h
  refine ⟨hi.exclusive, fun l s' hs => ⟨fun hex => ?_, fun hl => (hi.step hs hl).exclusive⟩⟩
  by_contra hl
  exact not_exclusive hs hl hex

/-- The server waits for a client; the threads are idle. -/
def listening : Pool Bool Unit Nat :=
  ⟨fun _ => .waiting, fun _ => fresh, 0, fun _ => .idle, 0⟩

/-- A client is accepted, and `start (false)` has called `async_receive`, with a byte coming in. -/
theorem serial_iff_accepted : ∃ (ls : List (Action Bool Unit Nat)) (s : Pool Bool Unit Nat),
    Exec ((pool Bool Unit Nat 5).restrict AfterStart) ls s ∧ s.Inside false 0 ∧ s.Exclusive ∧
      ∀ s', Pool.Step 5 s (.take true 0 .receive (.ok 1)) s' → ¬s'.Exclusive := by
  have hnow : (0 : Int) ≤ 0 := Int.le_refl 0
  have hchunk : [7] ≠ [] := nofun
  have hlen : [7].length ≤ (List.replicate bufferSize 0).length := by
    rw [List.length_replicate]
    decide
  have h0 : Exec ((pool Bool Unit Nat 5).restrict AfterStart) [] listening :=
    .init ⟨fun _ => rfl, rfl, fun _ => rfl⟩
  have haccept : Pool.Step 5 listening (.accept () none) _ := .accept rfl
  have h1 := h0.snoc ⟨haccept, nofun⟩
  have h2 := h1.snoc ⟨.make (i := false) (a := ()) rfl rfl (fresh_initial 5 false), nofun⟩
  have h3 := h2.snoc ⟨.call (i := false) rfl nofun hnow, nofun⟩
  have h4 := h3.snoc ⟨.io (k := 0) (by decide) (.deliver_head rfl rfl hchunk hlen), nofun⟩
  obtain ⟨hex, hiff⟩ := serial_iff h4
  refine ⟨_, _, h4, ⟨_, _, rfl, nofun⟩, hex, fun s' hs hex' => ?_⟩
  exact nomatch (hiff _ _ hs).1 hex' 0 .take false () _ rfl

/-- The handler of the first receive runs while `start (false)` is about to set the deadline. -/
theorem handler_overtakes_start : ∃ (ls : List (Action Bool Unit Nat)) (s : Pool Bool Unit Nat),
    Exec (pool Bool Unit Nat 5) ls s ∧ s.Inside false 0 ∧ s.Inside true 0 := by
  have hnow : (0 : Int) ≤ 0 := Int.le_refl 0
  have hchunk : [7] ≠ [] := nofun
  have hlen : [7].length ≤ (List.replicate bufferSize 0).length := by
    rw [List.length_replicate]
    decide
  have h0 : Exec (pool Bool Unit Nat 5) [] listening := .init ⟨fun _ => rfl, rfl, fun _ => rfl⟩
  have haccept : Pool.Step 5 listening (.accept () none) _ := .accept rfl
  have h1 := h0.snoc haccept
  have h2 := h1.snoc (.make (i := false) (a := ()) rfl rfl (fresh_initial 5 false))
  have h3 := h2.snoc (.call (i := false) rfl nofun hnow)
  have h4 := h3.snoc (.io (k := 0) (by decide) (.deliver_head rfl rfl hchunk hlen))
  have h5 := h4.snoc (.take (i := true) (k := 0) rfl (by decide) ?_ (.head rfl))
  · exact ⟨_, _, h5, ⟨_, _, rfl, nofun⟩, ⟨_, _, rfl, nofun⟩⟩
  · rintro (_ | _) code <;> nofun

end Echo.Server
