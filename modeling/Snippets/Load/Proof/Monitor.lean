import Snippets.Load.Monitor
import Snippets.Load.Proof.Bookkeeping
import Mathlib.Algebra.Order.BigOperators.Group.Finset
import Mathlib.Algebra.Order.Group.Defs
import Mathlib.Algebra.Order.Group.Int
import Mathlib.Data.Fintype.Prod

/-!
# When the load clients stop by themselves

The monitor counts completed connect attempts against `connections`, and the threads start
`10 * conns` sessions. When 10 divides `connections` these are the same, so that the monitor looks
at `connected` only after every attempt completed (`Counted`); it may still find 0 when the last
session has made its `completed++` and not yet its `connected++`. When 10 does not divide
`connections`, some sessions may still be connecting (`exists_connecting`).
-/

namespace Load

open Lts

variable {p : Program} {connections : Nat} {s s' : Process connections} {e : Event connections}
  {es : List (Event connections)}

/-! ## The sessions of the process -/

/-- What an event means to the sessions. -/
def Event.actions : Event connections → List (Action (Key connections))
  | .session a => [a]
  | _ => []

theorem process_clients {P : Process connections → Event connections → Prop}
    (h : Exec ((process p connections).restrict P) es s) :
    Exec (clients p Prod.fst) (es.flatMap Event.actions) s.clients := by
  refine h.project (A := clients p Prod.fst) (f := Process.clients)
    (fun s (h0 : ((process p connections).restrict P).init s) => h0.1)
    fun s e s' (hstep : Process.Step p s e s' ∧ P s e) => ?_
  cases hstep.1 with
  | session hs => exact .single hs
  | monitor => exact .nil _
  | interrupt => exact .nil _

theorem card_key (connections : Nat) : Fintype.card (Key connections) = 10 * conns connections := by
  rw [Fintype.card_prod, Fintype.card_fin, Fintype.card_fin]

theorem total_of_dvd (h : 10 ∣ connections) : 10 * conns connections = connections := by
  obtain ⟨n, rfl⟩ := h
  rw [conns, Nat.mul_mod_right, if_pos rfl, Nat.mul_div_cancel_left _ (by decide), Nat.add_zero]

theorem lt_total (h : ¬10 ∣ connections) : connections < 10 * conns connections := by
  have hrest : connections % 10 ≠ 0 := fun h0 => h (Nat.dvd_of_mod_eq_zero h0)
  rw [conns, if_neg hrest]
  omega

/-! ## Sessions that are over -/

theorem Session.Over.next {left : List Update} {next : Option Op}
    (h : (Session.running left next).Over) : next = none := by
  cases next with
  | none => rfl
  | some => exact h.elim

theorem Step.over {κ ι : Type*} [DecidableEq κ] {thread : κ → ι} {s s' : State κ} {a : Action κ}
    {k : κ} (hs : Step p thread s a s') (h : (s.sessions k).Over) : (s'.sessions k).Over := by
  have hset : ∀ {j x}, (k = j → Session.Over x) →
      Session.Over (Function.update s.sessions j x k) := by
    intro j x hx
    by_cases hk : k = j
    · subst hk
      rw [Function.update_self]
      exact hx rfl
    · rwa [Function.update_of_ne hk]
  cases hs with
  | start hj | handle hj =>
    refine hset fun hk => ?_
    rw [hk, hj] at h
    exact h.elim
  | @update j u left next hj =>
    refine hset fun hk => ?_
    rw [hk, hj] at h
    obtain rfl := h.next
    trivial
  | @ret j next hj =>
    refine hset fun hk => ?_
    rw [hk, hj] at h
    obtain rfl := h.next
    trivial

/-- A session that has completed and is not, and will not be, counted as connected. -/
theorem Ok.over {us : List Update} {x : Session} (h : Ok us x) (hc : .inc .completed ∈ us)
    (hb : ¬Between us) (hleft : .inc .connected ∉ x.left) : x.Over := by
  cases h with
  | made | connecting => cases hc
  | up _ ht =>
    refine absurd ⟨List.count_pos_iff.1 ?_, List.count_eq_zero.1 ht.down⟩ hb
    rw [ht.up]
    exact Nat.one_pos
  | @busy _ left _ _ ht =>
    have hup := ht.up
    have hdown := ht.down
    have hzero : left.count (.inc .connected) = 0 := List.count_eq_zero.2 hleft
    rw [List.count_append] at hup hdown
    refine absurd ⟨List.count_pos_iff.1 (by omega), List.count_eq_zero.1 (by omega)⟩ hb
  | refused | failing | never | lost => trivial

theorem Ok.not_over {us : List Update} {x : Session} (h : Ok us x)
    (hleft : .inc .connected ∈ x.left) : ¬x.Over := by
  have hpos := List.count_pos_iff.2 hleft
  cases h with
  | made | connecting | up | never | lost => cases hleft
  | busy => exact id
  | refused ht =>
    have hup := ht.up
    rw [List.count_append] at hup
    change 0 < List.count _ _ at hpos
    simp only [Session.left] at hpos
    omega
  | failing hmem ht =>
    have hup := ht.up
    have hpos' := List.count_pos_iff.2 hmem
    rw [List.count_append] at hup
    simp only [Session.left] at hpos
    omega

/-! ## Counting -/

section
variable {κ ι : Type*} [DecidableEq κ] [Fintype κ] {thread : κ → ι} {s s' : State κ}
  {a : Action κ} {ls : List (Action κ)}

theorem Books.completed_mono (hp : p.Lawful) (hi : Books ls s) (hs : Step p thread s a s') :
    s.counters .completed ≤ s'.counters .completed := by
  have hi' := hi.step hp hs
  cases hs with
  | start | handle | ret => exact Int.le_refl _
  | @update k u left next hk =>
    have hdec : .dec .completed ∉ made k (ls ++ [.update k u]) :=
      List.count_eq_zero.1 (hi'.life k).ok.counts.1
    change _ ≤ u.apply s.counters .completed
    rw [apply_eq]
    have hdelta : 0 ≤ u.delta .completed := by
      cases u with
      | inc c =>
        simp only [Update.delta]
        split <;> decide
      | dec c =>
        have hc : c ≠ .completed := by
          rintro rfl
          rw [made_snoc, made_update_self] at hdec
          exact hdec (by simp)
        rw [Update.delta, if_neg hc]
    omega

/-- When as many attempts completed as there are sessions, all did. -/
theorem Books.all_completed (hi : Books ls s) (h : (Fintype.card κ : Int) ≤ s.counters .completed)
    (k : κ) : .inc .completed ∈ made k ls := by
  have hnet : ∀ k, net (made k ls) .completed = (made k ls).count (.inc .completed) := by
    intro k
    rw [net, (hi.life k).ok.counts.1]
    exact Int.sub_zero _
  have hle : ∀ k, net (made k ls) .completed ≤ 1 := by
    intro k
    have hone := (hi.life k).ok.once
    rw [List.count_append] at hone
    rw [hnet]
    omega
  by_contra hk
  have hlt : ∑ k, net (made k ls) .completed < ∑ _k : κ, (1 : Int) := by
    refine Finset.sum_lt_sum (fun k _ => hle k) ⟨k, Finset.mem_univ k, ?_⟩
    rw [hnet, List.count_eq_zero.2 hk]
    decide
  rw [← hi.sum, Finset.sum_const, Finset.card_univ, nsmul_one] at hlt
  omega

theorem Books.none_between (hi : Books ls s) (h : s.counters .connected = 0) (k : κ) :
    ¬Between (made k ls) := by
  rw [hi.connected, Int.natCast_eq_zero, Finset.card_eq_zero] at h
  exact (Finset.filter_eq_empty_iff.1 h) (Finset.mem_univ k)

end

/-- The monitor has left its first loop, and not because of `stop`. -/
def Monitor.After (stop : Bool) : Monitor → Prop
  | .established₁ | .established₂ | .established => stop = false
  | .active | .connected | .stopping | .now | .active₁ | .active₂ => True
  | _ => False

/-- The first loop ends when `completed` is not below `connections`. -/
def Counted (s : Process connections) : Prop :=
  s.monitor.After s.stop → (connections : Int) ≤ s.clients.counters .completed

theorem Monitor.after_next {m : Monitor} {stop : Bool} {counters : Counter → Int}
    (h : m.After stop → (connections : Int) ≤ counters .completed) :
    (m.next connections stop counters).After (stop || m == .stopping) →
      (connections : Int) ≤ counters .completed := by
  cases m with
  | connecting => cases stop <;> exact nofun
  | completed =>
    simp only [Monitor.next]
    split
    · exact False.elim
    · intro _
      omega
  | progress | stopping | total | total₁ | total₂ | returned => exact False.elim
  | established₁ | established₂ => cases stop <;> exact h
  | established =>
    cases stop with
    | false => exact fun _ => h rfl
    | true => exact False.elim
  | active =>
    cases stop with
    | false => exact fun _ => h trivial
    | true => exact False.elim
  | connected | now | active₁ | active₂ => exact fun _ => h trivial

theorem Monitor.of_next_stopping {m : Monitor} {stop : Bool} {counters : Counter → Int}
    (h : m.next connections stop counters = .stopping) :
    m = .connected ∧ counters .connected = 0 := by
  revert h
  cases m with
  | connected =>
    simp only [Monitor.next]
    split
    · exact fun _ => ⟨trivial, by assumption⟩
    · nofun
  | connecting | completed | established | active =>
    simp only [Monitor.next]
    split <;> nofun
  | _ => nofun

theorem Monitor.after_interrupt {m : Monitor} (stop : Bool) (h : m.After true) : m.After stop := by
  cases m <;> first | exact h | exact nomatch h

theorem process_counted {P : Process connections → Event connections → Prop} (hp : p.Lawful)
    (h : Exec ((process p connections).restrict P) es s) : Counted s := by
  refine h.trace_invariant (I := fun _ s => Counted s)
    (fun s (h0 : ((process p connections).restrict P).init s) => ?_)
    fun es s e s' h hi (hstep : Process.Step p s e s' ∧ P s e) => ?_
  · unfold Counted
    rw [h0.2.1]
    exact False.elim
  · cases hstep.1 with
    | session hs =>
      exact fun hafter => Int.le_trans (hi hafter)
        ((clients_books hp (process_clients h)).completed_mono hp hs)
    | monitor => exact Monitor.after_next hi
    | interrupt => exact fun hafter => hi (Monitor.after_interrupt _ hafter)

/-! ## The moment of `stop = true` -/

/-- The monitor reads 0 from `connected` when no session is about to add itself. -/
theorem over_of_zero {P : Process connections → Event connections → Prop} (hp : p.Lawful)
    (hd : 10 ∣ connections) (h : Exec ((process p connections).restrict P) es s)
    (hmonitor : s.monitor = .connected) (hzero : s.clients.counters .connected = 0)
    (hnone : ∀ k, .inc .connected ∉ (s.clients.sessions k).left) (k : Key connections) :
    (s.clients.sessions k).Over := by
  have hbooks := clients_books hp (process_clients h)
  have hcounted := process_counted hp h
  unfold Counted at hcounted
  rw [hmonitor] at hcounted
  have hall := hbooks.all_completed (by
    rw [card_key, total_of_dvd hd]
    exact hcounted trivial) k
  exact (hbooks.life k).ok.over hall (hbooks.none_between hzero k) (hnone k)

theorem process_safe (hp : p.Lawful) (hd : 10 ∣ connections)
    (h : Exec ((process p connections).restrict NoneArriving) es s) : s.Safe := by
  refine h.trace_invariant (I := fun _ s => s.Safe)
    (fun s (h0 : ((process p connections).restrict NoneArriving).init s) => ?_)
    fun es s e s' h hi (hstep : Process.Step p s e s' ∧ NoneArriving s e) => ?_
  · intro hstop
    rw [h0.2.1] at hstop
    cases hstop
  · obtain ⟨hs, hnone⟩ := hstep
    cases hs with
    | session hs => exact fun hstop k => hs.over (hi hstop k)
    | interrupt => exact hi
    | monitor =>
      intro hstop k
      have hread := Monitor.of_next_stopping hstop
      exact over_of_zero hp hd h hread.1 hread.2 (hnone rfl hread.1 hread.2) k

/-! ## Runs in which the monitor stops too early -/

theorem Source.connect_eq (src : Source) (error : Bool) :
    src.program.connect error = Client.handleConnect error := by
  cases src <;> rfl

section
variable {κ ι : Type*} [DecidableEq κ] {thread : κ → ι} {s : State κ} {k : κ}

/-- The sessions `T` are started. -/
theorem exists_started (p : Program) (thread : κ → ι) (T : Finset κ)
    (hmade : ∀ k ∈ T, s.sessions k = .made) : ∃ ls s', Run (clients p thread) s ls s' ∧
      (∀ k ∈ T, s'.sessions k = .pending .connect) ∧
      (∀ k, k ∉ T → s'.sessions k = s.sessions k) ∧ s'.counters = s.counters := by
  induction T using Finset.induction_on with
  | empty => exact ⟨[], s, .nil s, nofun, fun _ _ => rfl, rfl⟩
  | insert k T hk ih =>
    obtain ⟨ls, s', hrun, hT, hother, hcounters⟩ :=
      ih fun j hj => hmade j (Finset.mem_insert_of_mem hj)
    have hk' : s'.sessions k = .made :=
      (hother k hk).trans (hmade k (Finset.mem_insert_self k T))
    refine ⟨_, _, hrun.snoc (.start hk'), fun j hj => ?_, fun j hj => ?_, hcounters⟩
    · by_cases h : j = k
      · exact h ▸ Function.update_self ..
      · exact (Function.update_of_ne h ..).trans (hT j (Finset.mem_of_mem_insert_of_ne hj h))
    · rw [Finset.mem_insert, not_or] at hj
      exact (Function.update_of_ne hj.1 ..).trans (hother j hj.2)

/-- Session `k` is refused. -/
theorem exists_refused (src : Source) (hk : s.sessions k = .pending .connect)
    (hfree : s.Free thread (thread k)) : ∃ ls s', Run (clients src.program thread) s ls s' ∧
      s'.sessions = Function.update s.sessions k .ended ∧
      s'.counters .completed = s.counters .completed + 1 ∧
      s'.counters .connected = s.counters .connected := by
  have hconnect : src.program.handle true true .connect = ⟨[.inc .completed, .inc .failed], none⟩ :=
    src.connect_eq true
  have h1 : Step src.program thread s (.handle k .connect true true) _ := .handle hk hfree
  rw [hconnect] at h1
  have h2 := (Run.single (M := clients src.program thread) h1).snoc
    (.update (k := k) (Function.update_self ..))
  have h3 := h2.snoc (.update (k := k) (Function.update_self ..))
  have h4 := h3.snoc (.ret (k := k) (Function.update_self ..))
  refine ⟨_, _, h4, ?_, rfl, rfl⟩
  simp only [State.set, Function.update_idem, Session.goOn]

/-- The sessions `T` are refused. -/
theorem exists_all_refused (src : Source) (thread : κ → ι) (T : Finset κ)
    (hstarted : ∀ k, s.sessions k = .pending .connect) :
    ∃ ls s', Run (clients src.program thread) s ls s' ∧ (∀ k ∈ T, s'.sessions k = .ended) ∧
      (∀ k, k ∉ T → s'.sessions k = .pending .connect) ∧
      s'.counters .completed = s.counters .completed + T.card ∧
      s'.counters .connected = s.counters .connected := by
  induction T using Finset.induction_on with
  | empty => exact ⟨[], s, .nil s, nofun, fun k _ => hstarted k, by simp, rfl⟩
  | insert k T hk ih =>
    obtain ⟨ls, s', hrun, hT, hother, hcompleted, hconnected⟩ := ih
    have hfree : s'.Free thread (thread k) := by
      intro j _
      by_cases hj : j ∈ T
      · rw [hT j hj]
        exact ⟨nofun, nofun⟩
      · rw [hother j hj]
        exact ⟨nofun, nofun⟩
    obtain ⟨ls', s'', hrun', hset, hcompleted', hconnected'⟩ :=
      exists_refused src (hother k hk) hfree
    refine ⟨_, s'', hrun.append hrun', fun j hj => ?_, fun j hj => ?_, ?_,
      hconnected'.trans hconnected⟩
    · rw [hset]
      by_cases h : j = k
      · exact h ▸ Function.update_self ..
      · exact (Function.update_of_ne h ..).trans (hT j (Finset.mem_of_mem_insert_of_ne hj h))
    · rw [Finset.mem_insert, not_or] at hj
      rw [hset]
      exact (Function.update_of_ne hj.1 ..).trans (hother j hj.2)
    · rw [hcompleted', hcompleted, Finset.card_insert_of_notMem hk, Nat.cast_succ]
      exact Int.add_assoc ..

end

section
variable {P : Process connections → Event connections → Prop} {c c' : State (Key connections)}

theorem run_session (hP : ∀ s a, P s (.session a)) {ls : List (Action (Key connections))}
    (h : Run (clients p Prod.fst) c ls c') (m : Monitor) (stop : Bool) :
    Run ((process p connections).restrict P) ⟨c, m, stop⟩ (ls.map .session) ⟨c', m, stop⟩ := by
  induction h with
  | nil => exact .nil _
  | snoc _ hs ih =>
    rw [List.map_append]
    exact ih.snoc ⟨.session hs, hP _ _⟩

/-- The monitor goes through its first loop and finds `connected` to be 0. -/
theorem exists_stopping (hP : ∀ m, P ⟨c, m, false⟩ .monitor)
    (hcompleted : (connections : Int) ≤ c.counters .completed) (hzero : c.counters .connected = 0) :
    ∃ es, Run ((process p connections).restrict P) ⟨c, .connecting, false⟩ es
      ⟨c, .stopping, false⟩ := by
  have hgo : ∀ m m', m ≠ .returned → m ≠ .stopping → m.next connections false c.counters = m' →
      ((process p connections).restrict P).step ⟨c, m, false⟩ .monitor ⟨c, m', false⟩ := by
    rintro m m' hm hm' rfl
    refine ⟨?_, hP m⟩
    have hs : Process.Step p (⟨c, m, false⟩ : Process connections) .monitor _ := .monitor hm
    have hstop : (m == Monitor.stopping) = false := beq_eq_false_iff_ne.2 hm'
    rwa [show (false || m == Monitor.stopping) = false from hstop] at hs
  have h1 := Run.single (hgo .connecting .completed nofun nofun rfl)
  have h2 := h1.snoc (hgo .completed .established₁ nofun nofun (if_neg (by omega)))
  have h3 := h2.snoc (hgo .established₁ .established₂ nofun nofun rfl)
  have h4 := h3.snoc (hgo .established₂ .established nofun nofun rfl)
  have h5 := h4.snoc (hgo .established .active nofun nofun rfl)
  have h6 := h5.snoc (hgo .active .connected nofun nofun rfl)
  exact ⟨_, h6.snoc (hgo .connected .stopping nofun nofun (if_pos hzero))⟩

end

/-- A load client before its threads run. -/
def launched (connections : Nat) : Process connections :=
  ⟨⟨fun _ => .made, fun _ => 0⟩, .connecting, false⟩

/-- All sessions are started, and the sessions `T` are refused. -/
theorem exists_some_refused (src : Source) (T : Finset (Key connections)) :
    ∃ ls c, Run (clients src.program Prod.fst) (launched connections).clients ls c ∧
      (∀ k ∈ T, c.sessions k = .ended) ∧ (∀ k, k ∉ T → c.sessions k = .pending .connect) ∧
      c.counters .completed = T.card ∧ c.counters .connected = 0 := by
  obtain ⟨ls, c, hrun, hstarted, -, hcounters⟩ := exists_started
    (s := (launched connections).clients) src.program Prod.fst Finset.univ fun _ _ => rfl
  obtain ⟨ls', c', hrun', hT, hother, hcompleted, hconnected⟩ :=
    exists_all_refused src Prod.fst T fun k => hstarted k (Finset.mem_univ k)
  rw [hcounters] at hcompleted hconnected
  exact ⟨_, c', hrun.append hrun', hT, hother, hcompleted.trans (Int.zero_add _), hconnected⟩

/-- More sessions than `connections`: the others are still connecting. -/
theorem exists_connecting (src : Source) (hd : ¬10 ∣ connections) :
    ∃ es s, Exec ((process src.program connections).restrict NoneArriving) es s ∧ ¬s.Safe := by
  have hlt : connections < (Finset.univ : Finset (Key connections)).card := by
    rw [Finset.card_univ, card_key]
    exact lt_total hd
  obtain ⟨T, -, hcard⟩ := Finset.exists_subset_card_eq (Nat.le_of_lt hlt)
  have hmore : T.card < (Finset.univ : Finset (Key connections)).card := by omega
  obtain ⟨k, -, hk⟩ := Finset.exists_mem_notMem_of_card_lt_card hmore
  obtain ⟨ls, c, hrun, hT, hother, hcompleted, hzero⟩ := exists_some_refused src T
  have hnone : ∀ m, NoneArriving (⟨c, m, false⟩ : Process connections) .monitor := by
    intro m _ _ _ j
    by_cases hj : j ∈ T
    · rw [hT j hj]
      nofun
    · rw [hother j hj]
      nofun
  obtain ⟨es, hrun'⟩ := exists_stopping (p := src.program) hnone
    (by rw [hcompleted, hcard]) hzero
  have h0 : Exec ((process src.program connections).restrict NoneArriving) []
      (launched connections) := .init ⟨⟨fun _ => rfl, fun _ => rfl⟩, rfl, rfl⟩
  refine ⟨_, _, (h0.append (run_session (fun _ _ => nofun) hrun _ _)).append hrun', fun hsafe => ?_⟩
  have hover := hsafe rfl k
  rw [hother k hk] at hover
  exact hover

/-- The last session to complete has not added itself yet. -/
theorem exists_arriving (src : Source) (hpos : 0 < connections) :
    ∃ es s, Exec (process src.program connections) es s ∧ ¬s.Safe := by
  have hle : connections ≤ (Finset.univ : Finset (Key connections)).card := by
    rw [Finset.card_univ, card_key]
    by_cases hd : 10 ∣ connections
    · exact Nat.le_of_eq (total_of_dvd hd).symm
    · exact Nat.le_of_lt (lt_total hd)
  obtain ⟨T, -, hcard⟩ := Finset.exists_subset_card_eq (Nat.le_trans (Nat.sub_le connections 1) hle)
  have hlt : T.card < (Finset.univ : Finset (Key connections)).card := by omega
  obtain ⟨k, -, hk⟩ := Finset.exists_mem_notMem_of_card_lt_card hlt
  obtain ⟨ls, c, hrun, hT, hother, hcompleted, hzero⟩ := exists_some_refused src T
  have hfree : c.Free Prod.fst k.1 := by
    intro j _
    by_cases hj : j ∈ T
    · rw [hT j hj]
      exact ⟨nofun, nofun⟩
    · rw [hother j hj]
      exact ⟨nofun, nofun⟩
  have hconnect : src.program.handle false true .connect =
      ⟨[.inc .completed, .inc .connected], some .write⟩ := src.connect_eq false
  have h1 : Step src.program Prod.fst c (.handle k .connect false true) _ :=
    .handle (hother k hk) hfree
  rw [hconnect] at h1
  have h2 := (hrun.snoc h1).snoc (.update (k := k) (Function.update_self ..))
  obtain ⟨es, hrun'⟩ := exists_stopping (p := src.program) (P := fun _ _ => True)
    (fun _ => trivial) (c := { (c.set k (.running [.inc .completed, .inc .connected]
      (some .write))).set k (.running [.inc .connected] (some .write)) with
      counters := (Update.inc .completed).apply c.counters })
    (by
      change (connections : Int) ≤ c.counters .completed + 1
      rw [hcompleted, hcard]
      omega) hzero
  have h0 : Exec ((process src.program connections).restrict fun _ _ => True) []
      (launched connections) := .init ⟨⟨fun _ => rfl, fun _ => rfl⟩, rfl, rfl⟩
  refine ⟨_, _, ((h0.append (run_session (fun _ _ => trivial) h2 _ _)).append hrun').of_restrict,
    fun hsafe => ?_⟩
  have hover := hsafe rfl k
  rw [show State.sessions _ k = .running [.inc .connected] (some .write) from
    Function.update_self ..] at hover
  exact hover

/-! ## The result -/

/-- **When the load clients stop by themselves only at the end.** Exactly when 10 divides
`connections`, every run in which the monitor does not read 0 from `connected` while a session is
about to add itself is such that all sessions are over when the monitor sets `stop`, and a step
keeps it so if and only if it meets that condition. -/
theorem stops_when_over_iff (src : Source) (connections : Nat) :
    (∀ es s, Exec ((process src.program connections).restrict NoneArriving) es s → s.Safe ∧
      ∀ e s', Process.Step src.program s e s' → (s'.Safe ↔ NoneArriving s e)) ↔
    10 ∣ connections := by
  constructor
  · intro h
    by_contra hd
    obtain ⟨es, s, hexec, hsafe⟩ := exists_connecting src hd
    exact hsafe (h es s hexec).1
  · intro hd es s h
    refine ⟨process_safe src.lawful hd h, fun e s' hs => ⟨fun hsafe => ?_, fun hn =>
      process_safe src.lawful hd (h.snoc ⟨hs, hn⟩)⟩⟩
    rintro rfl hmonitor hzero k hk
    have hbooks := clients_books src.lawful (process_clients h)
    cases hs
    have hnext : s.monitor.next connections s.stop s.clients.counters = .stopping := by
      rw [hmonitor]
      exact if_pos hzero
    exact (hbooks.life k).ok.not_over hk (hsafe hnext k)

/-- With one connection ten sessions are started, and with ten the last may be about to add itself:
the monitor stops while a session is connecting, or has just connected. -/
theorem stops_too_early : (∃ es s, Exec (process Client.program 1) es s ∧ ¬s.Safe) ∧
    ∃ es s, Exec (process Client.program 10) es s ∧ ¬s.Safe := by
  have hone : ¬10 ∣ 1 := by decide
  obtain ⟨es, s, h, hsafe⟩ := exists_connecting .client hone
  exact ⟨⟨es, s, h.of_restrict, hsafe⟩, exists_arriving .client (by decide)⟩

end Load
