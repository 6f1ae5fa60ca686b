import Snippets.Lib.Threads
import Snippets.Load.Main
import Snippets.Load.Proof.Monitor

/-!
# How the load clients shut down

Every execution of the program is one of its sessions and its monitor (`execution_process`). `Inv`
says which threads are started, stopped and joined by where `main` is, and which sessions can be in
a handler by where their thread is. Once `stop` is set each step of the program's own lowers
`Execution.left`, except that a thread may take up a handler while its context is not stopped.
-/

namespace Load

open Lts Threads

variable {p : Program} {connections : Nat} {s s' : Execution connections}
  {l : Execution.Label connections} {ls : List (Execution.Label connections)}

/-! ## The sessions and the monitor -/

theorem Execution.Step.events (hs : Execution.Step p s l s') :
    Run (Load.process p connections) s.process l.event s'.process := by
  cases hs with
  | start _ hs | handle _ _ hs | update _ hs | ret _ hs => exact .single (.session hs)
  | monitor _ hs | interrupt hs => exact .single hs
  | spawn | spawnMonitor | sleep | wake | stop | stopped | join | joinMonitor => exact .nil _
  | fail | run | finish => exact .nil _

theorem execution_process (h : Exec (execution p connections) ls s) :
    Exec (process p connections) (ls.flatMap Execution.Label.event) s.process :=
  h.project (A := process p connections) (f := Execution.process)
    (fun s (h0 : (execution p connections).init s) => h0.1)
    fun _ _ _ (hs : Execution.Step p _ _ _) => hs.events

/-- When no session is in a handler, every attempt that completed is connected or failed. -/
theorem execution_balance (hp : p.Lawful) (h : Exec (execution p connections) ls s)
    (hquiet : ∀ k left next, s.process.clients.sessions k ≠ .running left next) :
    s.process.clients.counters .completed =
      s.process.clients.counters .connected + s.process.clients.counters .failed := by
  have hi := clients_books hp (process_clients (execution_process h).restrict_true)
  rw [hi.sum, hi.sum, hi.sum, ← Finset.sum_add_distrib]
  exact Finset.sum_congr rfl fun k _ => (hi.life k).ok.balance (hquiet k)

/-! ## Where `main` and the threads are -/

/-- A handler updates at most two counters. -/
def Program.Short (p : Program) : Prop :=
  ∀ error equal op, (p.handle error equal op).updates.length ≤ 2

theorem Source.short (src : Source) : src.program.Short := by
  intro error equal op
  cases src <;> cases op <;> cases error <;> cases equal <;> decide

/-- The threads that are started. -/
def Main.spawned : Main → Nat
  | .spawning i => i
  | _ => 10

/-- The contexts that are stopped. -/
def Main.stopped : Main → Nat
  | .spawning _ | .sleeping => 0
  | .stopping i => i
  | .joining _ | .returned => 10

/-- The threads that are joined. -/
def Main.joined : Main → Nat
  | .joining i => i
  | .returned => 10
  | _ => 0

/-- The session in place `j` of a thread's loop fits where the thread is. -/
def Thread.Fits (j : Nat) (x : Session) : Thread → Prop
  | .unspawned => x = .made
  | .starting i => (i ≤ j → x = .made) ∧ ∀ us next, x ≠ .running us next
  | .running => ∀ us next, x = .running us next → us.length ≤ 2
  | .returned => ∀ us next, x ≠ .running us next

/-- What holds in every reachable state: where `main` is tells which threads are started and joined
and which contexts are stopped, and the sessions of a thread fit where it is. -/
structure Execution.Inv (s : Execution connections) : Prop where
  main : s.main.spawned ≤ 10 ∧ s.main.stopped ≤ 10 ∧ s.main.joined ≤ 10
  spawned : ∀ i, s.threads i = .unspawned ↔ s.main.spawned ≤ i
  stopped : ∀ i, i.1 < s.main.stopped → s.stopped i = true
  joined : ∀ i, i.1 < s.main.joined → s.threads i = .returned
  monitor : s.main = .returned → s.process.monitor = .returned
  starting : ∀ i j, s.threads i = .starting j → j ≤ conns connections
  fits : ∀ k, (s.threads k.1).Fits k.2 (s.process.clients.sessions k)

namespace Execution

theorem Inv.thread {i : Fin 10} {t : Thread} (hi : s.Inv) (hmain : s'.main = s.main)
    (hstopped : s'.stopped = s.stopped) (hmonitor : s'.process.monitor = s.process.monitor)
    (hthreads : s'.threads = Function.update s.threads i t)
    (hother : ∀ k, k.1 ≠ i → s'.process.clients.sessions k = s.process.clients.sessions k)
    (hlive : s.threads i ≠ .unspawned ∧ s.threads i ≠ .returned) (ht : t ≠ .unspawned)
    (hstart : ∀ j, t = .starting j → j ≤ conns connections)
    (hfits : ∀ j : Fin (conns connections), t.Fits j (s'.process.clients.sessions (i, j))) :
    s'.Inv := by
  have hself : s'.threads i = t := by rw [hthreads, Function.update_self]
  have hne : ∀ j, j ≠ i → s'.threads j = s.threads j := fun j hj => by
    rw [hthreads, Function.update_of_ne hj]
  refine ⟨hmain ▸ hi.main, fun j => ?_, ?_, fun j hj => ?_, ?_, fun j n hj => ?_, fun k => ?_⟩
  · rw [hmain, ← hi.spawned j]
    by_cases hij : j = i
    · subst hij
      exact ⟨fun h => absurd (hself ▸ h) ht, fun h => absurd h hlive.1⟩
    · rw [hne j hij]
  · rw [hmain, hstopped]
    exact hi.stopped
  · rw [hmain] at hj
    have hret := hi.joined j hj
    rw [hne j fun hij => hlive.2 (hij ▸ hret), hret]
  · rw [hmain, hmonitor]
    exact hi.monitor
  · by_cases hij : j = i
    · subst hij
      exact hstart n (hself ▸ hj)
    · exact hi.starting j n (hne j hij ▸ hj)
  · by_cases hk : k.1 = i
    · obtain ⟨k₁, k₂⟩ := k
      subst hk
      rw [hself]
      exact hfits k₂
    · rw [hother k hk, hne k.1 hk]
      exact hi.fits k

theorem Inv.session {k : Key connections} {clients : State (Key connections)} {x : Session}
    (hi : s.Inv) (hk : s.threads k.1 = .running)
    (hset : clients.sessions = Function.update s.process.clients.sessions k x)
    (hx : ∀ us next, x = .running us next → us.length ≤ 2) :
    Inv { s with process := { s.process with clients := clients } } := by
  refine hi.thread (i := k.1) (t := .running) rfl rfl rfl (by rw [← hk, Function.update_eq_self])
    (fun k' hk' => ?_) (by rw [hk]; exact ⟨nofun, nofun⟩) nofun nofun fun j => ?_
  · rw [hset, Function.update_of_ne fun h => hk' (congrArg Prod.fst h)]
  · change ∀ us next, clients.sessions (k.1, j) = .running us next → us.length ≤ 2
    rw [hset]
    by_cases hj : (k.1, j) = k
    · rw [hj, Function.update_self]
      exact hx
    · rw [Function.update_of_ne hj]
      have hfit := hi.fits (k.1, j)
      rwa [hk] at hfit

theorem Inv.goOn {m : Main} {stopped : Fin 10 → Bool} (hi : s.Inv)
    (hmain : m.spawned ≤ 10 ∧ m.stopped ≤ 10 ∧ m.joined ≤ 10)
    (hspawned : m.spawned = s.main.spawned) (hstopped : ∀ i, i.1 < m.stopped → stopped i = true)
    (hjoined : ∀ i, i.1 < m.joined → s.threads i = .returned)
    (hmonitor : m = .returned → s.process.monitor = .returned) :
    Inv { s with main := m, stopped := stopped } :=
  ⟨hmain, fun i => hspawned ▸ hi.spawned i, hstopped, hjoined, hmonitor, hi.starting, hi.fits⟩

theorem Inv.spawn {i : Fin 10} (hi : s.Inv) (hm : s.main = .spawning i) :
    Inv { s.setThread i (.starting 0) with main := .spawning (i + 1) } := by
  have hfresh : s.threads i = .unspawned := (hi.spawned i).2 (by rw [hm]; exact Nat.le_refl _)
  have hself : Function.update s.threads i (.starting 0) i = .starting 0 := Function.update_self ..
  have hne : ∀ j, j ≠ i → Function.update s.threads i (.starting 0) j = s.threads j :=
    fun j hj => Function.update_of_ne hj ..
  refine ⟨⟨i.isLt, Nat.zero_le _, Nat.zero_le _⟩, fun j => ?_,
    fun j hj => absurd hj (Nat.not_lt_zero _), fun j hj => absurd hj (Nat.not_lt_zero _), nofun,
    fun j n hj => ?_, fun k => ?_⟩
  · change Function.update s.threads i (.starting 0) j = .unspawned ↔ i.1 + 1 ≤ j.1
    by_cases hij : j = i
    · subst hij
      rw [hself]
      exact ⟨nofun, fun h => absurd h (Nat.not_succ_le_self _)⟩
    · have hval : j.1 ≠ i.1 := fun h => hij (Fin.ext h)
      rw [hne j hij, hi.spawned j, hm]
      exact ⟨fun h => Nat.lt_of_le_of_ne h hval.symm, Nat.le_of_lt⟩
  · change Function.update s.threads i (.starting 0) j = _ at hj
    by_cases hij : j = i
    · subst hij
      obtain rfl := Thread.starting.inj (hself.symm.trans hj)
      exact Nat.zero_le _
    · exact hi.starting j n ((hne j hij).symm.trans hj)
  · change (Function.update s.threads i (.starting 0) k.1).Fits k.2 (s.process.clients.sessions k)
    have hfit := hi.fits k
    by_cases hk : k.1 = i
    · rw [hk, hfresh] at hfit
      rw [hk, hself, show s.process.clients.sessions k = .made from hfit]
      exact ⟨fun _ => rfl, nofun⟩
    · rwa [hne k.1 hk]

theorem Inv.start {i : Fin 10} {j : Fin (conns connections)} {clients : State (Key connections)}
    (hi : s.Inv) (ht : s.threads i = .starting j)
    (hs : Load.Step p Prod.fst s.process.clients (.start (i, j)) clients) :
    Inv { s.setThread i (.starting (j + 1)) with
      process := { s.process with clients := clients } } := by
  have hset : clients.sessions =
      Function.update s.process.clients.sessions (i, j) (.pending .connect) := by
    cases hs with
    | start => rfl
  refine hi.thread (i := i) (t := .starting (j + 1)) rfl rfl rfl rfl (fun k hk => ?_)
    (by rw [ht]; exact ⟨nofun, nofun⟩) nofun (fun n hn => ?_) fun n => ?_
  · rw [hset, Function.update_of_ne fun h => hk (congrArg Prod.fst h)]
  · obtain rfl := Thread.starting.inj hn
    exact j.isLt
  · change (j.1 + 1 ≤ n.1 → clients.sessions (i, n) = .made) ∧
      ∀ us next, clients.sessions (i, n) ≠ .running us next
    have hfit := hi.fits (i, n)
    rw [ht] at hfit
    rw [hset]
    by_cases hn : n = j
    · subst hn
      rw [Function.update_self]
      exact ⟨fun h => absurd h (Nat.not_succ_le_self _), nofun⟩
    · rw [Function.update_of_ne fun h => hn (congrArg Prod.snd h)]
      exact ⟨fun h => hfit.1 (Nat.le_of_succ_le h), hfit.2⟩

theorem Inv.step (hp : p.Short) (hi : s.Inv) (hs : Step p s l s') : s'.Inv := by
  cases hs with
  | spawn hm => exact hi.spawn hm
  | spawnMonitor hm =>
    refine hi.goOn (m := .sleeping) ⟨Nat.le_refl _, Nat.zero_le _, Nat.zero_le _⟩ (hm ▸ rfl)
      (fun _ => nofun) (fun _ => nofun) nofun
  | sleep => exact hi
  | wake hm _ =>
    refine hi.goOn (m := .stopping 0) ⟨Nat.le_refl _, Nat.zero_le _, Nat.zero_le _⟩ (hm ▸ rfl)
      (fun _ => nofun) (fun _ => nofun) nofun
  | @stop i hm =>
    refine hi.goOn (m := .stopping (i + 1)) ⟨Nat.le_refl _, i.isLt, Nat.zero_le _⟩ (hm ▸ rfl)
      (fun j hj => ?_) (fun _ => nofun) nofun
    by_cases hij : j = i
    · rw [hij, Function.update_self]
    · have hlt : j.1 < i.1 :=
        Nat.lt_of_le_of_ne (Nat.le_of_lt_succ hj) fun h => hij (Fin.ext h)
      rw [Function.update_of_ne hij]
      exact hi.stopped j (hm ▸ hlt)
  | stopped hm =>
    exact hi.goOn (m := .joining 0) ⟨Nat.le_refl _, Nat.le_refl _, Nat.zero_le _⟩ (hm ▸ rfl)
      (fun j hj => hi.stopped j (hm ▸ hj)) (fun _ => nofun) nofun
  | @join i hm hret =>
    refine hi.goOn (m := .joining (i + 1)) ⟨Nat.le_refl _, Nat.le_refl _, i.isLt⟩ (hm ▸ rfl)
      (fun j hj => hi.stopped j (hm ▸ hj)) (fun j hj => ?_) nofun
    rcases Nat.lt_or_eq_of_le (Nat.le_of_lt_succ hj) with hlt | heq
    · exact hi.joined j (hm ▸ hlt)
    · rwa [Fin.ext heq]
  | joinMonitor hm hret =>
    exact hi.goOn (m := .returned) ⟨Nat.le_refl _, Nat.le_refl _, Nat.le_refl _⟩ (hm ▸ rfl)
      (fun j hj => hi.stopped j (hm ▸ hj)) (fun j hj => hi.joined j (hm ▸ hj)) fun _ => hret
  | start ht hs => exact hi.start ht hs
  | @fail i j ht _ =>
    refine hi.thread (i := i) (t := .returned) rfl rfl rfl rfl (fun _ _ => rfl)
      (by rw [ht]; exact ⟨nofun, nofun⟩) nofun nofun fun n => ?_
    have hfit := hi.fits (i, n)
    rw [ht] at hfit
    exact hfit.2
  | @run i ht =>
    refine hi.thread (i := i) (t := .running) rfl rfl rfl rfl (fun _ _ => rfl)
      (by rw [ht]; exact ⟨nofun, nofun⟩) nofun nofun fun n us next hn => ?_
    have hfit := hi.fits (i, n)
    rw [ht] at hfit
    exact absurd hn (hfit.2 us next)
  | @finish i ht hb _ =>
    exact hi.thread (i := i) (t := .returned) rfl rfl rfl rfl (fun _ _ => rfl)
      (by rw [ht]; exact ⟨nofun, nofun⟩) nofun nofun hb
  | @handle k op error equal clients ht _ hs =>
    cases hs with
    | handle =>
      refine hi.session ht rfl fun us next hx => ?_
      obtain ⟨rfl, -⟩ := Session.running.inj hx
      exact hp error equal op
  | @update k u clients ht hs =>
    cases hs with
    | @update _ _ left next hk =>
      refine hi.session ht rfl fun us next' hx => ?_
      obtain ⟨rfl, -⟩ := Session.running.inj hx
      have hfit := hi.fits k
      rw [ht] at hfit
      exact Nat.le_of_succ_le (hfit _ _ hk)
  | @ret k clients ht hs =>
    cases hs with
    | @ret _ next =>
      exact hi.session ht rfl fun us next' hx => by cases next <;> cases hx
  | monitor _ hs =>
    cases hs with
    | monitor hm =>
      exact ⟨hi.main, hi.spawned, hi.stopped, hi.joined, fun h => absurd (hi.monitor h) hm,
        hi.starting, hi.fits⟩
  | interrupt hs =>
    cases hs with
    | interrupt =>
      exact ⟨hi.main, hi.spawned, hi.stopped, hi.joined, hi.monitor, hi.starting, hi.fits⟩

theorem Inv.init (h : (execution p connections).init s) : s.Inv := by
  obtain ⟨⟨⟨hmade, -⟩, -⟩, hmain, hthreads, -⟩ := h
  refine ⟨?_, fun i => ?_, fun i hi => ?_, fun i hi => ?_, fun h => ?_, fun i j h => ?_,
    fun k => ?_⟩
  · rw [hmain]
    exact ⟨Nat.zero_le _, Nat.zero_le _, Nat.zero_le _⟩
  · rw [hmain, hthreads]
    exact ⟨fun _ => Nat.zero_le _, fun _ => rfl⟩
  · exact absurd (hmain ▸ hi) (Nat.not_lt_zero _)
  · exact absurd (hmain ▸ hi) (Nat.not_lt_zero _)
  · cases hmain.symm.trans h
  · cases (hthreads i).symm.trans h
  · rw [hthreads]
    exact hmade k

theorem Inv.exec (hp : p.Short) (h : Exec (execution p connections) ls s) : s.Inv :=
  h.invariant (fun _ => Inv.init) fun _ _ _ hi hs => hi.step hp hs

end Execution

/-! ## What is left to do -/

/-- The steps that `main` takes once `stop` is set. -/
def Main.left : Main → Nat
  | .spawning i => 34 - i
  | .sleeping => 23
  | .stopping i => 22 - i
  | .joining i => 11 - i
  | .returned => 0

/-- The steps that the monitor takes once `stop` is set, at most. -/
def Monitor.left : Monitor → Nat
  | .returned => 0
  | .total₂ | .established => 1
  | .total₁ | .established₂ => 2
  | .total | .established₁ => 3
  | .active | .stopping | .connecting => 4
  | .active₂ | .progress => 5
  | .active₁ | .completed => 6
  | .now => 7
  | .connected => 8

/-- The steps of a thread, apart from its handlers. -/
def Thread.left (connections : Nat) : Thread → Nat
  | .unspawned => conns connections + 2
  | .starting j => conns connections + 2 - j
  | .running => 1
  | .returned => 0

/-- The steps of the handler that the session is in. -/
def Session.toGo : Session → Nat
  | .running us _ => us.length + 1
  | _ => 0

/-- The steps that are left of `main`, of the monitor, and of the threads with the handlers that
they are in. -/
def Execution.left (s : Execution connections) : Nat :=
  s.main.left + s.process.monitor.left + total (Thread.left connections) s.threads +
    total Session.toGo s.process.clients.sessions

theorem Monitor.left_le (m : Monitor) : m.left ≤ 8 := by cases m <;> decide

theorem Monitor.left_next {m : Monitor} (hm : m ≠ .returned) (counters : Counter → Int) :
    (m.next connections true counters).left + 1 ≤ m.left := by
  cases m with
  | returned => exact absurd rfl hm
  | completed | connected =>
    simp only [Monitor.next]
    split <;> decide
  | _ => exact Nat.le_of_ble_eq_true rfl

theorem Main.left_le (m : Main) : m.left ≤ 34 := by
  cases m with
  | spawning i => exact Nat.sub_le 34 i
  | sleeping | returned => exact Nat.le_of_ble_eq_true rfl
  | stopping i => exact Nat.le_trans (Nat.sub_le 22 i) (by decide)
  | joining i => exact Nat.le_trans (Nat.sub_le 11 i) (by decide)

theorem Thread.left_le (connections : Nat) (t : Thread) :
    t.left connections ≤ conns connections + 2 := by
  cases t with
  | unspawned => exact Nat.le_refl _
  | starting j => exact Nat.sub_le ..
  | running => exact Nat.succ_le_succ (Nat.zero_le _)
  | returned => exact Nat.zero_le _

namespace Execution

theorem Inv.toGo_le (hi : s.Inv) (k : Key connections) :
    (s.process.clients.sessions k).toGo ≤ 3 := by
  have hfit := hi.fits k
  generalize s.process.clients.sessions k = x at hfit
  cases x with
  | running us next =>
    generalize s.threads k.1 = t at hfit
    cases t with
    | unspawned => cases hfit
    | starting => exact absurd rfl (hfit.2 us next)
    | running => exact Nat.succ_le_succ (hfit us next rfl)
    | returned => exact absurd rfl (hfit us next)
  | made | pending | ended => exact Nat.zero_le _

theorem Inv.left_le (hi : s.Inv) : s.left ≤ 40 * conns connections + 62 := by
  have hmain := s.main.left_le
  have hmonitor := s.process.monitor.left_le
  have hthreads : total (Thread.left connections) s.threads ≤ 10 * (conns connections + 2) :=
    Finset.sum_le_card_nsmul _ _ _ fun i _ => Thread.left_le connections (s.threads i)
  have hsessions : total Session.toGo s.process.clients.sessions ≤
      Fintype.card (Key connections) * 3 :=
    Finset.sum_le_card_nsmul _ _ _ fun k _ => hi.toGo_le k
  rw [card_key] at hsessions
  unfold left
  omega

theorem left_thread {i : Fin 10} {t : Thread} {n c : Nat}
    (h : n + t.left connections ≤ (s.threads i).left connections + c) :
    n + (s.setThread i t).left ≤ s.left + c := by
  have htotal := total_update (Thread.left connections) s.threads i t
  change n + (s.main.left + s.process.monitor.left +
    total (Thread.left connections) (Function.update s.threads i t) +
    total Session.toGo s.process.clients.sessions) ≤ _
  unfold left
  omega

theorem left_session {k : Key connections} {clients : State (Key connections)} {x : Session}
    {n c : Nat} (hset : clients.sessions = Function.update s.process.clients.sessions k x)
    (h : n + x.toGo ≤ (s.process.clients.sessions k).toGo + c) :
    n + left { s with process := { s.process with clients := clients } } ≤ s.left + c := by
  have htotal := total_update Session.toGo s.process.clients.sessions k x
  change n + (s.main.left + s.process.monitor.left + total (Thread.left connections) s.threads +
    total Session.toGo clients.sessions) ≤ _
  rw [hset]
  unfold left
  omega

theorem left_monitor {process : Process connections} {n c : Nat}
    (hclients : process.clients = s.process.clients)
    (h : n + process.monitor.left ≤ s.process.monitor.left + c) :
    n + left { s with process := process } ≤ s.left + c := by
  change n + (s.main.left + process.monitor.left + total (Thread.left connections) s.threads +
    total Session.toGo process.clients.sessions) ≤ _
  rw [hclients]
  unfold left
  omega

theorem left_goOn {m : Main} {stopped : Fin 10 → Bool} {n c : Nat}
    (h : n + m.left ≤ s.main.left + c) :
    n + left { s with main := m, stopped := stopped } ≤ s.left + c := by
  change n + (m.left + s.process.monitor.left + total (Thread.left connections) s.threads +
    total Session.toGo s.process.clients.sessions) ≤ _
  unfold left
  omega

theorem Step.main_left (hstop : s.process.stop = true) (hs : Step p s l s') :
    (if l.isMain then 1 else 0) + s'.main.left ≤ s.main.left := by
  cases hs with
  | @spawn i hm =>
    rw [hm]
    change 1 + (34 - (i.1 + 1)) ≤ 34 - i.1
    omega
  | @stop i hm =>
    rw [hm]
    change 1 + (22 - (i.1 + 1)) ≤ 22 - i.1
    omega
  | @join i hm _ =>
    rw [hm]
    change 1 + (11 - (i.1 + 1)) ≤ 11 - i.1
    omega
  | sleep _ hsleep => cases hsleep.symm.trans hstop
  | spawnMonitor hm | wake hm _ | stopped hm | joinMonitor hm =>
    rw [hm]
    exact Nat.le_of_ble_eq_true rfl
  | start | fail | run | handle | update | ret | finish | monitor | interrupt =>
    exact Nat.le_of_eq (Nat.zero_add _)

/-- A step of the program's own leaves less to do, but for the handlers. -/
theorem Step.left (hp : p.Short) (hi : s.Inv) (hstop : s.process.stop = true)
    (hs : Step p s l s') :
    (if l.own then 1 else 0) + s'.left ≤ s.left + if l.handles then 4 else 0 := by
  have hmain := hs.main_left hstop
  cases hs with
  | @spawn i hm =>
    have hfresh : s.threads i = .unspawned := (hi.spawned i).2 (by rw [hm]; exact Nat.le_refl _)
    have hthread : 0 + (s.setThread i (.starting 0)).left ≤ s.left + 0 :=
      left_thread (by rw [hfresh]; exact Nat.le_of_eq (Nat.zero_add _))
    rw [Nat.zero_add] at hthread
    exact (left_goOn (s := s.setThread i (.starting 0)) (n := 1) (c := 0) hmain).trans hthread
  | spawnMonitor | wake | stop | stopped | join | joinMonitor =>
    exact left_goOn (n := 1) (c := 0) hmain
  | sleep _ hsleep => cases hsleep.symm.trans hstop
  | @start i j clients ht hs =>
    cases hs with
    | start hk =>
      have hsession : 0 + left { s.setThread i (.starting (j + 1)) with
          process := { s.process with
            clients := s.process.clients.set (i, j) (.pending .connect) } } ≤
          (s.setThread i (.starting (j + 1))).left + 0 :=
        left_session (s := s.setThread i (.starting (j + 1))) rfl (Nat.zero_le _)
      have hthread : 1 + (s.setThread i (.starting (j + 1))).left ≤ s.left + 0 := by
        refine left_thread ?_
        rw [ht]
        have hj := j.isLt
        change 1 + (conns connections + 2 - (j.1 + 1)) ≤ conns connections + 2 - j.1
        omega
      rw [Nat.zero_add] at hsession
      exact (Nat.add_le_add_left hsession 1).trans hthread
  | @fail i j ht hj =>
    refine left_thread (n := 0) ?_
    rw [Nat.zero_add]
    exact Nat.zero_le _
  | @run i ht =>
    refine left_thread (n := 1) ?_
    rw [ht]
    change 1 + 1 ≤ conns connections + 2 - conns connections
    omega
  | @finish i ht =>
    refine left_thread (n := 1) ?_
    rw [ht]
    exact Nat.le_refl _
  | @handle k op error equal clients _ _ hs =>
    cases hs with
    | handle hk =>
      refine left_session (n := 1) (c := 4) rfl ?_
      rw [hk]
      have hshort := hp error equal op
      change 1 + (_ + 1) ≤ 0 + 4
      omega
  | @update k u clients _ hs =>
    cases hs with
    | @update _ _ us next hk =>
      refine left_session (n := 1) (c := 0) rfl ?_
      rw [hk]
      change 1 + (us.length + 1) ≤ us.length + 1 + 1
      omega
  | @ret k clients _ hs =>
    cases hs with
    | @ret _ next hk =>
      refine left_session (n := 1) (c := 0) rfl ?_
      rw [hk]
      cases next <;> exact Nat.le_refl _
  | monitor _ hs =>
    cases hs with
    | monitor hm =>
      have hnext : (s.process.monitor.next connections true s.process.clients.counters).left + 1 ≤
        s.process.monitor.left := Monitor.left_next hm _
      rw [← hstop] at hnext
      exact left_monitor (n := 1) (c := 0) rfl ((Nat.add_comm ..).trans_le hnext)
  | interrupt hs =>
    cases hs with
    | interrupt => exact left_monitor (n := 0) (c := 0) rfl (Nat.le_of_eq (Nat.zero_add _))

/-! ## What can be done -/

/-- Some thread, or the monitor, can take a step of its own that is not a new handler. -/
def CanGoOn (p : Program) (s : Execution connections) : Prop :=
  ∃ l s', Step p s l s' ∧ l.own = true ∧ l.handles = false

/-- `main` waits for nothing before it joins. -/
theorem Inv.exists_main (hi : s.Inv) (hstop : s.process.stop = true)
    (hj : ∀ i, s.main ≠ .joining i) (hr : s.main ≠ .returned) : ∃ s', Step p s .main s' := by
  have hmain := hi.main
  generalize hm : s.main = m at hmain hj hr
  cases m with
  | spawning i =>
    rcases Nat.lt_or_eq_of_le hmain.1 with hlt | heq
    · exact ⟨_, .spawn (i := ⟨i, hlt⟩) hm⟩
    · exact ⟨_, .spawnMonitor (hm.trans (congrArg Main.spawning heq))⟩
  | sleeping => exact ⟨_, .wake hm hstop⟩
  | stopping i =>
    rcases Nat.lt_or_eq_of_le hmain.2.1 with hlt | heq
    · exact ⟨_, .stop (i := ⟨i, hlt⟩) hm⟩
    · exact ⟨_, .stopped (hm.trans (congrArg Main.stopping heq))⟩
  | joining i => exact absurd rfl (hj i)
  | returned => exact absurd rfl hr

theorem canGoOn_session {k : Key connections} {us : List Update} {next : Option Op}
    (ht : s.threads k.1 = .running) (hk : s.process.clients.sessions k = .running us next) :
    s.CanGoOn p := by
  cases us with
  | nil => exact ⟨.session (.ret k), _, .ret ht (.ret hk), rfl, rfl⟩
  | cons u us => exact ⟨.session (.update k u), _, .update ht (.update hk), rfl, rfl⟩

theorem Inv.canGoOn_thread {i : Fin 10} (hi : s.Inv) (hstopped : s.stopped i = true)
    (hs : s.threads i ≠ .unspawned) (hr : s.threads i ≠ .returned) : s.CanGoOn p := by
  generalize ht : s.threads i = t at hs hr
  cases t with
  | unspawned => exact absurd rfl hs
  | starting j =>
    rcases Nat.lt_or_eq_of_le (hi.starting i j ht) with hlt | rfl
    · have hfit := hi.fits (i, ⟨j, hlt⟩)
      rw [ht] at hfit
      have hstart : Load.Step p Prod.fst s.process.clients (.start (i, ⟨j, hlt⟩)) _ :=
        .start (hfit.1 (Nat.le_refl j))
      exact ⟨.session (.start (i, ⟨j, hlt⟩)), _, .start ht hstart, rfl, rfl⟩
    · exact ⟨.thread i, _, .run ht, rfl, rfl⟩
  | running =>
    by_cases hb : s.Between i
    · exact ⟨.thread i, _, .finish ht hb (.inl hstopped), rfl, rfl⟩
    · simp only [Between, not_forall, not_not] at hb
      obtain ⟨j, us, next, hk⟩ := hb
      exact canGoOn_session ht hk
  | returned => exact absurd rfl hr

theorem Inv.canGoOn (hi : s.Inv) (hstop : s.process.stop = true) (hr : s.main ≠ .returned) :
    s.CanGoOn p := by
  by_cases hj : ∀ i, s.main ≠ .joining i
  · obtain ⟨s', hs⟩ := hi.exists_main (p := p) hstop hj hr
    exact ⟨.main, s', hs, rfl, rfl⟩
  · simp only [not_forall, not_not] at hj
    obtain ⟨i, hm⟩ := hj
    have hmain : i ≤ 10 := by
      have hjoined := hi.main.2.2
      rwa [hm] at hjoined
    rcases Nat.lt_or_eq_of_le hmain with hlt | rfl
    · -- the thread that `main` waits for is started, and its context is stopped
      have hspawned : s.threads ⟨i, hlt⟩ ≠ .unspawned := by
        rw [Ne, hi.spawned, hm]
        exact Nat.not_le.2 hlt
      by_cases hret : s.threads ⟨i, hlt⟩ = .returned
      · exact ⟨.main, _, .join (i := ⟨i, hlt⟩) hm hret, rfl, rfl⟩
      · exact hi.canGoOn_thread (hi.stopped ⟨i, hlt⟩ (by rw [hm]; exact hlt)) hspawned hret
    · by_cases hmon : s.process.monitor = .returned
      · exact ⟨.main, _, .joinMonitor hm hmon, rfl, rfl⟩
      · refine ⟨.monitor, _, .monitor (fun i h => ?_) (.monitor hmon), rfl, rfl⟩
        cases hm.symm.trans h

/-- When `main` returns, all that it started has returned. -/
structure Finished (s : Execution connections) : Prop where
  threads : ∀ i, s.threads i = .returned
  monitor : s.process.monitor = .returned
  quiet : ∀ k left next, s.process.clients.sessions k ≠ .running left next

theorem Inv.finished (hi : s.Inv) (hm : s.main = .returned) : s.Finished := by
  have hthreads : ∀ i, s.threads i = .returned := fun i => hi.joined i (by rw [hm]; exact i.isLt)
  refine ⟨hthreads, hi.monitor hm, fun k => ?_⟩
  have hfit := hi.fits k
  rwa [hthreads] at hfit

theorem Inv.main_of_not_stopped (hi : s.Inv) (h : ¬∀ i, s.stopped i = true) :
    (∀ i, s.main ≠ .joining i) ∧ s.main ≠ .returned := by
  refine ⟨fun i hm => h fun j => hi.stopped j ?_, fun hm => h fun j => hi.stopped j ?_⟩ <;>
  · rw [hm]
    exact j.isLt

/-! ## Runs -/

theorem Step.stop_mono (hs : Step p s l s') (h : s.process.stop = true) :
    s'.process.stop = true := by
  cases hs with
  | monitor _ hs =>
    cases hs with
    | monitor => exact Bool.or_eq_true_iff.2 (.inl h)
  | interrupt hs =>
    cases hs with
    | interrupt => rfl
  | _ => exact h

/-- No handler is taken up on a stopped context, and a stopped context stays so. -/
theorem Step.no_handle (hs : Step p s l s') (h : ∀ i, s.stopped i = true) :
    l.handles = false ∧ ∀ i, s'.stopped i = true := by
  cases hs with
  | handle _ hopen _ => cases hopen.symm.trans (h _)
  | @stop i hm =>
    refine ⟨rfl, fun j => ?_⟩
    change Function.update s.stopped i true j = true
    by_cases hij : j = i
    · rw [hij, Function.update_self]
    · rw [Function.update_of_ne hij]
      exact h j
  | _ => exact ⟨rfl, h⟩

theorem Inv.run (hp : p.Short) (hi : s.Inv) (hstop : s.process.stop = true)
    (hrun : Run (execution p connections) s ls s') : s'.Inv ∧ s'.process.stop = true :=
  hrun.invariant (I := fun s => s.Inv ∧ s.process.stop = true)
    (fun _ _ _ hi (hs : Step p _ _ _) => ⟨hi.1.step hp hs, hs.stop_mono hi.2⟩) ⟨hi, hstop⟩

theorem Inv.own_le (hp : p.Short) (hi : s.Inv) (hstop : s.process.stop = true)
    (hrun : Run (execution p connections) s ls s') :
    ls.countP Label.own + s'.left ≤ s.left + 4 * ls.countP Label.handles := by
  have hpaid : ∀ (ls : List (Label connections)) l, 4 * (ls ++ [l]).countP Label.handles =
      4 * ls.countP Label.handles + if l.handles then 4 else 0 := by
    intro ls l
    rw [List.countP_append, List.countP_singleton, Nat.mul_add]
    split <;> rfl
  exact (@Run.countP_le_paid _ _ (execution p connections)
    (fun s => s.Inv ∧ s.process.stop = true) Label.own Execution.left
    (fun l => if l.handles then 4 else 0) (fun ls => 4 * ls.countP Label.handles) hpaid
    (fun _ _ _ hi (hs : Step p _ _ _) =>
      ⟨⟨hi.1.step hp hs, hs.stop_mono hi.2⟩, hs.left hp hi.1 hi.2⟩) _ _ _ hrun ⟨hi, hstop⟩).2

theorem main_le (hstop : s.process.stop = true) (hrun : Run (execution p connections) s ls s') :
    ls.countP Label.isMain + s'.main.left ≤ s.main.left :=
  (@Run.countP_le_paid _ _ (execution p connections) (fun s => s.process.stop = true) Label.isMain
    (fun s => s.main.left) (fun _ => 0) (fun _ => 0) (fun _ _ => rfl)
    (fun _ _ _ hstop (hs : Step p _ _ _) => ⟨hs.stop_mono hstop, hs.main_left hstop⟩) _ _ _ hrun
    hstop).2

theorem handles_eq_zero (h : ∀ i, s.stopped i = true)
    (hrun : Run (execution p connections) s ls s') : ls.countP Label.handles = 0 := by
  have hle := (@Run.countP_le_paid _ _ (execution p connections) (fun s => ∀ i, s.stopped i = true)
    Label.handles (fun _ => 0) (fun _ => 0) (fun _ => 0) (fun _ _ => rfl)
    (fun _ _ _ h (hs : Step p _ _ _) => ⟨(hs.no_handle h).2, by rw [(hs.no_handle h).1]; rfl⟩) _ _ _
    hrun h).2
  exact Nat.le_zero.1 hle

end Execution

open Execution in
/-- **The shutdown of a load client.** From any state in which `stop` is set, whatever the order,
`main` takes at most 34 steps more, and waits for nothing until it has stopped all contexts. The
program takes at most `40 * conns + 62` steps of its own, and four more for each handler that is
taken up on a context not yet stopped, of which there are none once all are. It can always go on
until `main` returns. Then all threads and the monitor have returned, no handler was left in the
middle, and each attempt that completed is counted as connected or as failed. -/
theorem shuts_down (src : Source) {s s' : Execution connections}
    {ls ls' : List (Execution.Label connections)}
    (h : Exec (execution src.program connections) ls s) (hstop : s.process.stop = true)
    (hrun : Run (execution src.program connections) s ls' s') :
    ls'.countP Label.isMain ≤ 34 ∧
    ls'.countP Label.own ≤ 40 * conns connections + 62 + 4 * ls'.countP Label.handles ∧
    ((∀ i, s.stopped i = true) → ls'.countP Label.handles = 0) ∧
    ((¬∀ i, s'.stopped i = true) → ∃ s'', Execution.Step src.program s' .main s'') ∧
    (s'.main ≠ .returned → s'.CanGoOn src.program) ∧
    (s'.main = .returned → s'.Finished ∧ s'.process.clients.counters .completed =
      s'.process.clients.counters .connected + s'.process.clients.counters .failed) := by
  have hi := Inv.exec src.short h
  obtain ⟨hi', hstop'⟩ := hi.run src.short hstop hrun
  refine ⟨?_, ?_, fun hs => handles_eq_zero hs hrun, fun hs => ?_, hi'.canGoOn hstop', fun hm => ?_⟩
  · exact (Nat.le_of_add_right_le (main_le hstop hrun)).trans s.main.left_le
  · have hown := hi.own_le src.short hstop hrun
    have hleft := hi.left_le
    omega
  · obtain ⟨hj, hr⟩ := hi'.main_of_not_stopped hs
    exact hi'.exists_main hstop' hj hr
  · have hfinished := hi'.finished hm
    exact ⟨hfinished, execution_balance src.lawful (h.append hrun) hfinished.quiet⟩

open Execution in
/-- `SIGINT` before the first thread is started, which `main` starts all the same. -/
theorem shuts_down_early : ∃ (ls ls' : List (Execution.Label 1)) (s s' : Execution 1),
    Exec (execution Source.client.program 1) ls s ∧
    Run (execution Source.client.program 1) s ls' s' ∧ s'.main = .spawning 1 ∧
    ls'.countP Label.isMain ≤ 34 ∧ s'.CanGoOn Source.client.program := by
  let s0 : Execution 1 := ⟨⟨⟨fun _ => .made, fun _ => 0⟩, .connecting, false⟩, .spawning 0,
    fun _ => .unspawned, fun _ => false⟩
  have h0 : Exec (execution Source.client.program 1) [] s0 :=
    .init ⟨⟨⟨fun _ => rfl, fun _ => rfl⟩, rfl, rfl⟩, rfl, fun _ => rfl, fun _ => rfl⟩
  have h1 := h0.snoc (.interrupt .interrupt)
  have h2 : Run (execution Source.client.program 1)
      { s0 with process := { s0.process with stop := true } } [.main] _ :=
    .single (.spawn (i := 0) rfl)
  have hdown := shuts_down .client h1 rfl h2
  exact ⟨_, _, _, _, h1, h2, rfl, hdown.1, hdown.2.2.2.2.1 nofun⟩

end Load
