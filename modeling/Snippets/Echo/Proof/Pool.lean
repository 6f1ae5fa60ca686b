import Snippets.Echo.Proof.Serial

/-!
# The sessions of the threaded server are faithful

In the server of many threads a handler may run while `start (false)` of its session still makes
calls (`handler_overtakes_start`). That race is about the deadline and the timer only: code makes
the call that starts an operation first, and all that comes after it leaves the channel alone
(`Code.Quiet`). So of all threads in a session at most one is about to start an operation, and only
when none is outstanding (`Stage`), and every session of the pool is a bounded relay from the bytes
it draws from its socket to the bytes it puts there (`pool_relays`), in every interleaving of the
calls. Together: `pool_faithful`.
-/

namespace Echo.Server

open Lts Asio

variable {ι α β : Type*} [DecidableEq ι] [DecidableEq α] [Inhabited β] {timeout now : Int}
  {s s' : Pool ι α β} {l : Action ι α β} {ls : List (Action ι α β)} {k : Nat} {held : List β}

/-! ## Code that leaves the channel alone -/

/-- The call starts no operation and does not touch the buffer. -/
def quiet : Call → Prop
  | .receive | .write _ | .writeBuffer | .resize _ => False
  | _ => True

/-- Code that starts no operation and does not touch the buffer. -/
inductive Quiet : Code → Prop
  | done : Quiet .done
  | call {c : Call} {code : Code} : quiet c → Quiet code → Quiet (.call c code)
  | now {code : Int → Code} : (∀ t, Quiet (code t)) → Quiet (.now code)
  | deadline {code : Int → Code} : (∀ t, Quiet (code t)) → Quiet (.deadline code)

theorem Quiet.step {code : Code} (h : Quiet code) (now : Int) (x : State β) :
    Quiet (code.step now x).1 ∧ (code.step now x).2.channel = x.channel := by
  cases h with
  | done => exact ⟨.done, rfl⟩
  | @call c code hc hq =>
    refine ⟨hq, ?_⟩
    cases c with
    | receive | write | writeBuffer | resize => exact hc.elim
    | _ => rfl
  | now hq => exact ⟨hq now, rfl⟩
  | deadline hq => exact ⟨hq _, rfl⟩

theorem quiet_stop : Quiet stop := .call trivial (.call trivial .done)

theorem quiet_startWatchdog : Quiet startWatchdog := by
  refine .now fun now => .deadline fun deadline => ?_
  split
  · exact quiet_stop
  · exact .deadline fun _ => .call trivial (.call trivial .done)

theorem quiet_delay {code : Code} (h : Quiet code) (timeout : Int) :
    Quiet (.now fun now => .call (.setDeadline (now + timeout)) code) :=
  .now fun _ => .call trivial h

theorem quiet_wait (timeout : Int) (error : Option Error) :
    Quiet ((program timeout false).wait error) := by
  cases error with
  | some e => exact .done
  | none => exact quiet_startWatchdog

theorem quiet_error (timeout : Int) (io : Io) (e : Error) :
    Quiet ((program timeout false).handle io (.error e)) := by
  cases io <;> exact quiet_stop

/-! ## What the threads of a session are about to do -/

/-- Code whose first call starts the operation that is due. -/
inductive Pending (c : Channel β) : List β → Code → Prop
  | receive {code : Code} : Quiet code → Pending c [] (.call .receive code)
  | write {held : List β} {code : Code} : Quiet code → c.buffer.take held.length = held →
      Pending c held (.call (.write held.length) code)

/-- All threads in session `k`, but perhaps thread `i`, leave the channel alone. -/
def Rest (s : Pool ι α β) (k : Nat) (i : Option ι) : Prop :=
  ∀ j job code, some j ≠ i → s.threads j = .running job k code → Quiet code

/-- `held` is to be written, and the operation on it is started or about to be. -/
inductive Stage (s : Pool ι α β) (k : Nat) (held : List β) : Prop
  | running : (s.sessions k).channel.Cycle bufferSize held → Rest s k none → Stage s k held
  | pending {i : ι} {job : Job α} {code : Code} : s.threads i = .running job k code →
      Pending (s.sessions k).channel held code → (s.sessions k).channel.ops = [] →
      held.length ≤ bufferSize → Rest s k (some i) → Stage s k held

/-- `made`: threads run code of sessions that have been made. -/
structure Serves (s : Pool ι α β) (k : Nat) (held : List β) : Prop where
  made : ∀ i job j code, s.threads i = .running job j code → j < s.made
  size : k < s.made → (s.sessions k).channel.buffer.length = bufferSize
  stage : k < s.made → Stage s k held
  fresh : s.made ≤ k → held = []

section
omit [DecidableEq α] [Inhabited β]

theorem update_threads_self (s : Pool ι α β) (i : ι) (t : Thread α) :
    (Function.update s.threads i t) i = t := Function.update_self i t s.threads

theorem update_threads_ne (s : Pool ι α β) (i : ι) (t : Thread α) (j : ι) (h : j ≠ i) :
    (Function.update s.threads i t) j = s.threads j := Function.update_of_ne h ..

omit [DecidableEq ι] in
theorem update_channel_self (s : Pool ι α β) (k : Nat) (x : State β) :
    (Function.update s.sessions k x k).channel = x.channel :=
  congrArg State.channel (Function.update_self ..)

omit [DecidableEq ι] in
theorem update_channel_ne (s : Pool ι α β) {j : Nat} (x : State β) (h : j ≠ k) :
    (Function.update s.sessions j x k).channel = (s.sessions k).channel :=
  congrArg State.channel (Function.update_of_ne h.symm ..)

end

section
omit [DecidableEq ι] [DecidableEq α] [Inhabited β]
variable {i : ι}

theorem Pending.not_quiet {c : Channel β} {code : Code} (h : Pending c held code) :
    ¬Quiet code := by
  intro hq
  cases h with
  | receive | write => cases hq with | call hc => exact hc

/-- Thread `i` goes on, and neither does nor did more than leave the channel alone. -/
theorem Rest.quiet {o : Option ι} (h : Rest s k o)
    (hother : ∀ j, j ≠ i → s'.threads j = s.threads j)
    (hafter : ∀ job code, s'.threads i = .running job k code → Quiet code) : Rest s' k o := by
  intro j job code hj hrun
  by_cases hji : j = i
  · subst hji
    exact hafter job code hrun
  · rw [hother j hji] at hrun
    exact h j job code hj hrun

theorem Rest.except (h : Rest s k none) (hother : ∀ j, j ≠ i → s'.threads j = s.threads j) :
    Rest s' k (some i) := fun j job code hj hrun =>
  h j job code nofun ((hother j fun hji => hj (congrArg some hji)).symm.trans hrun)

theorem Stage.quiet (h : Stage s k held)
    (hchannel : (s'.sessions k).channel = (s.sessions k).channel)
    (hother : ∀ j, j ≠ i → s'.threads j = s.threads j)
    (hbefore : ∀ job code, s.threads i = .running job k code → Quiet code)
    (hafter : ∀ job code, s'.threads i = .running job k code → Quiet code) : Stage s' k held := by
  cases h with
  | running hc hrest => exact .running (hchannel ▸ hc) (hrest.quiet hother hafter)
  | @pending j job code hrun hp hops hlen hrest =>
    have hji : j ≠ i := fun hji => hp.not_quiet (hbefore job code (hji ▸ hrun))
    refine .pending ((hother j hji).trans hrun) (hchannel ▸ hp) (hchannel ▸ hops) hlen
      (hrest.quiet hother hafter)

theorem Stage.same (h : Stage s k held)
    (hchannel : (s'.sessions k).channel = (s.sessions k).channel)
    (hthreads : s'.threads = s.threads) : Stage s' k held := by
  cases h with
  | running hc hrest =>
    refine .running (hchannel ▸ hc) fun j job code hj hrun => ?_
    rw [hthreads] at hrun
    exact hrest j job code hj hrun
  | @pending j job code hrun hp hops hlen hrest =>
    refine .pending (hthreads ▸ hrun) (hchannel ▸ hp) (hchannel ▸ hops) hlen
      fun j job code hj hrun => ?_
    rw [hthreads] at hrun
    exact hrest j job code hj hrun

/-- A session with an operation has no thread that is about to start one. -/
theorem Stage.running_of_ne (h : Stage s k held) (hne : (s.sessions k).channel.ops ≠ []) :
    (s.sessions k).channel.Cycle bufferSize held ∧ Rest s k none := by
  cases h with
  | running hc hrest => exact ⟨hc, hrest⟩
  | pending _ _ hops => exact absurd hops hne

end

/-! ## Steps -/

/-- What a step means at the relay of session `k`. -/
def sessionMoves (k : Nat) : Action ι α β → List (Relay.Event β)
  | .io j e => if j = k then e.relay else []
  | _ => []

section
variable {i : ι} {job : Job α} {code : Code}

omit [DecidableEq α] in
theorem Stage.starts (hsize : (s.sessions k).channel.buffer.length = bufferSize)
    (hp : Pending (s.sessions k).channel held code) (hops : (s.sessions k).channel.ops = [])
    (hlen : held.length ≤ bufferSize) (hrest : Rest s k (some i)) (now : Int) :
    Stage { ((s.setSession k (code.step now (s.sessions k)).2).setThread i
      (.running job k (code.step now (s.sessions k)).1)) with clock := now } k held := by
  have hall : ∀ x code', Quiet code' → Rest { ((s.setSession k x).setThread i
      (.running job k code')) with clock := now } k none := by
    intro x code' hq j job' code'' _ hrun
    by_cases hj : j = i
    · subst hj
      cases (update_threads_self s j _).symm.trans hrun
      exact hq
    · exact hrest j job' code'' (fun h => hj (Option.some.inj h))
        ((update_threads_ne s i _ j hj).symm.trans hrun)
  cases hp with
  | receive hq =>
    refine .running ?_ (hall _ _ hq)
    change Channel.Cycle bufferSize (Function.update s.sessions k _ k).channel []
    rw [update_channel_self]
    change Channel.Cycle bufferSize
      ⟨(s.sessions k).channel.buffer, (s.sessions k).channel.ops ++ _⟩ []
    rw [hops]
    exact .receive
  | write hq htake =>
    refine .running ?_ (hall _ _ hq)
    change Channel.Cycle bufferSize (Function.update s.sessions k _ k).channel held
    rw [update_channel_self]
    change Channel.Cycle bufferSize ⟨(s.sessions k).channel.buffer, (s.sessions k).channel.ops ++
      [⟨.write (min held.length (s.sessions k).channel.buffer.length), 0, none⟩]⟩ held
    rw [hops, hsize, Nat.min_eq_left hlen]
    exact Channel.cycle_write htake

omit [DecidableEq ι] [DecidableEq α] [Inhabited β] in
/-- What a thread in session `k` has left. -/
theorem Stage.code_cases (h : Stage s k held) (hthread : s.threads i = .running job k code) :
    Quiet code ∨ (Pending (s.sessions k).channel held code ∧ (s.sessions k).channel.ops = [] ∧
      held.length ≤ bufferSize ∧ Rest s k (some i)) := by
  cases h with
  | running _ hrest => exact .inl (hrest i job code nofun hthread)
  | @pending j job' code' hrun hp hops hlen hrest =>
    by_cases hji : j = i
    · subst hji
      rw [hthread] at hrun
      cases hrun
      exact .inr ⟨hp, hops, hlen, hrest⟩
    · exact .inl (hrest i job code (fun h => hji (Option.some.inj h).symm) hthread)

omit [DecidableEq α] in
theorem Stage.call (h : Stage s k held) (hsize : (s.sessions k).channel.buffer.length = bufferSize)
    (hthread : s.threads i = .running job k code) (now : Int) :
    Stage { ((s.setSession k (code.step now (s.sessions k)).2).setThread i
      (.running job k (code.step now (s.sessions k)).1)) with clock := now } k held := by
  rcases h.code_cases hthread with hq | ⟨hp, hops, hlen, hrest⟩
  · obtain ⟨hq', hchannel⟩ := hq.step now (s.sessions k)
    refine h.quiet (i := i) ?_ (update_threads_ne s i _) (fun job' code' hrun => ?_)
      fun job' code' hrun => ?_
    · exact (update_channel_self s k _).trans hchannel
    · rw [hthread] at hrun
      cases hrun
      exact hq
    · cases (update_threads_self s i _).symm.trans hrun
      exact hq'
  · exact Stage.starts hsize hp hops hlen hrest now

omit [DecidableEq ι] [DecidableEq α] in
theorem Stage.call_buffer (h : Stage s k held) (hthread : s.threads i = .running job k code)
    (now : Int) :
    (code.step now (s.sessions k)).2.channel.buffer = (s.sessions k).channel.buffer := by
  rcases h.code_cases hthread with hq | ⟨hp, -⟩
  · rw [(hq.step now (s.sessions k)).2]
  · cases hp <;> rfl

omit [DecidableEq α] [Inhabited β] in
theorem Stage.take {io : Io} {r : Result} {c : Channel β} (h : Stage s k held)
    (ht : (s.sessions k).channel.Takes io r c) (timeout : Int) (i : ι) :
    Stage ((s.setSession k { s.sessions k with channel := c }).setThread i
      (.running .strand k ((program timeout false).handle io r))) k held := by
  obtain ⟨hc, hrest⟩ := h.running_of_ne ht.ops_ne
  have hchannel : (Function.update s.sessions k ({ s.sessions k with channel := c } : State β)
      k).channel = c := update_channel_self ..
  cases r with
  | error e =>
    refine .running ?_ (hrest.quiet (update_threads_ne s i _) fun job' code' hrun => ?_)
    · exact hchannel.symm ▸ (hc.takes ht).2
    · cases (update_threads_self s i _).symm.trans hrun
      exact quiet_error timeout io e
  | ok n =>
    cases io with
    | receive =>
      obtain ⟨hops, rfl, hlen, hbuf, b, hb⟩ := hc.received_eq ht
      have htake : c.buffer.take held.length = held := by rw [hbuf, hb, List.take_left]
      refine .pending (update_threads_self s i _) (.write (quiet_delay .done timeout) ?_) ?_ hlen
        (hrest.except (update_threads_ne s i _))
      · exact hchannel.symm ▸ htake
      · exact hchannel.symm ▸ hops
    | write size =>
      obtain ⟨hops, rfl⟩ := hc.written_eq ht
      refine .pending (update_threads_self s i _) (.receive (quiet_delay .done timeout)) ?_
        (Nat.zero_le _) (hrest.except (update_threads_ne s i _))
      exact hchannel.symm ▸ hops

end

section
omit [DecidableEq ι] [DecidableEq α] [Inhabited β]
variable {i : ι}

theorem Serves.same (hi : Serves s k held) (hthreads : s'.threads = s.threads)
    (hmade : s'.made = s.made) (hchannel : (s'.sessions k).channel = (s.sessions k).channel) :
    Serves s' k held where
  made i job j code hrun := hmade ▸ hi.made i job j code (hthreads ▸ hrun)
  size hk := hchannel ▸ hi.size (hmade ▸ hk)
  stage hk := (hi.stage (hmade ▸ hk)).same hchannel hthreads
  fresh hk := hi.fresh (hmade ▸ hk)

/-- Thread `i` goes on, and neither does nor did more than leave the channel alone. -/
theorem Serves.quiet (hi : Serves s k held) (hmade : s'.made = s.made)
    (hchannel : (s'.sessions k).channel = (s.sessions k).channel)
    (hother : ∀ j, j ≠ i → s'.threads j = s.threads j)
    (hin : ∀ job j code, s'.threads i = .running job j code → j < s.made)
    (hbefore : ∀ job code, s.threads i = .running job k code → Quiet code)
    (hafter : ∀ job code, s'.threads i = .running job k code → Quiet code) : Serves s' k held where
  made j job j' code hrun := by
    rw [hmade]
    by_cases hj : j = i
    · subst hj
      exact hin job j' code hrun
    · exact hi.made j job j' code ((hother j hj).symm.trans hrun)
  size hk := hchannel ▸ hi.size (hmade ▸ hk)
  stage hk := (hi.stage (hmade ▸ hk)).quiet hchannel hother hbefore hafter
  fresh hk := hi.fresh (hmade ▸ hk)

end

omit [DecidableEq ι] [DecidableEq α] [Inhabited β] in
theorem Serves.io (hi : Serves s k held) {j : Nat} {e : Asio.Event β} {c : Channel β}
    (hj : j < s.made) (hs : (s.sessions j).channel.Step (s.sessions j).channel.buffer.length
      (s.sessions j).isOpen (s.sessions j).isOpen e c) :
    ∃ held', Run (Relay.relay β bufferSize) held
        (sessionMoves k (Action.io (ι := ι) (α := α) j e)) held' ∧
      Serves (s.setSession j { s.sessions j with channel := c }) k held' := by
  by_cases hjk : j = k
  · subst hjk
    obtain ⟨hc, hrest⟩ := (hi.stage hj).running_of_ne hs.ops_ne
    have hlen := hs.buffer_length
    rw [hi.size hj] at hs
    obtain ⟨held', hrun, hc'⟩ := hc.step hs
    have hchannel : (Function.update s.sessions j ({ s.sessions j with channel := c } : State β)
        j).channel = c := update_channel_self ..
    refine ⟨held', ?_, hi.made, fun hk => ?_, fun hk => ?_, fun hk => ?_⟩
    · change Run _ held (if j = j then e.relay else []) held'
      rwa [if_pos rfl]
    · exact (congrArg (fun c : Channel β => c.buffer.length) hchannel).trans
        (hlen.trans (hi.size hj))
    · exact .running (hchannel.symm ▸ hc') hrest
    · exact absurd hj (Nat.not_lt.2 hk)
  · refine ⟨held, ?_, hi.same rfl rfl (update_channel_ne s _ hjk)⟩
    change Run _ held (if j = k then e.relay else []) held
    rw [if_neg hjk]
    exact .nil _

omit [Inhabited β] in
theorem Serves.make (hi : Serves s k held) {i : ι} (a : α) {sess : State β}
    (hidle : s.threads i = .idle) (h0 : Initial (program timeout false) sess) :
    Serves { (((s.setAcceptor a .idle).setSession s.made { sess with started := true }).setThread i
      (.running (.accept a) s.made (start timeout false))) with made := s.made + 1 } k held := by
  have hself := update_threads_self s i (.running (.accept a) s.made (start timeout false))
  have hother := update_threads_ne s i (.running (.accept a) s.made (start timeout false))
  refine ⟨fun j job j' code hrun => ?_, fun hk => ?_, fun hk => ?_, fun hk => ?_⟩
  · by_cases hj : j = i
    · subst hj
      cases hself.symm.trans hrun
      exact Nat.lt_succ_self _
    · exact Nat.lt_succ_of_lt (hi.made j job j' code ((hother j hj).symm.trans hrun))
  · by_cases hjk : s.made = k
    · subst hjk
      exact (congrArg (fun c : Channel β => c.buffer.length) (update_channel_self s _ _)).trans
        h0.buffer
    · exact (congrArg (fun c : Channel β => c.buffer.length) (update_channel_ne s _ hjk)).trans
        (hi.size (Nat.lt_of_le_of_ne (Nat.le_of_lt_succ hk) (Ne.symm hjk)))
  · by_cases hjk : s.made = k
    · subst hjk
      obtain rfl := hi.fresh (Nat.le_refl _)
      refine .pending hself (.receive (quiet_delay quiet_startWatchdog timeout)) ?_ (Nat.zero_le _)
        fun j job code hj hrun => ?_
      · exact (congrArg Channel.ops (update_channel_self s _ _)).trans h0.ops
      · have hrun := (hother j fun hji => hj (congrArg some hji)).symm.trans hrun
        exact absurd (hi.made j job _ code hrun) (Nat.lt_irrefl _)
    · have hk' : k < s.made := Nat.lt_of_le_of_ne (Nat.le_of_lt_succ hk) (Ne.symm hjk)
      refine (hi.stage hk').quiet (i := i) (update_channel_ne s _ hjk) hother
        (fun job code hrun => ?_) fun job code hrun => ?_
      · rw [hidle] at hrun
        cases hrun
      · cases hself.symm.trans hrun
        exact absurd rfl hjk
  · exact hi.fresh (Nat.le_of_succ_le hk)

omit [DecidableEq α] [Inhabited β] in
theorem Serves.take (hi : Serves s k held) {i : ι} {j : Nat} {io : Io} {r : Result} {c : Channel β}
    (hidle : s.threads i = .idle) (hj : j < s.made) (ht : (s.sessions j).channel.Takes io r c) :
    Serves ((s.setSession j { s.sessions j with channel := c }).setThread i
      (.running .strand j ((program timeout false).handle io r))) k held := by
  have hself := update_threads_self s i (.running .strand j ((program timeout false).handle io r))
  have hother := update_threads_ne s i (.running .strand j ((program timeout false).handle io r))
  by_cases hjk : j = k
  · subst hjk
    refine ⟨fun i' job j' code hrun => ?_, fun hk => ?_, fun hk => ?_, fun hk => ?_⟩
    · by_cases hi' : i' = i
      · subst hi'
        cases hself.symm.trans hrun
        exact hj
      · exact hi.made i' job j' code ((hother i' hi').symm.trans hrun)
    · have hbuffer : c.buffer = (s.sessions j).channel.buffer := by
        cases ht
        rfl
      exact (congrArg (fun c : Channel β => c.buffer.length) (update_channel_self s _ _)).trans
        ((congrArg List.length hbuffer).trans (hi.size hj))
    · exact (hi.stage hj).take ht timeout i
    · exact hi.fresh hk
  · refine hi.quiet (i := i) rfl (update_channel_ne s _ hjk) hother (fun job j' code hrun => ?_)
      (fun job code hrun => ?_) fun job code hrun => ?_
    · cases hself.symm.trans hrun
      exact hj
    · rw [hidle] at hrun
      cases hrun
    · cases hself.symm.trans hrun
      exact absurd rfl hjk

omit [DecidableEq α] in
theorem Serves.call (hi : Serves s k held) {i : ι} {job : Job α} {j : Nat} {code : Code}
    (hthread : s.threads i = .running job j code) (now : Int) :
    Serves { ((s.setSession j (code.step now (s.sessions j)).2).setThread i
      (.running job j (code.step now (s.sessions j)).1)) with clock := now } k held := by
  have hself := update_threads_self s i (.running job j (code.step now (s.sessions j)).1)
  have hother := update_threads_ne s i (.running job j (code.step now (s.sessions j)).1)
  have hj := hi.made i job j code hthread
  by_cases hjk : j = k
  · subst hjk
    refine ⟨fun i' job' j' code' hrun => ?_, fun hk => ?_, fun hk => ?_, fun hk => ?_⟩
    · by_cases hi' : i' = i
      · subst hi'
        cases hself.symm.trans hrun
        exact hj
      · exact hi.made i' job' j' code' ((hother i' hi').symm.trans hrun)
    · exact (congrArg (fun c : Channel β => c.buffer.length) (update_channel_self s _ _)).trans
        ((congrArg List.length ((hi.stage hj).call_buffer hthread now)).trans (hi.size hj))
    · exact (hi.stage hj).call (hi.size hj) hthread now
    · exact hi.fresh hk
  · refine hi.quiet (i := i) rfl (update_channel_ne s _ hjk) hother (fun job' j' code' hrun => ?_)
      (fun job' code' hrun => ?_) fun job' code' hrun => ?_
    · cases hself.symm.trans hrun
      exact hj
    · rw [hthread] at hrun
      cases hrun
      exact absurd rfl hjk
    · cases hself.symm.trans hrun
      exact absurd rfl hjk

omit [DecidableEq α] [Inhabited β] in
theorem Serves.idle (hi : Serves s k held) {i : ι} {job : Job α} {j : Nat}
    (hthread : s.threads i = .running job j .done)
    (hthreads : s'.threads = Function.update s.threads i .idle) (hmade : s'.made = s.made)
    (hsessions : s'.sessions = s.sessions) : Serves s' k held := by
  have hself : s'.threads i = .idle := by rw [hthreads, Function.update_self]
  refine hi.quiet (i := i) hmade (by rw [hsessions]) (fun j hj => ?_) (fun job' j' code hrun => ?_)
    (fun job' code hrun => ?_) fun job' code hrun => ?_
  · rw [hthreads, Function.update_of_ne hj]
  · rw [hself] at hrun
    cases hrun
  · rw [hthread] at hrun
    cases hrun
    exact .done
  · rw [hself] at hrun
    cases hrun

theorem Serves.step (hi : Serves s k held) (h : Pool.Step timeout s l s') :
    ∃ held', Run (Relay.relay β bufferSize) held (sessionMoves k l) held' ∧ Serves s' k held' := by
  cases h with
  | accept | refuse => exact ⟨held, .nil _, hi.same rfl rfl rfl⟩
  | io hj hs => exact hi.io hj hs
  | @expire j t now hj ht =>
    refine ⟨held, .nil _, hi.same rfl rfl ?_⟩
    by_cases hjk : j = k
    · subst hjk
      exact update_channel_self ..
    · exact update_channel_ne s _ hjk
  | make hidle _ h0 => exact ⟨held, .nil _, hi.make _ hidle h0⟩
  | take hidle hj _ ht => exact ⟨held, .nil _, hi.take hidle hj ht⟩
  | @takeWait i j error t hidle hj =>
    have hself := update_threads_self s i (.running .strand j ((program timeout false).wait error))
    refine ⟨held, .nil _, hi.quiet (i := i) rfl ?_ (update_threads_ne s i _)
      (fun job j' code hrun => ?_) (fun job code hrun => ?_) fun job code hrun => ?_⟩
    · by_cases hjk : j = k
      · subst hjk
        exact update_channel_self ..
      · exact update_channel_ne s _ hjk
    · cases hself.symm.trans hrun
      exact hj
    · rw [hidle] at hrun
      cases hrun
    · cases hself.symm.trans hrun
      exact quiet_wait timeout error
  | call hthread => exact ⟨held, .nil _, hi.call hthread _⟩
  | ret hthread => exact ⟨held, .nil _, hi.idle hthread rfl rfl rfl⟩
  | listen hthread => exact ⟨held, .nil _, hi.idle hthread rfl rfl rfl⟩

/-! ## The result -/

/-- The bytes that session `k` draws from its socket. -/
def drawn (k : Nat) (ls : List (Action ι α β)) : List β :=
  ls.flatMap fun
    | .io j (.deliver chunk) => if j = k then chunk else []
    | _ => []

/-- The bytes that session `k` puts to its socket. -/
def put (k : Nat) (ls : List (Action ι α β)) : List β :=
  ls.flatMap fun
    | .io j (.send piece) => if j = k then piece else []
    | _ => []

section
omit [DecidableEq ι] [DecidableEq α] [Inhabited β]

theorem taken_sessionMoves (k : Nat) (ls : List (Action ι α β)) :
    Relay.taken (ls.flatMap (sessionMoves k)) = drawn k ls := by
  unfold Relay.taken drawn
  rw [List.flatMap_assoc]
  congr 1
  funext l
  cases l with
  | io j e =>
    unfold sessionMoves
    by_cases hj : j = k
    · cases e <;> simp [hj, Asio.Event.relay]
    · cases e <;> simp [hj]
  | _ => rfl

theorem given_sessionMoves (k : Nat) (ls : List (Action ι α β)) :
    Relay.given (ls.flatMap (sessionMoves k)) = put k ls := by
  unfold Relay.given put
  rw [List.flatMap_assoc]
  congr 1
  funext l
  cases l with
  | io j e =>
    unfold sessionMoves
    by_cases hj : j = k
    · cases e <;> simp [hj, Asio.Event.relay]
    · cases e <;> simp [hj]
  | _ => rfl

theorem Stage.ops_le (h : Stage s k held) : (s.sessions k).channel.ops.length ≤ 1 := by
  cases h with
  | running hc =>
    generalize (s.sessions k).channel = c at hc
    cases hc <;> simp
  | pending _ _ hops =>
    rw [hops]
    exact Nat.zero_le 1

end

/-- In every interleaving, every session is a bounded relay. -/
theorem pool_relays (h : Exec (pool ι α β timeout) ls s) (k : Nat) :
    ∃ held, Exec (Relay.relay β bufferSize) (ls.flatMap (sessionMoves k)) held ∧
      Serves s k held := by
  refine h.simulate (R := fun s held => Serves s k held) (fun s h0 => ⟨[], rfl, ?_⟩)
    fun s l s' held hi hs => hi.step hs
  obtain ⟨-, hmade, hthreads⟩ := h0
  refine ⟨fun i job j code hrun => ?_, fun hk => ?_, fun hk => ?_, fun _ => rfl⟩
  · rw [hthreads] at hrun
    cases hrun
  · exact absurd hk (by omega)
  · exact absurd hk (by omega)

/-- No step touches the buffer while a write from it is outstanding. -/
theorem Serves.buffer_kept (hi : Serves s k held) (hk : k < s.made)
    (h : Pool.Step timeout s l s') {size n : Nat}
    (hw : ⟨.write size, n, none⟩ ∈ (s.sessions k).channel.ops) :
    (s'.sessions k).channel.buffer = (s.sessions k).channel.buffer := by
  obtain ⟨o, ho⟩ := List.length_eq_one_iff.1
    (Nat.le_antisymm (hi.stage hk).ops_le (List.length_pos_of_mem hw))
  rw [ho, List.mem_singleton] at hw
  subst hw
  have hbuffer : ∀ {j : Nat} {x : State β}, x.channel.buffer = (s.sessions j).channel.buffer →
      (Function.update s.sessions j x k).channel.buffer = (s.sessions k).channel.buffer := by
    intro j x hx
    by_cases hjk : j = k
    · subst hjk
      exact (congrArg Channel.buffer (update_channel_self s j x)).trans hx
    · exact congrArg Channel.buffer (update_channel_ne s x hjk)
  cases h with
  | accept | refuse | ret | listen => rfl
  | @io j e c hj hs =>
    by_cases hjk : j = k
    · subst hjk
      apply hbuffer
      cases hs with
      | deliver _ hr =>
        rw [ho] at hr
        cases (singleton_ops hr).2.2
      | send | finish | fail => rfl
    · exact congrArg Channel.buffer (update_channel_ne s _ hjk)
  | expire => exact hbuffer rfl
  | make => exact congrArg Channel.buffer (update_channel_ne s _ (Nat.ne_of_gt hk))
  | take _ _ _ ht =>
    apply hbuffer
    cases ht
    rfl
  | takeWait => exact hbuffer rfl
  | @call i job j code now hthread =>
    by_cases hjk : j = k
    · subst hjk
      exact hbuffer ((hi.stage hk).call_buffer hthread now)
    · exact congrArg Channel.buffer (update_channel_ne s _ hjk)

/-- **The sessions of the threaded server are faithful.** With any number of threads and acceptors,
in every interleaving of the calls that the handlers make, also with those of `start (false)`: the
bytes that a session puts to its socket are at all times a prefix of those that it draws from there
and at most `bufferSize` behind, and all of them while a receive is outstanding. It has at most one
operation outstanding, and no step refills the buffer while a write from it is. -/
theorem pool_faithful (h : Exec (pool ι α β timeout) ls s) (k : Nat) :
    put k ls <+: drawn k ls ∧ (drawn k ls).length ≤ (put k ls).length + bufferSize ∧
      (k < s.made → (s.sessions k).channel.ops.length ≤ 1 ∧
        (∀ n, ⟨.receive, n, none⟩ ∈ (s.sessions k).channel.ops → put k ls = drawn k ls) ∧
        ∀ l s', Pool.Step timeout s l s' → ∀ size n,
          ⟨.write size, n, none⟩ ∈ (s.sessions k).channel.ops →
          (s'.sessions k).channel.buffer = (s.sessions k).channel.buffer) := by
  obtain ⟨held, hrelay, hi⟩ := pool_relays h k
  have heq := Relay.taken_eq hrelay
  have hpre := Relay.given_prefix hrelay
  have hlag := Relay.taken_length_le hrelay
  rw [taken_sessionMoves, given_sessionMoves] at heq hpre hlag
  refine ⟨hpre, hlag, fun hk => ⟨(hi.stage hk).ops_le, fun n hn => ?_,
    fun l s' hs size n hw => hi.buffer_kept hk hs hw⟩⟩
  have hheld : held = [] := by
    obtain ⟨hc, -⟩ := (hi.stage hk).running_of_ne (List.ne_nil_of_mem hn)
    generalize (s.sessions k).channel = c at hc hn
    cases hc with
    | receive => rfl
    | idle | received | receiveFailed | write => simp at hn
  rw [heq, hheld, List.append_nil]

/-- The first byte is received, and another thread starts to send it back while `start (false)` is
still about to set the deadline. -/
theorem pool_faithful_overtaken : ∃ (ls : List (Action Bool Unit Nat)) (s : Pool Bool Unit Nat),
    Exec (pool Bool Unit Nat 5) ls s ∧ s.Inside false 0 ∧ s.Inside true 0 ∧ drawn 0 ls = [7] ∧
      put 0 ls <+: drawn 0 ls ∧ (s.sessions 0).channel.ops.length ≤ 1 := by
  have hnow : (0 : Int) ≤ 0 := Int.le_refl 0
  have hchunk : [7] ≠ [] := nofun
  have hlen : [7].length ≤ (List.replicate bufferSize 0).length := by
    rw [List.length_replicate]
    decide
  have h0 : Exec (pool Bool Unit Nat 5) [] listening := .init ⟨fun _ => rfl, rfl, fun _ => rfl⟩
  have haccept : Pool.Step 5 listening (.accept () none) _ := .accept rfl
  have h1 := h0.snoc haccept
  have h2 := h1.snoc (.make (i := false) (a := ()) rfl rfl (fresh_initial 5 false))
  have h3 := h2.snoc (.call (i := false) rfl nofun hnow)
  have h4 := h3.snoc (.io (k := 0) (by decide) (.deliver_head rfl rfl hchunk hlen))
  have h5 := h4.snoc (.take (i := true) (k := 0) rfl (by decide)
    (by rintro (_ | _) code <;> nofun) (.head rfl))
  have h6 := h5.snoc (.call (i := true) rfl nofun hnow)
  obtain ⟨hpre, -, hmade⟩ := pool_faithful h6 0
  exact ⟨_, _, h6, ⟨_, _, rfl, nofun⟩, ⟨_, _, rfl, nofun⟩, rfl, hpre, (hmade (by decide)).1⟩

end Echo.Server
