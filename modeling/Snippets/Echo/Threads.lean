import Snippets.Echo.Server
import Mathlib.Logic.Function.Basic

/-!
# The threads of `server.cc`

`server::start` and `main` of `asio/echo/server.cc`: threads that run one `io_context`. A thread
takes a ready handler and runs it to its end, call by call, and the calls of different threads
interleave. The handlers of a session are bound to its strand, so no two of them run at the same
time. `handle_accept` is bound to no strand; it makes a session, calls its `start (false)` and
accepts again. The completion of an operation may be taken as soon as it has been initiated.
-/

namespace Echo.Server

open Lts Asio

/-- An acceptor: waiting for a client, with a completion queued, or neither. -/
inductive Acceptor
  | waiting
  | ready (error : Option Error)
  | idle
  deriving DecidableEq

/-- What a thread runs: a handler on the strand of a session, or the `handle_accept` of acceptor
`a`, in `start (false)` of the session it made. -/
inductive Job (α : Type*)
  | strand
  | accept (a : α)

/-- A thread that runs code of session `k` has the code `code` left. -/
inductive Thread (α : Type*)
  | idle
  | running (job : Job α) (k : Nat) (code : Code)

/-- The sessions below `made` have been made. The clock is that of all sessions. -/
structure Pool (ι α β : Type*) where
  acceptors : α → Acceptor
  sessions : Nat → State β
  made : Nat
  threads : ι → Thread α
  clock : Int

/-- What happens to the acceptors and to the operations of session `k`, or what a thread does. -/
inductive Action (ι α β : Type*)
  | accept (a : α) (error : Option Error)
  | io (k : Nat) (e : Asio.Event β)
  | expire (k : Nat) (now : Int)
  /-- thread `i` takes a handler -/
  | takeAccept (i : ι) (a : α) (error : Option Error)
  | take (i : ι) (k : Nat) (io : Io) (r : Result)
  | takeWait (i : ι) (k : Nat) (error : Option Error)
  /-- thread `i` makes the next call of its code -/
  | call (i : ι) (now : Int)
  /-- the handler returns -/
  | ret (i : ι)

variable {ι α β : Type*} [DecidableEq ι] [DecidableEq α] [Inhabited β]

def Pool.setThread (s : Pool ι α β) (i : ι) (t : Thread α) : Pool ι α β :=
  { s with threads := Function.update s.threads i t }

def Pool.setSession (s : Pool ι α β) (k : Nat) (x : State β) : Pool ι α β :=
  { s with sessions := Function.update s.sessions k x }

def Pool.setAcceptor (s : Pool ι α β) (a : α) (x : Acceptor) : Pool ι α β :=
  { s with acceptors := Function.update s.acceptors a x }

/-- No thread runs a handler on the strand of session `k`. -/
def Pool.StrandFree (s : Pool ι α β) (k : Nat) : Prop :=
  ∀ i code, s.threads i ≠ .running .strand k code

/-- The steps of the pool. A thread takes a completion only if the strand of the session is free,
and then makes the calls of its handler one by one; `start (false)` runs in the handler of the
accept, which is outside of the strand. -/
inductive Pool.Step (timeout : Int) (s : Pool ι α β) : Action ι α β → Pool ι α β → Prop
  | accept {a : α} {error : Option Error} : s.acceptors a = .waiting →
      Step timeout s (.accept a error) (s.setAcceptor a (.ready error))
  | io {k : Nat} {e : Asio.Event β} {c : Channel β} : k < s.made →
      (s.sessions k).channel.Step (s.sessions k).channel.buffer.length (s.sessions k).isOpen
        (s.sessions k).isOpen e c →
      Step timeout s (.io k e) (s.setSession k { s.sessions k with channel := c })
  | expire {k : Nat} {t : Timer} {now : Int} : k < s.made → (s.sessions k).timer.Fires now t →
      s.clock ≤ now →
      Step timeout s (.expire k now)
        { s.setSession k { s.sessions k with timer := t } with clock := now }
  /-- `handle_accept` returns at once. -/
  | refuse {i : ι} {a : α} {e : Error} : s.threads i = .idle → s.acceptors a = .ready (some e) →
      Step timeout s (.takeAccept i a (some e)) (s.setAcceptor a .idle)
  /-- `auto sess = session::make (std::move (sock));` -/
  | make {i : ι} {a : α} {sess : State β} : s.threads i = .idle → s.acceptors a = .ready none →
      Initial (program timeout false) sess →
      Step timeout s (.takeAccept i a none)
        { (((s.setAcceptor a .idle).setSession s.made { sess with started := true }).setThread i
            (.running (.accept a) s.made (start timeout false))) with made := s.made + 1 }
  | take {i : ι} {k : Nat} {io : Io} {r : Result} {c : Channel β} : s.threads i = .idle →
      k < s.made → s.StrandFree k → (s.sessions k).channel.Takes io r c →
      Step timeout s (.take i k io r)
        ((s.setSession k { s.sessions k with channel := c }).setThread i
          (.running .strand k ((program timeout false).handle io r)))
  | takeWait {i : ι} {k : Nat} {error : Option Error} {t : Timer} : s.threads i = .idle →
      k < s.made → s.StrandFree k → (s.sessions k).timer.Takes error t →
      Step timeout s (.takeWait i k error)
        ((s.setSession k { s.sessions k with timer := t }).setThread i
          (.running .strand k ((program timeout false).wait error)))
  | call {i : ι} {job : Job α} {k : Nat} {code : Code} {now : Int} :
      s.threads i = .running job k code → code ≠ .done → s.clock ≤ now →
      Step timeout s (.call i now)
        { ((s.setSession k (code.step now (s.sessions k)).2).setThread i
            (.running job k (code.step now (s.sessions k)).1)) with clock := now }
  | ret {i : ι} {k : Nat} : s.threads i = .running .strand k .done →
      Step timeout s (.ret i) (s.setThread i .idle)
  /-- `start ();` of the server -/
  | listen {i : ι} {a : α} {k : Nat} : s.threads i = .running (.accept a) k .done →
      Step timeout s (.ret i) ((s.setAcceptor a .waiting).setThread i .idle)

/-- The threads of `main`, when each server has been started. -/
def pool (ι α β : Type*) [DecidableEq ι] [DecidableEq α] [Inhabited β] (timeout : Int) :
    System (Pool ι α β) (Action ι α β) where
  init s := (∀ a, s.acceptors a = .waiting) ∧ s.made = 0 ∧ ∀ i, s.threads i = .idle
  step := Pool.Step timeout

section
variable {timeout now : Int} {s : Pool ι α β} {i : ι} {job : Job α} {k : Nat} {code : Code}

theorem Pool.exists_call (timeout : Int) (hthread : s.threads i = .running job k code)
    (hne : code ≠ .done) (hclock : s.clock ≤ now) : ∃ s', Pool.Step timeout s (.call i now) s' ∧
      s'.threads i = .running job k (code.step now (s.sessions k)).1 ∧
      s'.sessions k = (code.step now (s.sessions k)).2 ∧ s'.clock = now :=
  ⟨_, .call hthread hne hclock, Function.update_self .., Function.update_self .., rfl⟩

/-- A thread that is not interrupted does what a step of the session does. -/
theorem Pool.exists_run (hthread : s.threads i = .running job k code) (hclock : s.clock ≤ now) :
    ∃ ls s', Run (pool ι α β timeout) s ls s' ∧ s'.threads i = .running job k .done ∧
      s'.sessions k = code.run now (s.sessions k) := by
  induction code generalizing s with
  | done => exact ⟨[], s, .nil s, hthread, rfl⟩
  | call c code ih =>
    obtain ⟨s₁, hs, hthread₁, hx, hclock₁⟩ := Pool.exists_call timeout hthread nofun hclock
    obtain ⟨ls, s', hrun, hdone, hx'⟩ := ih hthread₁ (Int.le_of_eq hclock₁)
    exact ⟨_, s', (Run.single hs).append hrun, hdone, by rw [hx', hx]; rfl⟩
  | now code ih =>
    obtain ⟨s₁, hs, hthread₁, hx, hclock₁⟩ := Pool.exists_call timeout hthread nofun hclock
    obtain ⟨ls, s', hrun, hdone, hx'⟩ := ih now hthread₁ (Int.le_of_eq hclock₁)
    exact ⟨_, s', (Run.single hs).append hrun, hdone, by rw [hx', hx]; rfl⟩
  | deadline code ih =>
    obtain ⟨s₁, hs, hthread₁, hx, hclock₁⟩ := Pool.exists_call timeout hthread nofun hclock
    obtain ⟨ls, s', hrun, hdone, hx'⟩ := ih _ hthread₁ (Int.le_of_eq hclock₁)
    exact ⟨_, s', (Run.single hs).append hrun, hdone, by rw [hx', hx]; rfl⟩

end

/-! ## Serialisation -/

/-- Thread `i` is inside member functions of session `k`, with calls to make. -/
def Pool.Inside (s : Pool ι α β) (i : ι) (k : Nat) : Prop :=
  ∃ job code, s.threads i = .running job k code ∧ code ≠ .done

/-- No two threads are inside member functions of one session. -/
def Pool.Exclusive (s : Pool ι α β) : Prop :=
  ∀ i j k, s.Inside i k → s.Inside j k → i = j

end Echo.Server
