import Snippets.Proxy.Proof.Relay

/-!
# End of stream

The first error a session handles closes both its sockets (`Step.closes`), and a session with
closed sockets neither receives nor writes any more (`closed_stays`). When the error is the end of
one side's stream, everything received from that side is written, and of the other direction what
its operation leaves to be written is lost (`eof_outcome`).
-/

namespace Proxy

open Lts Asio

variable {β : Type*} {timeout : Int} {s s' : State β} {l : Label β} {ls : List (Label β)} {d : Side}

/-! ## Closed sockets -/

/-- Both sockets are closed. -/
def Closed (s : State β) : Prop := ∀ x, s.isOpen x = false

theorem startWatchdog_closed (hc : Closed s) (now : Int) : Closed (s.startWatchdog d now) := by
  unfold State.startWatchdog
  split
  · exact stop_isOpen
  · exact hc

theorem handle_closed (hc : Closed s) (io : Io) (r : Result) (now : Int) :
    Closed (s.handle timeout d io r now) := by
  cases r with
  | error e =>
    rw [handle_error]
    exact stop_isOpen
  | ok n => cases io <;> cases d <;> exact hc

theorem handleWait_closed (hc : Closed s) (error : Option Error) (now : Int) :
    Closed (s.handleWait d error now) := by
  cases error with
  | some e => exact hc
  | none => exact startWatchdog_closed hc now

theorem handleConnect_closed (hc : Closed s) (error : Option Error) (now₁ now₂ now₃ now₄ : Int) :
    Closed (s.handleConnect timeout error now₁ now₂ now₃ now₄) := by
  cases error with
  | some e => exact hc
  | none =>
    have hstarted : Closed ((s.receiveFromClient timeout now₁).receiveFromServer timeout now₂) := hc
    exact startWatchdog_closed (startWatchdog_closed hstarted now₃) now₄

/-- A session with closed sockets transfers nothing, and does not open them. -/
theorem Step.closed (h : Step timeout s l s') (hc : Closed s) :
    Closed s' ∧ ∀ d, received d [l] = [] ∧ written d [l] = [] := by
  cases h with
  | connect _ => exact ⟨hc, fun _ => ⟨rfl, rfl⟩⟩
  | handleConnect => exact ⟨handleConnect_closed hc _ _ _ _ _, fun _ => ⟨rfl, rfl⟩⟩
  | @io x e c hs =>
    refine ⟨hc, fun d => ?_⟩
    cases hs with
    | deliver hopen => rw [hc x] at hopen; cases hopen
    | send hopen => rw [hc x.other] at hopen; cases hopen
    | finish | fail => exact ⟨rfl, rfl⟩
  | @handle x c =>
    have hset : Closed (s.setChannel x c) := hc
    exact ⟨handle_closed hset _ _ _, fun _ => ⟨rfl, rfl⟩⟩
  | expire => exact ⟨hc, fun _ => ⟨rfl, rfl⟩⟩
  | @handleWait x t =>
    have hset : Closed (s.setWatchdog x { s.watchdog x with timer := t }) := hc
    exact ⟨handleWait_closed hset _ _, fun _ => ⟨rfl, rfl⟩⟩

theorem received_append (d : Side) (ls ls' : List (Label β)) :
    received d (ls ++ ls') = received d ls ++ received d ls' :=
  List.flatMap_append

theorem written_append (d : Side) (ls ls' : List (Label β)) :
    written d (ls ++ ls') = written d ls ++ written d ls' :=
  List.flatMap_append

theorem closed_stays (h : Run (session β timeout) s ls s') (hc : Closed s) :
    Closed s' ∧ ∀ d, received d ls = [] ∧ written d ls = [] := by
  induction h with
  | nil => exact ⟨hc, fun _ => ⟨rfl, rfl⟩⟩
  | snoc _ hs ih =>
    obtain ⟨hc', hnone⟩ := ih
    obtain ⟨hc'', hlast⟩ := hs.closed hc'
    refine ⟨hc'', fun d => ?_⟩
    rw [received_append, written_append, (hnone d).1, (hnone d).2, (hlast d).1, (hlast d).2]
    exact ⟨rfl, rfl⟩

/-! ## The first error -/

theorem Step.closes {io : Io} {e : Error} {now : Int}
    (h : Step timeout s (.handle d io (.error e) now) s') : Closed s' := by
  cases h with
  | handle _ _ =>
    intro x
    rw [handle_error]
    exact stop_isOpen x

/-- Once an error was handled the sockets are closed. -/
theorem failed_closed (h : Exec (session β timeout) ls s) (hf : Failed d ls) : Closed s := by
  refine h.trace_invariant (I := fun ls s => Failed d ls → Closed s) (fun s _ hf => ?_)
    (fun ls s l s' _ ih hs hf => ?_) hf
  · obtain ⟨_, _, _, hm⟩ := hf
    cases hm
  · rcases failed_snoc.1 hf with hf | ⟨io, e, now, rfl⟩
    · exact (hs.closed (ih hf)).1
    · exact hs.closes

/-! ## What is lost -/

/-- What a direction received is what it wrote followed by what its operation leaves to be
written. -/
theorem received_eq (h : Exec (session β timeout) ls s) (hne : (s.channel d).ops ≠ []) :
    received d ls = written d ls ++ (s.channel d).unwritten ∧
      (s.channel d).unwritten.length ≤ bufferSize := by
  obtain ⟨held, hrelay, hholds⟩ := session_relays h d
  rw [hholds.cycle.unwritten_eq hne]
  have heq := Relay.taken_eq hrelay
  rw [given_events, taken_events] at heq
  exact ⟨heq, Relay.held_length_le hrelay⟩

/-- A receive that failed leaves nothing to be written. -/
theorem unwritten_of_error {c c' : Channel β} {held : List β} {e : Error}
    (hc : c.Cycle bufferSize held) (ht : c.Takes .receive (.error e) c') : c.unwritten = [] := by
  cases ht with
  | intro hops =>
    cases hc with
    | idle => simp at hops
    | receive | received | write => cases (singleton_ops hops).2.2
    | receiveFailed => rfl

/-- **What the end of a stream leaves.** When a handler is given the end of the stream of side `d`,
and nothing closed the sockets before, all bytes received from `d` are written. Of the bytes
received from the other side those that its operation leaves to be written, at most `bufferSize`,
are never written, so that direction loses nothing exactly if there are none. -/
theorem eof_outcome {now : Int} (h : Exec (session β timeout) ls s) (hopen : ∀ x, s.isOpen x = true)
    (hs : Step timeout s (.handle d .receive (.error .eof) now) s') {ls' : List (Label β)}
    {s'' : State β} (hrun : Run (session β timeout) s' ls' s'') :
    (∀ x, received x (ls ++ .handle d .receive (.error .eof) now :: ls') = received x ls ∧
      written x (ls ++ .handle d .receive (.error .eof) now :: ls') = written x ls) ∧
      written d ls = received d ls ∧
      received d.other ls = written d.other ls ++ (s.channel d.other).unwritten ∧
      (s.channel d.other).unwritten.length ≤ bufferSize ∧
      (written d.other ls = received d.other ls ↔ (s.channel d.other).unwritten = []) := by
  have hfirst : ∀ x, ¬Failed x ls := by
    intro x hf
    have hclosed := failed_closed h hf x
    rw [hopen x] at hclosed
    cases hclosed
  have hafter : ∀ x, received x (.handle d .receive (.error .eof) now :: ls') = [] ∧
      written x (.handle d .receive (.error .eof) now :: ls') = [] :=
    (closed_stays hrun hs.closes).2
  cases hs with
  | handle ht _ =>
    obtain ⟨hd, -⟩ := received_eq h ht.ops_ne
    obtain ⟨held, -, hholds⟩ := session_relays h d
    rw [unwritten_of_error hholds.cycle ht, List.append_nil] at hd
    obtain ⟨hup, -, -⟩ := (session_stage h d).running_of_ne ht.ops_ne
    have hne : (s.channel d.other).ops ≠ [] := by
      cases session_stage h d.other with
      | before hdown _ _ => exact absurd hup hdown
      | running _ _ h1 => exact List.ne_nil_of_length_pos (by omega)
      | after _ hf _ => exact absurd hf (hfirst _)
    obtain ⟨hother, hlen⟩ := received_eq h hne
    refine ⟨fun x => ?_, hd.symm, hother, hlen, ?_⟩
    · rw [received_append, written_append, (hafter x).1, (hafter x).2]
      exact ⟨List.append_nil _, List.append_nil _⟩
    · rw [hother]
      exact ⟨fun hw => List.self_eq_append_right.1 hw, fun hu => by rw [hu, List.append_nil]⟩

/-- One byte from the client is relayed, then the client's stream ends. -/
theorem eof_outcome_relayed : ∃ (ls : List (Label Nat)) (s s' : State Nat),
    Exec (session Nat 5) ls s ∧ received .client ls = [7] ∧
      Step 5 s (.handle .client .receive (.error .eof) 0) s' ∧
      written .client ls = received .client ls ∧ written .server ls = received .server ls := by
  have hnow : (0 : Int) ≤ 0 := Int.le_refl 0
  have hchunk : [7] ≠ [] := nofun
  have h1 := exec_connected.snoc (.io (d := .client) (.deliver rfl rfl hchunk (by decide)))
  have h2 := h1.snoc (.handle (d := .client) (.intro rfl) hnow)
  have h3 := h2.snoc (.io (d := .client) (.send rfl rfl hchunk ⟨[], rfl⟩))
  have h4 := h3.snoc (.io (d := .client) (.finish rfl))
  have h5 := h4.snoc (.handle (d := .client) (.intro rfl) hnow)
  have h6 := h5.snoc (.io (d := .client) (.fail (e := .eof) rfl))
  obtain ⟨-, hclient, -, -, hserver⟩ := eof_outcome h6 (fun x => by cases x <;> rfl)
    (.handle (d := .client) (.intro rfl) hnow) (.nil _)
  exact ⟨_, _, _, h6, rfl, .handle (.intro rfl) hnow, hclient, hserver.2 rfl⟩

/-- Two bytes from the target are received and one of them is written when the client's stream
ends: the other one is never written, however the run goes on. -/
theorem eof_loses : ∃ (ls : List (Label Nat)) (s : State Nat),
    ls = [.connect none, .handleConnect none 0 0 0 0, .io .server (.deliver [7, 8]),
      .handle .server .receive (.ok 2) 0, .io .server (.send [7]),
      .io .client (.fail .receive .eof), .handle .client .receive (.error .eof) 0] ∧
    Exec (session Nat 5) ls s ∧ received .server ls = [7, 8] ∧
    ∀ ls' s', Run (session Nat 5) s ls' s' → written .server (ls ++ ls') = [7] := by
  have hnow : (0 : Int) ≤ 0 := Int.le_refl 0
  have hchunk : [7, 8] ≠ [] := nofun
  have hpiece : [7] ≠ [] := nofun
  have h1 := exec_connected.snoc (.io (d := .server) (.deliver rfl rfl hchunk (by decide)))
  have h2 := h1.snoc (.handle (d := .server) (.intro rfl) hnow)
  have h3 := h2.snoc (.io (d := .server) (.send rfl rfl hpiece ⟨[8], rfl⟩))
  have h4 := h3.snoc (.io (d := .client) (.fail (e := .eof) rfl))
  have h5 := h4.snoc (.handle (d := .client) (.intro rfl) hnow)
  refine ⟨_, _, rfl, h5, rfl, fun ls' s' hrun => ?_⟩
  rw [written_append, ((closed_stays hrun fun x => by cases x <;> rfl).2 .server).2]
  rfl

end Proxy
