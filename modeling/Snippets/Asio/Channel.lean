import Snippets.Lib.Relay

/-!
# Socket operations on a buffer

What the programs use of Boost.Asio's sockets: `async_receive` into a buffer, `async_write` from
it, and `close ()`. A `Channel` is a buffer with the operations on it that are outstanding or
completed. `Channel.Step` is what may happen to them, `Channel.Takes` that a completion is
dispatched to its handler.

`async_receive` completes with 1 to `cap` bytes, `cap` the size of the buffer, or with an error.
`async_write` writes its bytes in pieces, from the buffer as it is then, and completes with success
once it has written all of them, or with an error after some. After `close ()` no byte comes in or
goes out; what is outstanding then completes with an error, unless an `async_write` was done.

`Channel.Cycle` is a channel that is used for one operation at a time, receive and write in turn,
every write of what was received last: a bounded relay. Events keep it (`Cycle.step`), and so do
handlers that go on in turn (`Cycle.send`, `Cycle.receive_next`) or start nothing (`Cycle.takes`).
-/

namespace Asio

open Lts

variable {β : Type*}

/-- What a `sys::error_code` is told apart by: the end of the stream, an operation that was aborted,
and the rest. -/
inductive Error
  | eof
  | aborted
  | other
  deriving DecidableEq

/-- How an operation on a socket ends: the bytes transferred, or an error. -/
abbrev Result := Except Error Nat

/-- The operations on sockets, by the buffer that they are given. -/
inductive Io
  /-- `async_receive (buffer (b))` -/
  | receive
  /-- `async_write (buffer (b, size))` -/
  | write (size : Nat)
  deriving DecidableEq

/-- An operation, outstanding or completed. `sent`: the bytes an `async_write` has written. -/
structure Op where
  io : Io
  sent : Nat
  result : Option Result

/-- A buffer and the operations on it that are outstanding or completed, oldest first. -/
structure Channel (β : Type*) where
  buffer : List β
  ops : List Op

/-- An operation is started. -/
def Channel.start (c : Channel β) (io : Io) : Channel β :=
  { c with ops := c.ops ++ [⟨io, 0, none⟩] }

/-- What happens to an operation. -/
inductive Event (β : Type*)
  /-- an `async_receive` completes with data -/
  | deliver (chunk : List β)
  /-- an `async_write` writes more of its bytes -/
  | send (piece : List β)
  /-- an `async_write` completes with success -/
  | finish
  | fail (io : Io) (e : Error)

/-- `source` and `target`: the sockets received from and written to are open. -/
inductive Channel.Step (cap : Nat) (source target : Bool) (c : Channel β) :
    Event β → Channel β → Prop
  | deliver {l₁ l₂ : List Op} {chunk : List β} : source = true →
      c.ops = l₁ ++ ⟨.receive, 0, none⟩ :: l₂ → chunk ≠ [] → chunk.length ≤ cap →
      Step cap source target c (.deliver chunk) ⟨chunk ++ c.buffer.drop chunk.length,
        l₁ ++ ⟨.receive, 0, some (.ok chunk.length)⟩ :: l₂⟩
  | send {l₁ l₂ : List Op} {size sent : Nat} {piece : List β} : target = true →
      c.ops = l₁ ++ ⟨.write size, sent, none⟩ :: l₂ → piece ≠ [] →
      piece <+: (c.buffer.take size).drop sent →
      Step cap source target c (.send piece)
        { c with ops := l₁ ++ ⟨.write size, sent + piece.length, none⟩ :: l₂ }
  | finish {l₁ l₂ : List Op} {size : Nat} : c.ops = l₁ ++ ⟨.write size, size, none⟩ :: l₂ →
      Step cap source target c .finish
        { c with ops := l₁ ++ ⟨.write size, size, some (.ok size)⟩ :: l₂ }
  | fail {l₁ l₂ : List Op} {io : Io} {sent : Nat} {e : Error} :
      c.ops = l₁ ++ ⟨io, sent, none⟩ :: l₂ →
      Step cap source target c (.fail io e)
        { c with ops := l₁ ++ ⟨io, sent, some (.error e)⟩ :: l₂ }

/-- A completion leaves the queue for its handler. -/
inductive Channel.Takes (c : Channel β) : Io → Result → Channel β → Prop
  | intro {l₁ l₂ : List Op} {io : Io} {sent : Nat} {r : Result} :
      c.ops = l₁ ++ ⟨io, sent, some r⟩ :: l₂ → Takes c io r { c with ops := l₁ ++ l₂ }

section
variable {c : Channel β} {cap : Nat} {source target : Bool} {l : List Op}

/-- The first operation delivers, sends, fails or is dispatched. -/
theorem Channel.Step.deliver_head {chunk : List β} (hsource : source = true)
    (h : c.ops = ⟨.receive, 0, none⟩ :: l) (hne : chunk ≠ []) (hcap : chunk.length ≤ cap) :
    c.Step cap source target (.deliver chunk) ⟨chunk ++ c.buffer.drop chunk.length,
      ⟨.receive, 0, some (.ok chunk.length)⟩ :: l⟩ :=
  @Step.deliver _ _ _ _ _ [] _ _ hsource h hne hcap

theorem Channel.Step.send_head {size sent : Nat} {piece : List β} (htarget : target = true)
    (h : c.ops = ⟨.write size, sent, none⟩ :: l) (hne : piece ≠ [])
    (hpiece : piece <+: (c.buffer.take size).drop sent) :
    c.Step cap source target (.send piece)
      { c with ops := ⟨.write size, sent + piece.length, none⟩ :: l } :=
  @Step.send _ _ _ _ _ [] _ _ _ _ htarget h hne hpiece

theorem Channel.Step.finish_head {size : Nat} (h : c.ops = ⟨.write size, size, none⟩ :: l) :
    c.Step cap source target .finish { c with ops := ⟨.write size, size, some (.ok size)⟩ :: l } :=
  @Step.finish _ _ _ _ _ [] _ _ h

theorem Channel.Step.fail_head {io : Io} {sent : Nat} (h : c.ops = ⟨io, sent, none⟩ :: l)
    (e : Error) : c.Step cap source target (.fail io e)
      { c with ops := ⟨io, sent, some (.error e)⟩ :: l } :=
  @Step.fail _ _ _ _ _ [] _ _ _ _ h

theorem Channel.Takes.head {io : Io} {sent : Nat} {r : Result}
    (h : c.ops = ⟨io, sent, some r⟩ :: l) : c.Takes io r { c with ops := l } :=
  @Takes.intro _ _ [] _ _ _ _ h

end

/-! ## The cycle of receive and write -/

/-- The bytes that were received and are not written, from the operation on them. -/
def Op.unwritten (buffer : List β) (o : Op) : List β :=
  match o.io, o.result with
  | .receive, some (.ok n) => buffer.take n
  | .receive, _ => []
  | .write size, _ => (buffer.take size).drop o.sent

/-- The bytes of the channel that were received and are not written. -/
def Channel.unwritten (c : Channel β) : List β := c.ops.flatMap (Op.unwritten c.buffer)

/-- Receive, then write what was received, then receive again: at most one operation, and the bytes
`held` that it leaves to be written. -/
inductive Channel.Cycle (cap : Nat) : Channel β → List β → Prop
  | idle {b held : List β} : Cycle cap ⟨b, []⟩ held
  | receive {b : List β} : Cycle cap ⟨b, [⟨.receive, 0, none⟩]⟩ []
  | received {b held : List β} : held.length ≤ cap →
      Cycle cap ⟨held ++ b, [⟨.receive, 0, some (.ok held.length)⟩]⟩ held
  | receiveFailed {b : List β} {e : Error} : Cycle cap ⟨b, [⟨.receive, 0, some (.error e)⟩]⟩ []
  | write {b sent held : List β} {r : Option Result} : (∀ n, r = some (.ok n) → held = []) →
      Cycle cap ⟨sent ++ held ++ b, [⟨.write (sent.length + held.length), sent.length, r⟩]⟩ held

/-- What an event means at the relay. -/
def Event.relay : Event β → List (Relay.Event β)
  | .deliver chunk => [.take chunk]
  | .send piece => [.give piece]
  | _ => []

section
variable {cap : Nat} {source target : Bool} {c c' : Channel β} {held b : List β}

theorem eq_nil_of_add_length {x : Nat} (h : x + held.length = x) : held = [] :=
  List.eq_nil_of_length_eq_zero (by omega)

theorem singleton_ops {o o' : Op} {l₁ l₂ : List Op} (h : [o] = l₁ ++ o' :: l₂) :
    l₁ = [] ∧ l₂ = [] ∧ o' = o := by
  cases l₁ with
  | nil =>
    simp only [List.nil_append, List.cons.injEq] at h
    exact ⟨rfl, h.2.symm, h.1.symm⟩
  | cons => simp at h

/-- Events need an operation, and change one. -/
theorem Channel.Step.ops_length {e : Event β} (hs : c.Step cap source target e c') :
    c'.ops.length = c.ops.length := by
  cases hs with
  | deliver _ hops | send _ hops | finish hops | fail hops => rw [hops]; simp

theorem Channel.Step.ops_ne {e : Event β} (hs : c.Step cap source target e c') : c.ops ≠ [] := by
  cases hs with
  | deliver _ hops | send _ hops | finish hops | fail hops => rw [hops]; simp

theorem Channel.Takes.ops_length {io : Io} {r : Result} (ht : c.Takes io r c') :
    c'.ops.length + 1 = c.ops.length := by
  cases ht with
  | intro hops => rw [hops, List.length_append, List.length_append, List.length_cons]; omega

theorem Channel.Takes.ops_ne {io : Io} {r : Result} (ht : c.Takes io r c') : c.ops ≠ [] :=
  List.ne_nil_of_length_pos (by rw [← ht.ops_length]; omega)

theorem Channel.start_length (io : Io) : (c.start io).ops.length = c.ops.length + 1 := by
  simp [Channel.start]

/-- An operation leaves the bytes to be written that the cycle says. -/
theorem Channel.Cycle.unwritten_eq (hc : c.Cycle cap held) (hne : c.ops ≠ []) :
    c.unwritten = held := by
  cases hc with
  | idle => exact absurd rfl hne
  | receive => rfl
  | received => simp [Channel.unwritten, Op.unwritten]
  | receiveFailed => rfl
  | write => simp [Channel.unwritten, Op.unwritten, List.take_append]

/-- **Every event of a channel in its cycle is a step of the bounded relay.** -/
theorem Channel.Cycle.step {e : Event β} (hc : c.Cycle cap held)
    (hs : c.Step cap source target e c') :
    ∃ held', Run (Relay.relay β cap) held e.relay held' ∧ c'.Cycle cap held' := by
  cases hc with
  | idle => cases hs <;> simp_all
  | receive =>
    cases hs with
    | deliver _ hops _ hlen =>
      obtain ⟨rfl, rfl, -⟩ := singleton_ops hops
      exact ⟨_, .single (.take hlen), .received hlen⟩
    | send _ hops | finish hops => cases (singleton_ops hops).2.2
    | fail hops =>
      obtain ⟨rfl, rfl, ho⟩ := singleton_ops hops
      cases ho
      exact ⟨_, .nil _, .receiveFailed⟩
  | received | receiveFailed =>
    cases hs with
    | deliver _ hops | send _ hops | finish hops | fail hops => cases (singleton_ops hops).2.2
  | @write b sent held r hr =>
    cases hs with
    | deliver _ hops => cases (singleton_ops hops).2.2
    | @send _ _ _ _ piece _ hops _ hpiece =>
      obtain ⟨rfl, rfl, ho⟩ := singleton_ops hops
      cases ho
      have hheld :
          ((sent ++ held ++ b).take (sent.length + held.length)).drop sent.length = held := by
        simp [List.take_append]
      rw [hheld] at hpiece
      obtain ⟨rest, rfl⟩ := hpiece
      refine ⟨rest, .single .give, ?_⟩
      have hwrite : Channel.Cycle cap ⟨sent ++ piece ++ rest ++ b,
          [⟨.write ((sent ++ piece).length + rest.length), (sent ++ piece).length, none⟩]⟩ rest :=
        .write nofun
      simpa [Nat.add_assoc] using hwrite
    | finish hops =>
      obtain ⟨rfl, rfl, ho⟩ := singleton_ops hops
      simp only [Op.mk.injEq, Io.write.injEq] at ho
      obtain ⟨rfl, hsent, -⟩ := ho
      obtain rfl := eq_nil_of_add_length hsent
      refine ⟨[], .nil _, ?_⟩
      exact hsent ▸ .write fun _ _ => rfl
    | fail hops =>
      obtain ⟨rfl, rfl, ho⟩ := singleton_ops hops
      cases ho
      exact ⟨_, .nil _, .write nofun⟩

theorem Channel.Takes.io_eq {io : Io} {r : Result} {o : Op} (ht : c.Takes io r c')
    (hops : c.ops = [o]) : o.io = io := by
  cases ht with
  | intro hr =>
    rw [hops] at hr
    rw [← (singleton_ops hr).2.2]

/-- A handler that starts nothing leaves the channel without an operation. -/
theorem Channel.Cycle.takes {io : Io} {r : Result} (hc : c.Cycle cap held) (ht : c.Takes io r c') :
    c'.ops = [] ∧ c'.Cycle cap held := by
  cases ht with
  | @intro l₁ l₂ _ sent _ hops =>
    have hnil : l₁ ++ l₂ = [] := by
      cases hc with
      | idle => simp at hops
      | receive | received | receiveFailed | write =>
        obtain ⟨rfl, rfl, -⟩ := singleton_ops hops
        rfl
    simp only [hnil]
    exact ⟨trivial, .idle⟩

/-- What a receive hands over. -/
theorem Channel.Cycle.received_eq {n : Nat} (hc : c.Cycle cap held)
    (ht : c.Takes .receive (.ok n) c') :
    c'.ops = [] ∧ n = held.length ∧ n ≤ cap ∧ c'.buffer = c.buffer ∧ ∃ b, c.buffer = held ++ b := by
  cases ht with
  | intro hops =>
    cases hc with
    | idle => simp at hops
    | receive | receiveFailed | write => cases (singleton_ops hops).2.2
    | @received b _ hlen =>
      obtain ⟨rfl, rfl, ho⟩ := singleton_ops hops
      cases ho
      exact ⟨rfl, rfl, hlen, rfl, b, rfl⟩

/-- A write that ended with success leaves nothing to be written. -/
theorem Channel.Cycle.written_eq {size n : Nat} (hc : c.Cycle cap held)
    (ht : c.Takes (.write size) (.ok n) c') : c'.ops = [] ∧ held = [] := by
  cases ht with
  | intro hops =>
    cases hc with
    | idle => simp at hops
    | receive | received | receiveFailed => cases (singleton_ops hops).2.2
    | write hr =>
      obtain ⟨rfl, rfl, ho⟩ := singleton_ops hops
      simp only [Op.mk.injEq] at ho
      exact ⟨rfl, hr n ho.2.2.symm⟩

theorem Channel.cycle_write (h : b.take held.length = held) :
    Channel.Cycle cap ⟨b, [⟨.write held.length, 0, none⟩]⟩ held := by
  have hwrite : Channel.Cycle cap ⟨[] ++ held ++ b.drop held.length,
      [⟨.write (([] : List β).length + held.length), ([] : List β).length, none⟩]⟩ held :=
    .write nofun
  have hb : held ++ b.drop held.length = b := by
    have hsplit := List.take_append_drop held.length b
    rwa [h] at hsplit
  simpa [hb] using hwrite

theorem Channel.Cycle.send {n : Nat} (hc : c.Cycle cap held) (ht : c.Takes .receive (.ok n) c') :
    (c'.start (.write (min n cap))).Cycle cap held := by
  obtain ⟨hops, rfl, hlen, hbuf, b, hb⟩ := hc.received_eq ht
  have htake : c'.buffer.take held.length = held := by
    rw [hbuf, hb, List.take_left]
  have hwrite : Channel.Cycle cap ⟨c'.buffer, [⟨.write held.length, 0, none⟩]⟩ held :=
    cycle_write htake
  rw [Nat.min_eq_left hlen, Channel.start, hops]
  exact hwrite

theorem Channel.Cycle.receive_next {size n : Nat} (hc : c.Cycle cap held)
    (ht : c.Takes (.write size) (.ok n) c') : (c'.start .receive).Cycle cap held := by
  obtain ⟨hops, rfl⟩ := hc.written_eq ht
  rw [Channel.start, hops]
  exact .receive

theorem Channel.Step.mono {cap' : Nat} {e : Event β} (hs : c.Step cap source target e c')
    (hcap : cap ≤ cap') : c.Step cap' source target e c' := by
  cases hs with
  | deliver hopen hops hne hlen => exact .deliver hopen hops hne (Nat.le_trans hlen hcap)
  | send hopen hops hne hpiece => exact .send hopen hops hne hpiece
  | finish hops => exact .finish hops
  | fail hops => exact .fail hops

theorem Channel.Step.io_eq {e : Event β} (hs : c.Step cap source target e c') :
    c'.ops.map Op.io = c.ops.map Op.io := by
  cases hs with
  | deliver _ hops | send _ hops | finish hops | fail hops => rw [hops]; simp

theorem Channel.Step.buffer_length {e : Event β}
    (hs : c.Step c.buffer.length source target e c') :
    c'.buffer.length = c.buffer.length := by
  cases hs with
  | deliver _ _ _ hlen =>
    simp only [List.length_append, List.length_drop]
    omega
  | send | finish | fail => rfl

end

end Asio
