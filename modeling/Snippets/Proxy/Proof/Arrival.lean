import Snippets.Proxy.Proof.Path

/-!
# Bytes arrive

How many steps the sessions of a path still have to make, beside those of their timers: a byte costs
five for each session before it, for the steps of one cycle of receive and write that moves it
alone, and one for the session that it is in; and the operation of each direction may have some of
its cycle left (`State.due`). Every step of a session but one of a timer lowers the sum
(`Path.Goes.weight`), and only what the ends write adds to it: `connection_settles`.
-/

namespace Proxy

open Lts Asio Duplex

variable {β : Type*} {timeout : Int} {s s' : State β} {w : Link β} {rest p p' : Path β}
  {n k : Nat} {l : Label β} {c c' : Channel β} {d : Side}

/-! ## One session -/

/-- The steps until the connect is handled. -/
def Connect.due : Connect → Nat
  | .outstanding => 2
  | .completed _ => 1
  | .handled _ => 0

/-- 1 if the step is one of the operation of direction `d`. -/
def Label.moves (d : Side) : Label β → Nat
  | .io x _ | .handle x _ _ _ => if x = d then 1 else 0
  | _ => 0

/-- 1 unless the step is one of a timer. -/
def Label.advance : Label β → Nat
  | .expire _ _ | .handleWait _ _ _ => 0
  | _ => 1

theorem Label.Quiet.moves_eq (h : l.Quiet d) : l.moves d = 0 := by
  cases l with
  | io x e =>
    have hx : x ≠ d := fun hx => h.io e (by rw [hx])
    simp [moves, hx]
  | handle x io r now =>
    have hx : x ≠ d := fun hx => h.handle io r now (by rw [hx])
    simp [moves, hx]
  | _ => rfl

theorem taken_io (d : Side) (e : Asio.Event β) : Relay.taken e.relay = received d [.io d e] := by
  cases e <;> simp [Event.relay, Relay.taken, received]

theorem given_io (d : Side) (e : Asio.Event β) : Relay.given e.relay = written d [.io d e] := by
  cases e <;> simp [Event.relay, Relay.given, written]

theorem Turn.due (ht : Turn s d c l c') (hsingle : l.moves d = 1 → Single c)
    (hnil : s.connect = .completed none → c.ops = []) (hfail : ∀ io e, l ≠ .io d (.fail io e)) :
    c'.due + l.moves d ≤ c.due + 4 * (received d [l]).length + (written d [l]).length := by
  cases ht with
  | quiet hq =>
    rw [hq.moves_eq]
    omega
  | connect hc => simp [due_start (hnil hc), Op.due, Label.moves]
  | @io e _ hs =>
    have hmoves : (Label.io d e).moves d = 1 := if_pos rfl
    rw [hmoves]
    have hdue := (hsingle hmoves).due_step hs fun io e he => hfail io e (by rw [he])
    rwa [taken_io, given_io] at hdue
  | fail ht =>
    obtain ⟨-, n, hn⟩ := (hsingle (if_pos rfl)).takes ht
    cases hn
  | send ht =>
    have h := hsingle (if_pos rfl)
    have hold : c.due = 3 := h.due_takes ht
    rw [due_start (h.takes ht).1, hold]
    simp only [Op.due, Label.moves, if_true]
    omega
  | receive ht =>
    have h := hsingle (if_pos rfl)
    have hold : c.due = 1 := h.due_takes ht
    rw [due_start (h.takes ht).1, hold]
    simp only [Op.due, Label.moves, if_true]
    omega

/-- What a session has still to do with what it holds. -/
def State.due (s : State β) : Nat :=
  s.connect.due + ((s.channel .client).due + (s.channel .client).unwritten.length) +
    ((s.channel .server).due + (s.channel .server).unwritten.length)

theorem Forwarding.due (hf : Forwarding s) (h : Step timeout s l s') (hu : Undisturbed l s') :
    s'.due + l.advance ≤
      s.due + 5 * (received .client [l]).length + 5 * (received .server [l]).length := by
  obtain ⟨-, hmoved⟩ := hf.step h hu
  have hsingle : ∀ d, l.moves d = 1 → Single (s.channel d) := by
    intro d hl
    refine hf.single ?_ d
    by_contra hc
    have hops := hf.waiting hc
    cases h with
    | io hs => exact hs.ops_ne (hops _)
    | handle ht => exact ht.ops_ne (hops _)
    | connect | handleConnect | expire | handleWait => simp [Label.moves] at hl
  have hchannel : ∀ d, (s'.channel d).due + l.moves d ≤
      (s.channel d).due + 4 * (received d [l]).length + (written d [l]).length := fun d =>
    (h.turn d).due (hsingle d) (fun hc => hf.waiting (by simp [hc]) d) (hu.fails d)
  have hconnect : s'.connect.due + l.advance ≤
      s.connect.due + l.moves .client + l.moves .server := by
    cases h with
    | connect hc | handleConnect hc =>
      simp only [hc, Connect.due, Label.advance]
      omega
    | @io d e _ hs => cases d <;> simp [State.setChannel, Label.advance, Label.moves]
    | @handle d c io r now ht =>
      change (State.handle timeout (s.setChannel d c) d io r now).connect.due + 1 ≤ _
      rw [handle_connect]
      cases d <;> simp [State.setChannel, Label.moves]
    | expire => exact Nat.le_add_right_of_le (Nat.le_add_right _ _)
    | @handleWait d t error now =>
      change (State.handleWait (s.setWatchdog d _) d error now).connect.due + 0 ≤ _
      rw [handleWait_connect]
      exact Nat.le_add_right_of_le (Nat.le_add_right _ _)
  have hclient := congrArg List.length (hmoved .client)
  have hserver := congrArg List.length (hmoved .server)
  have h₁ := hchannel .client
  have h₂ := hchannel .server
  simp only [List.length_append] at hclient hserver
  unfold State.due
  omega

/-! ## The path -/

/-- The number of sessions. -/
def Path.hops : Path β → Nat
  | .wire _ => 0
  | .via _ _ rest => rest.hops + 1

/-- What the sessions have still to do, with `k` sessions before the path. -/
def Path.weight (k : Nat) : Path β → Nat
  | .wire w => 5 * k * w.down.length
  | .via w s rest =>
    5 * (rest.hops + 1) * w.up.length + 5 * k * w.down.length +
      (s.due + 5 * rest.hops * (s.channel .client).unwritten.length +
        5 * k * (s.channel .server).unwritten.length) + rest.weight (k + 1)

@[simp] theorem Path.hops_setFirst : (p.setFirst w).hops = p.hops := by
  cases p <;> rfl

@[simp] theorem Path.hops_setLast : (p.setLast w).hops = p.hops := by
  induction p with
  | wire _ => rfl
  | via w' s rest ih => simp [setLast, hops, ih]

theorem Path.weight_setFirst (k : Nat) (p : Path β) (w : Link β) :
    (p.setFirst w).weight k + 5 * p.hops * p.first.up.length + 5 * k * p.first.down.length =
      p.weight k + 5 * p.hops * w.up.length + 5 * k * w.down.length := by
  cases p with
  | wire w' => simp [setFirst, first, weight, hops]; omega
  | via w' s rest => simp [setFirst, first, weight, hops]; omega

theorem Path.weight_setLast (k : Nat) (p : Path β) (w : Link β) :
    (p.setLast w).weight k + 5 * (k + p.hops) * p.last.down.length =
      p.weight k + 5 * (k + p.hops) * w.down.length := by
  induction p generalizing k with
  | wire w' => simp [setLast, last, weight, hops]; omega
  | via w' s rest ih =>
    have hrest := ih (k + 1)
    have hk : k + 1 + rest.hops = k + (rest.hops + 1) := by omega
    rw [hk] at hrest
    simp only [setLast, last, weight, hops, hops_setLast]
    omega

/-- Every step of a session but one of a timer lowers the weight. -/
theorem Path.Goes.weight (h : p.Goes timeout n l p') (hok : p.Ok) (k : Nat) :
    p'.weight k + l.advance ≤ p.weight k ∧ p'.hops = p.hops := by
  induction h generalizing k with
  | @here w s s' rest l up down hs hu hup hdown =>
    refine ⟨?_, by simp [hops]⟩
    have hdue := hok.1.due hs hu
    obtain ⟨-, hmoved⟩ := hok.1.step hs hu
    have hrest := rest.weight_setFirst (k + 1) ⟨rest.first.up ++ written .client [l], down⟩
    have hclient := congrArg (fun x : List β => 5 * rest.hops * x.length) (hmoved .client)
    have hserver := congrArg (fun x : List β => 5 * k * x.length) (hmoved .server)
    simp only [List.length_append, Nat.mul_add, Nat.add_mul, Nat.mul_one] at hclient hserver hrest
    simp only [Path.weight, hops_setFirst, hup, List.length_append, Nat.mul_add, Nat.add_mul,
      Nat.mul_one]
    rw [hdown] at hrest
    simp only [List.length_append, Nat.mul_add] at hrest
    omega
  | next _ ih =>
    obtain ⟨hlt, hhops⟩ := ih hok.2 (k + 1)
    refine ⟨?_, by simp [hops, hhops]⟩
    simp only [Path.weight, hhops]
    omega

theorem Label.Advances.advance_eq (h : l.Advances) : l.advance = 1 := by
  cases l with
  | expire | handleWait => exact h.elim
  | _ => rfl

theorem Path.not_canGo (hok : p.Ok) (h : p.weight 0 = 0) : ¬p.CanGo timeout := by
  rintro ⟨n, l, p', hs, ha⟩
  have hlt := (hs.weight hok 0).1
  rw [ha.advance_eq] at hlt
  omega

/-! ## The result -/

/-- 1 for a step of a session that is not one of a timer. -/
def Path.Act.advance : Path.Act β → Nat
  | .ends _ => 0
  | .proxy _ l => l.advance

/-- The bytes that an end writes. -/
def Path.Act.writes : Path.Act β → Nat
  | .ends (.writeUp piece) | .ends (.writeDown piece) => piece.length
  | _ => 0

theorem Path.Step.weight {a : Path.Act β} (h : p.Step timeout a p') (hok : p.Ok) :
    p'.weight 0 + a.advance ≤ p.weight 0 + 5 * p.hops * a.writes ∧ p'.hops = p.hops := by
  cases h with
  | @near e w he hs =>
    refine ⟨?_, hops_setFirst⟩
    have hweight := p.weight_setFirst 0 w
    cases hs with
    | writeUp =>
      simp only [List.length_append, Nat.mul_add] at hweight
      simp only [Act.advance, Act.writes]
      omega
    | readDown =>
      simp only [Act.advance, Act.writes] at hweight ⊢
      omega
    | readUp | writeDown => exact he.elim
  | @far e w he hs =>
    refine ⟨?_, hops_setLast⟩
    have hweight := p.weight_setLast 0 w
    cases hs with
    | writeDown =>
      simp only [List.length_append, Nat.mul_add, Nat.zero_add] at hweight
      simp only [Act.advance, Act.writes]
      omega
    | readUp =>
      simp only [Act.advance, Act.writes, Nat.zero_add] at hweight ⊢
      omega
    | writeUp | readDown => exact absurd trivial he
  | proxy hs =>
    obtain ⟨hlt, hhops⟩ := hs.weight hok 0
    exact ⟨hlt, hhops⟩

theorem Path.Initial.weight (h : Path.Initial n p) (k : Nat) :
    p.weight k = 2 * n ∧ p.hops = n := by
  induction h generalizing k with
  | wire => simp [Path.weight, hops]
  | via hs _ ih =>
    obtain ⟨hweight, hhops⟩ := ih (k + 1)
    refine ⟨?_, by simp [hops, hhops]⟩
    have hops := hs.ops
    simp [Path.weight, hweight, State.due, hs.connect, Connect.due, due_nil, unwritten_nil, hops]
    omega

theorem length_writes (ls : List (Path.Act β)) :
    (ls.map Path.Act.writes).sum =
      (upIn (Path.trace ls)).length + (downIn (Path.trace ls)).length := by
  induction ls with
  | nil => rfl
  | cons a ls ih =>
    have hcons : Path.trace (a :: ls) = a.event.toList ++ Path.trace ls := rfl
    simp only [List.map_cons, List.sum_cons, ih, hcons, upIn, downIn, List.flatMap_append,
      List.length_append]
    cases a with
    | proxy => simp [Path.Act.event, Path.Act.writes]
    | ends e => cases e <;> simp [Path.Act.event, Path.Act.writes] <;> omega

/-- **Bytes arrive.** While no session is stopped and no operation or connect of one fails, the `n`
sessions make, beside those of their timers, at most two steps each, and five for each byte that an
end writes; and where none can go on, all bytes that are not read have arrived. -/
theorem connection_settles {ls : List (Path.Act β)} (h : Exec (connection β timeout n) ls p) :
    (ls.map Path.Act.advance).sum ≤
        2 * n + 5 * n * ((upIn (Path.trace ls)).length + (downIn (Path.trace ls)).length) ∧
      (0 < timeout → ¬p.CanGo timeout → p.up = p.last.up ∧ p.down = p.first.down) := by
  refine ⟨?_, Path.arrived (connection_ok h)⟩
  have hweight : p.hops = n ∧ (ls.map Path.Act.advance).sum + p.weight 0 ≤
      2 * n + 5 * n * (ls.map Path.Act.writes).sum := by
    refine h.trace_invariant (I := fun ls p => p.hops = n ∧
      (ls.map Path.Act.advance).sum + p.weight 0 ≤ 2 * n + 5 * n * (ls.map Path.Act.writes).sum)
      (fun p h0 => ?_) fun ls p a p' h ⟨hn, hi⟩ hs => ?_
    · obtain ⟨hw, hn⟩ := Path.Initial.weight h0 0
      exact ⟨hn, by simp [hw]⟩
    · obtain ⟨hlt, hhops⟩ := hs.weight (connection_ok h)
      refine ⟨hhops.trans hn, ?_⟩
      rw [hn] at hlt
      simp only [List.map_append, List.map_cons, List.map_nil, List.sum_append, List.sum_singleton,
        Nat.mul_add]
      omega
  rw [← length_writes]
  omega

/-- One proxy, and one byte from the client. -/
theorem connection_settles_one : ∃ (ls : List (Path.Act Nat)) (p : Path Nat),
    Exec (connection Nat 5 1) ls p ∧ ¬p.CanGo 5 ∧ p.up = p.last.up ∧ p.last.up = [7] ∧
      (ls.map Path.Act.advance).sum = 7 := by
  have hnow : (0 : Int) ≤ 0 := Int.le_refl 0
  have hpiece : [7] ≠ [] := by decide
  have hopen : ∀ x, start.isOpen x = true := fun _ => rfl
  have h0 : Exec (connection Nat 5 1) [] (.via ⟨[], []⟩ start (.wire ⟨[], []⟩)) :=
    .init (.via start_initial .wire)
  have h1 := h0.snoc (.near (e := .writeUp [7]) trivial .writeUp)
  have h2 := h1.snoc (.proxy (.here (.connect (e := none) rfl)
    ⟨hopen, by simp, by simp⟩ rfl rfl))
  have h3 := h2.snoc (.proxy (.here (.handleConnect rfl hnow hnow hnow hnow)
    ⟨hopen, by simp, by simp⟩ rfl rfl))
  have h4 := h3.snoc (.proxy (.here (.io (d := .client) (.deliver_head rfl rfl hpiece (by decide)))
    ⟨hopen, by simp, by simp⟩ rfl rfl))
  have h5 := h4.snoc (.proxy (.here (.handle (d := .client) (.head rfl) hnow)
    ⟨hopen, by simp, by simp⟩ rfl rfl))
  have h6 := h5.snoc (.proxy (.here (.io (d := .client) (.send_head rfl rfl hpiece ⟨[], rfl⟩))
    ⟨hopen, by simp, by simp⟩ rfl rfl))
  have h7 := h6.snoc (.proxy (.here (.io (d := .client) (.finish_head rfl))
    ⟨hopen, by simp, by simp⟩ rfl rfl))
  have h8 := h7.snoc (.proxy (.here (.handle (d := .client) (.head rfl) hnow)
    ⟨hopen, by simp, by simp⟩ rfl rfl))
  have hrest : ¬Path.CanGo 5 _ := Path.not_canGo (connection_ok h8) rfl
  exact ⟨_, _, h8, hrest, ((connection_settles h8).2 (by decide) hrest).1, rfl, rfl⟩

end Proxy
