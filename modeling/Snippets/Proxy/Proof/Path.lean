import Snippets.Proxy.Proof.Forwarding

/-!
# A connection through proxies is a connection

While the sessions are undisturbed the bytes between the ends of a path, on the way or in a session,
are those of a duplex link: an event at an end is one of the link (`Path.Step.link`), and the steps
of the sessions in between leave the bytes and their order as they are (`Path.Goes.link`). Where no
session can go on all bytes have arrived (`Path.arrived`). The result is `connection_refines`.
-/

namespace Proxy

open Lts Asio Duplex

variable {β : Type*} {timeout : Int} {s s' : State β} {w w' : Link β} {rest p p' : Path β}
  {n : Nat} {l : Label β} {e : Duplex.Event β}

/-! ## The ends -/

@[simp] theorem Path.setFirst_first (p : Path β) : p.setFirst p.first = p := by
  cases p <;> rfl

@[simp] theorem Path.setLast_last (p : Path β) : p.setLast p.last = p := by
  induction p with
  | wire w => rfl
  | via w s rest ih => simp [last, setLast, ih]

theorem Path.exists_first (p : Path β) :
    ∃ a b, ∀ w, (p.setFirst w).link = ⟨a ++ w.up, w.down ++ b⟩ := by
  cases p with
  | wire w => exact ⟨[], [], fun w => by simp [setFirst, link, up, down]⟩
  | via w s rest =>
    refine ⟨rest.up ++ (s.channel .client).unwritten,
      (s.channel .server).unwritten ++ rest.down, fun w => ?_⟩
    simp [setFirst, link, up, down]

theorem Path.exists_last (p : Path β) :
    ∃ a b, ∀ w, (p.setLast w).link = ⟨w.up ++ a, b ++ w.down⟩ := by
  induction p with
  | wire w => exact ⟨[], [], fun w => by simp [setLast, link, up, down]⟩
  | via w s rest ih =>
    obtain ⟨a, b, h⟩ := ih
    refine ⟨a ++ ((s.channel .client).unwritten ++ w.up),
      w.down ++ ((s.channel .server).unwritten ++ b), fun w' => ?_⟩
    have hup := congrArg Link.up (h w')
    have hdown := congrArg Link.down (h w')
    simp only [link] at hup hdown
    simp [setLast, link, up, down, hup, hdown]

theorem step_near (hs : Duplex.Step w e w') (he : near e) (a b : List β) :
    Duplex.Step ⟨a ++ w.up, w.down ++ b⟩ e ⟨a ++ w'.up, w'.down ++ b⟩ := by
  cases hs with
  | @writeUp piece =>
    rw [← List.append_assoc]
    exact .writeUp
  | @readDown piece rest hr =>
    apply Duplex.Step.readDown
    simp [hr]
  | readUp | writeDown => exact he.elim

theorem step_far (hs : Duplex.Step w e w') (he : ¬near e) (a b : List β) :
    Duplex.Step ⟨w.up ++ a, b ++ w.down⟩ e ⟨w'.up ++ a, b ++ w'.down⟩ := by
  cases hs with
  | @writeDown piece =>
    rw [← List.append_assoc]
    exact .writeDown
  | @readUp piece rest hr =>
    apply Duplex.Step.readUp
    simp [hr]
  | writeUp | readDown => exact absurd trivial he

/-! ## The sessions -/

/-- The sessions of the path are undisturbed. -/
def Path.Ok : Path β → Prop
  | .wire _ => True
  | .via _ s rest => Forwarding s ∧ rest.Ok

theorem Path.Initial.ok (h : Path.Initial n p) : p.Ok := by
  induction h with
  | wire => trivial
  | via hs _ ih => exact ⟨hs.forwarding, ih⟩

theorem Path.Initial.link_eq (h : Path.Initial n p) : p.link = ⟨[], []⟩ := by
  induction h with
  | wire => rfl
  | via hs _ ih =>
    have hup := congrArg Link.up ih
    have hdown := congrArg Link.down ih
    simp only [link] at hup hdown
    simp [link, up, down, hup, hdown, unwritten_nil (hs.ops _)]

@[simp] theorem Path.ok_setFirst : (p.setFirst w).Ok ↔ p.Ok := by
  cases p <;> rfl

@[simp] theorem Path.ok_setLast : (p.setLast w).Ok ↔ p.Ok := by
  induction p with
  | wire _ => rfl
  | via w' s rest ih => simp [setLast, Ok, ih]

/-- **The steps of the sessions leave what is on the way, and its order, as they are.** -/
theorem Path.Goes.link (h : p.Goes timeout n l p') (hok : p.Ok) : p'.link = p.link ∧ p'.Ok := by
  induction h with
  | @here w s s' rest l up down hs hu hup hdown =>
    obtain ⟨hf, hmoved⟩ := hok.1.step hs hu
    obtain ⟨a, b, hfirst⟩ := rest.exists_first
    have hrest := hfirst rest.first
    have hrest' := hfirst ⟨rest.first.up ++ written .client [l], down⟩
    simp only [setFirst_first, Path.link, Link.mk.injEq] at hrest hrest'
    refine ⟨?_, hf, by simpa using hok.2⟩
    have hclient := hmoved .client
    have hserver := hmoved .server
    simp only [Path.link, Path.up, Path.down, Link.mk.injEq, hrest, hrest']
    constructor
    · rw [hup, ← List.append_assoc _ (received _ _), hclient]
      simp
    · rw [hdown, List.append_assoc (received _ _), ← List.append_assoc _ (received _ _), hserver]
      simp
  | next _ ih =>
    obtain ⟨hlink, hok'⟩ := ih hok.2
    simp only [Path.link, Link.mk.injEq] at hlink
    exact ⟨by simp [Path.link, Path.up, Path.down, hlink], hok.1, hok'⟩

theorem Path.Step.link {a : Path.Act β} (h : p.Step timeout a p') (hok : p.Ok) :
    Run (Duplex.link β) p.link a.event.toList p'.link ∧ p'.Ok := by
  cases h with
  | @near e w he hs =>
    obtain ⟨x, y, hfirst⟩ := p.exists_first
    have hlink := hfirst p.first
    rw [setFirst_first] at hlink
    refine ⟨.single ?_, by simpa using hok⟩
    rw [hlink, hfirst w]
    exact step_near hs he x y
  | @far e w he hs =>
    obtain ⟨x, y, hlast⟩ := p.exists_last
    have hlink := hlast p.last
    rw [setLast_last] at hlink
    refine ⟨.single ?_, by simpa using hok⟩
    rw [hlink, hlast w]
    exact step_far hs he x y
  | proxy hs =>
    obtain ⟨hlink, hok'⟩ := hs.link hok
    rw [hlink]
    exact ⟨.nil _, hok'⟩

/-! ## Going on -/

/-- Some session of the path can go on, without its timers. -/
def Path.CanGo (timeout : Int) (p : Path β) : Prop :=
  ∃ n l p', p.Goes timeout n l p' ∧ l.Advances

theorem Path.CanGo.next (h : rest.CanGo timeout) (w : Link β) (s : State β) :
    (Path.via w s rest).CanGo timeout := by
  obtain ⟨n, l, rest', hs, ha⟩ := h
  exact ⟨n + 1, l, _, .next hs, ha⟩

theorem Forwards.canGo (h : Forwards timeout s l s') (up down : List β)
    (hup : w.up = received .client [l] ++ up) (hdown : rest.first.down =
      received .server [l] ++ down) : (Path.via w s rest).CanGo timeout :=
  ⟨0, l, _, .here h.step h.undisturbed hup hdown, h.advances⟩

theorem Path.arrived (hok : p.Ok) (hpos : 0 < timeout) (hrest : ¬p.CanGo timeout) :
    p.up = p.last.up ∧ p.down = p.first.down := by
  induction p with
  | wire w => exact ⟨rfl, rfl⟩
  | via w s rest ih =>
    obtain ⟨hup, hdown⟩ := ih hok.2 fun h => hrest (h.next w s)
    have hwaits : ∀ d, (s.channel d).unwritten = [] ∧
        ∀ b, ∃ s', Forwards timeout s (.io d (.deliver [b])) s' := by
      intro d
      refine (hok.1.exists_step hpos d).resolve_left fun ⟨l, s', hs, hnone⟩ => hrest ?_
      exact hs.canGo w.up rest.first.down (by simp [hnone]) (by simp [hnone])
    obtain ⟨hclient, hreceive⟩ := hwaits .client
    obtain ⟨hserver, hreceive'⟩ := hwaits .server
    have hw : w.up = [] := by
      by_contra hne
      obtain ⟨b, bs, hb⟩ := List.exists_cons_of_ne_nil hne
      obtain ⟨s', hs⟩ := hreceive b
      exact hrest (hs.canGo bs rest.first.down (by simp [hb, received])
        (by simp [received]))
    have hfirst : rest.first.down = [] := by
      by_contra hne
      obtain ⟨b, bs, hb⟩ := List.exists_cons_of_ne_nil hne
      obtain ⟨s', hs⟩ := hreceive' b
      exact hrest (hs.canGo w.up bs (by simp [received])
        (by simp [hb, received]))
    rw [hfirst] at hdown
    simp [up, down, last, first, hup, hdown, hclient, hserver, hw]

/-! ## The result -/

/-- What the ends do in a run. -/
def Path.trace (ls : List (Path.Act β)) : List (Duplex.Event β) :=
  ls.flatMap fun a => a.event.toList

theorem connection_ok {ls : List (Path.Act β)} (h : Exec (connection β timeout n) ls p) : p.Ok :=
  h.invariant (I := Path.Ok) (fun _ h0 => Path.Initial.ok h0) fun _ _ _ hok hs => (hs.link hok).2

/-- **A connection through any number of proxies refines a connection without.** While no session is
stopped and no operation or connect of one fails (`Undisturbed`), what its ends write and read is
what they write and read at a duplex link that has, in order, the bytes on the way and those in the
sessions; so an end reads what the other one writes, but for these bytes. -/
theorem connection_refines {ls : List (Path.Act β)} (h : Exec (connection β timeout n) ls p) :
    Exec (Duplex.link β) (Path.trace ls) p.link ∧
      upIn (Path.trace ls) = upOut (Path.trace ls) ++ p.up ∧
        downIn (Path.trace ls) = downOut (Path.trace ls) ++ p.down := by
  obtain ⟨_, hlink, rfl, -⟩ := h.simulate (R := fun p w => p.link = w ∧ p.Ok)
    (fun p h0 => ⟨_, Path.Initial.link_eq h0, rfl, Path.Initial.ok h0⟩)
    (fun p a p' w ⟨hw, hok⟩ hs => by
      obtain ⟨hrun, hok'⟩ := hs.link hok
      exact ⟨_, hw ▸ hrun, rfl, hok'⟩)
  exact ⟨hlink, link_conserves hlink⟩

/-- A proxy that has received two bytes from the client, and written the first of them. -/
theorem connection_refines_one : ∃ (ls : List (Path.Act Nat)) (p : Path Nat),
    Exec (connection Nat 5 1) ls p ∧ p.last.up = [7] ∧ p.link = ⟨[7, 8], []⟩ ∧
      upIn (Path.trace ls) = upOut (Path.trace ls) ++ [7, 8] := by
  have hnow : (0 : Int) ≤ 0 := Int.le_refl 0
  have hchunk : [7, 8] ≠ [] := by decide
  have hpiece : [7] ≠ [] := by decide
  have hopen : ∀ x, start.isOpen x = true := fun _ => rfl
  have h0 : Exec (connection Nat 5 1) [] (.via ⟨[], []⟩ start (.wire ⟨[], []⟩)) :=
    .init (.via start_initial .wire)
  have h1 := h0.snoc (.near (e := .writeUp [7, 8]) trivial .writeUp)
  have h2 := h1.snoc (.proxy (.here (.connect (e := none) rfl)
    ⟨hopen, by simp, by simp⟩ rfl rfl))
  have h3 := h2.snoc (.proxy (.here (.handleConnect rfl hnow hnow hnow hnow)
    ⟨hopen, by simp, by simp⟩ rfl rfl))
  have h4 := h3.snoc (.proxy (.here (.io (d := .client) (.deliver rfl rfl hchunk (by decide)))
    ⟨hopen, by simp, by simp⟩ rfl rfl))
  have h5 := h4.snoc (.proxy (.here (.handle (d := .client) (.intro rfl) hnow)
    ⟨hopen, by simp, by simp⟩ rfl rfl))
  have h6 := h5.snoc (.proxy (.here (.io (d := .client) (.send rfl rfl hpiece ⟨[8], rfl⟩))
    ⟨hopen, by simp, by simp⟩ rfl rfl))
  exact ⟨_, _, h6, rfl, rfl, (connection_refines h6).2.1⟩

end Proxy
