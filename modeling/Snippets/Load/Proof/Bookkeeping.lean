import Snippets.Load.Session
import Mathlib.Algebra.BigOperators.Group.Finset.Basic
import Mathlib.Algebra.BigOperators.Group.Finset.Piecewise
import Mathlib.Algebra.BigOperators.Ring.Finset

/-!
# The counters of the load clients

What a session adds to the counters follows from where it is (`Ok`): a handler is a list of updates,
and the updates that a session has made together with those its handler has left are those of a
session that is connected, of one that was refused, or of one that failed later (`Tally`). The
counters are the sums over the sessions (`Books`).
-/

namespace Load

open Lts

variable {κ ι : Type*} [DecidableEq κ] {p : Program} {thread : κ → ι} {s s' : State κ}
  {l : Action κ} {ls : List (Action κ)} {us : List Update} {k : κ}

/-! ## Updates -/

/-- What an update adds to the counter `c`. -/
def Update.delta (u : Update) (c : Counter) : Int :=
  match u with
  | .inc c' => if c' = c then 1 else 0
  | .dec c' => if c' = c then -1 else 0

/-- What the updates add to the counter `c`. -/
def net (us : List Update) (c : Counter) : Int := us.count (.inc c) - us.count (.dec c)

/-- Between `connected++` and `connected--` -/
def Between (us : List Update) : Prop := .inc .connected ∈ us ∧ .dec .connected ∉ us

instance : DecidablePred Between := fun us =>
  inferInstanceAs (Decidable (.inc .connected ∈ us ∧ .dec .connected ∉ us))

theorem apply_eq (u : Update) (counters : Counter → Int) (c : Counter) :
    u.apply counters c = counters c + u.delta c := by
  cases u with
  | inc c' | dec c' =>
    by_cases hc : c' = c
    · subst hc
      simp [Update.apply, Update.delta, Int.sub_eq_add_neg]
    · rw [Update.apply, Function.update_of_ne (Ne.symm hc), Update.delta, if_neg hc, Int.add_zero]

theorem net_snoc (us : List Update) (u : Update) (c : Counter) :
    net (us ++ [u]) c = net us c + u.delta c := by
  unfold net
  cases u with
  | inc c' | dec c' =>
    by_cases hc : c' = c
    · subst hc
      simp [List.count_append, Update.delta]
      omega
    · simp [List.count_append, Update.delta, hc]

/-! ## Histories -/

omit [DecidableEq κ] in
theorem attempts_snoc [DecidableEq κ] (k : κ) (ls : List (Action κ)) (l : Action κ) :
    attempts k (ls ++ [l]) = attempts k ls + attempts k [l] := List.countP_append

theorem made_snoc (k : κ) (ls : List (Action κ)) (l : Action κ) :
    made k (ls ++ [l]) = made k ls ++ made k [l] := List.filterMap_append

theorem made_update_self (k : κ) (u : Update) : made k [.update k u] = [u] := by simp [made]

theorem made_update_ne {j : κ} (h : j ≠ k) (u : Update) : made k [.update j u] = [] := by
  simp [made, h]

/-! ## What a session adds -/

/-- The updates of a session whose connect attempt finished, in numbers. -/
structure Tally (us : List Update) (failed up down : Nat) : Prop where
  completed : us.count (.inc .completed) = 1
  completed' : us.count (.dec .completed) = 0
  failed : us.count (.inc .failed) = failed
  failed' : us.count (.dec .failed) = 0
  up : us.count (.inc .connected) = up
  down : us.count (.dec .connected) = down

/-- A handler after which a connected session goes on. -/
structure Handler.Keeps (h : Handler) : Prop where
  echoes : ∀ u ∈ h.updates, u = .inc .echoes
  next : ∃ op, op ≠ .connect ∧ h.next = some op

/-- A handler after which a connected session is over. -/
structure Handler.Loses (h : Handler) : Prop where
  perm : h.updates.Perm [.inc .failed, .dec .connected]
  next : h.next = none

/-- What the handlers of the load clients have in common. -/
structure Program.Lawful (p : Program) : Prop where
  refused : Tally (p.connect true).updates 1 0 0 ∧ (p.connect true).next = none
  accepted : Tally (p.connect false).updates 0 1 0 ∧
    ∃ op, op ≠ .connect ∧ (p.connect false).next = some op
  other : ∀ error equal op, op ≠ .connect →
    (p.handle error equal op).Keeps ∨ (p.handle error equal op).Loses

/-- The updates that a session made, and where it is. -/
inductive Ok : List Update → Session → Prop
  | made : Ok [] .made
  | connecting : Ok [] (.pending .connect)
  | up {us : List Update} {op : Op} : op ≠ .connect → Tally us 0 1 0 → Ok us (.pending op)
  | busy {us left : List Update} {op : Op} : op ≠ .connect → Tally (us ++ left) 0 1 0 →
      Ok us (.running left (some op))
  | refused {us left : List Update} : Tally (us ++ left) 1 0 0 → Ok us (.running left none)
  | failing {us left : List Update} : .inc .connected ∈ us → Tally (us ++ left) 1 1 1 →
      Ok us (.running left none)
  | never {us : List Update} : Tally us 1 0 0 → Ok us .ended
  | lost {us : List Update} : Tally us 1 1 1 → Ok us .ended

theorem Tally.keeps {h : Handler} (ht : Tally us 0 1 0) (hk : h.Keeps) :
    Tally (us ++ h.updates) 0 1 0 := by
  have hcount : ∀ u, u ≠ .inc .echoes → (us ++ h.updates).count u = us.count u := by
    intro u hu
    rw [List.count_append, List.count_eq_zero.2 fun hm => hu (hk.echoes u hm), Nat.add_zero]
  exact ⟨(hcount _ (by decide)).trans ht.completed, (hcount _ (by decide)).trans ht.completed',
    (hcount _ (by decide)).trans ht.failed, (hcount _ (by decide)).trans ht.failed',
    (hcount _ (by decide)).trans ht.up, (hcount _ (by decide)).trans ht.down⟩

theorem Tally.loses {h : Handler} (ht : Tally us 0 1 0) (hl : h.Loses) :
    Tally (us ++ h.updates) 1 1 1 := by
  constructor <;> rw [List.count_append, hl.perm.count_eq]
  · exact congrArg (· + 0) ht.completed
  · exact congrArg (· + 0) ht.completed'
  · exact congrArg (· + 1) ht.failed
  · exact congrArg (· + 0) ht.failed'
  · exact congrArg (· + 0) ht.up
  · exact congrArg (· + 1) ht.down

theorem Source.lawful (src : Source) : src.program.Lawful := by
  have haccepted : Tally [.inc .completed, .inc .connected] 0 1 0 := by constructor <;> rfl
  have hrefused : Tally [.inc .completed, .inc .failed] 1 0 0 := by constructor <;> rfl
  have hnone : ∀ op, op ≠ .connect → Handler.Keeps ⟨[], some op⟩ := fun op hop =>
    ⟨nofun, op, hop, rfl⟩
  have hread : ∀ equal : Bool,
      Handler.Keeps ⟨if equal then [.inc .echoes] else [], some .wait⟩ := by
    intro equal
    refine ⟨fun u hu => ?_, .wait, nofun, rfl⟩
    cases equal with
    | false => cases hu
    | true => exact List.mem_singleton.1 hu
  cases src with
  | client =>
    have hlost : Handler.Loses ⟨Client.onError, none⟩ := ⟨.refl _, rfl⟩
    refine ⟨⟨hrefused, rfl⟩, ⟨haccepted, .write, nofun, rfl⟩, fun error equal op hop => ?_⟩
    cases error with
    | true => cases op <;> first | exact absurd rfl hop | exact .inr hlost
    | false =>
      cases op with
      | connect => exact absurd rfl hop
      | write => exact .inl (hnone .read nofun)
      | read => exact .inl (hread equal)
      | wait => exact .inl (hnone .write nofun)
  | coClient =>
    have hlost : Handler.Loses ⟨[.dec .connected, .inc .failed], none⟩ := ⟨.swap .., rfl⟩
    refine ⟨⟨hrefused, rfl⟩, ⟨haccepted, .write, nofun, rfl⟩, fun error equal op hop => ?_⟩
    cases op with
    | connect => exact absurd rfl hop
    | write =>
      cases error with
      | true => exact .inr hlost
      | false => exact .inl (hnone .read nofun)
    | read =>
      cases error with
      | true => exact .inr hlost
      | false => exact .inl (hread equal)
    | wait => exact .inl (hnone .write nofun)

/-! ## The invariant -/

theorem Ok.handle (hp : p.Lawful) {op : Op} (error equal : Bool) (h : Ok us (.pending op)) :
    Ok us (.running (p.handle error equal op).updates (p.handle error equal op).next) := by
  cases h with
  | connecting =>
    change Ok [] (.running (p.connect error).updates (p.connect error).next)
    cases error with
    | true => exact hp.refused.2 ▸ .refused hp.refused.1
    | false =>
      obtain ⟨ht, op, hop, hnext⟩ := hp.accepted
      exact hnext ▸ .busy hop ht
  | up hop ht =>
    rcases hp.other error equal op hop with hk | hl
    · obtain ⟨op', hop', hnext⟩ := hk.next
      exact hnext ▸ .busy hop' (ht.keeps hk)
    · refine hl.next ▸ .failing ?_ (ht.loses hl)
      exact List.count_pos_iff.1 (by rw [ht.up]; exact Nat.one_pos)

theorem Ok.update {u : Update} {left : List Update} {next : Option Op}
    (h : Ok us (.running (u :: left) next)) : Ok (us ++ [u]) (.running left next) := by
  have hsame : us ++ u :: left = us ++ [u] ++ left := by simp
  cases h with
  | busy hop ht => exact .busy hop (hsame ▸ ht)
  | refused ht => exact .refused (hsame ▸ ht)
  | failing hup ht => exact .failing (List.mem_append_left _ hup) (hsame ▸ ht)

theorem Ok.ret {next : Option Op} (h : Ok us (.running [] next)) : Ok us (.goOn next) := by
  cases h with
  | busy hop ht => exact .up hop (List.append_nil us ▸ ht)
  | refused ht => exact .never (List.append_nil us ▸ ht)
  | failing _ ht => exact .lost (List.append_nil us ▸ ht)

/-- Session `k` made the updates of its handlers, and `completed++` once for its connect attempt. -/
structure Life (ls : List (Action κ)) (x : Session) (k : κ) : Prop where
  ok : Ok (made k ls) x
  once : (made k ls ++ x.left).count (.inc .completed) = attempts k ls

/-- The counters are what all sessions added. -/
structure Books [Fintype κ] (ls : List (Action κ)) (s : State κ) : Prop where
  life : ∀ k, Life ls (s.sessions k) k
  sum : ∀ c, s.counters c = ∑ k, net (made k ls) c

theorem Life.snoc {x : Session} (hok : Ok (made k ls ++ made k [l]) x)
    (hattempts : (made k ls ++ made k [l] ++ x.left).count (.inc .completed) =
      attempts k ls + attempts k [l]) : Life (ls ++ [l]) x k :=
  ⟨made_snoc k ls l ▸ hok, by rw [made_snoc, attempts_snoc, hattempts]⟩

theorem Life.other {x : Session} (h : Life ls x k) (hmade : made k [l] = [])
    (hattempts : attempts k [l] = 0) : Life (ls ++ [l]) x k := by
  refine .snoc ?_ ?_ <;> rw [hmade, List.append_nil]
  · exact h.ok
  · rw [h.once, hattempts, Nat.add_zero]

theorem Life.handle (hp : p.Lawful) {op : Op} (error equal : Bool)
    (h : Life ls (.pending op) k) :
    Life (ls ++ [.handle k op error equal])
      (.running (p.handle error equal op).updates (p.handle error equal op).next) k := by
  have hcount := h.once
  simp only [Session.left, List.append_nil] at hcount
  refine .snoc ?_ ?_ <;> rw [show made k [.handle k op error equal] = [] from rfl, List.append_nil]
  · exact h.ok.handle hp error equal
  · change (made k ls ++ (p.handle error equal op).updates).count (.inc .completed) = _
    rw [List.count_append, hcount]
    congr 1
    by_cases hop : op = .connect
    · subst hop
      have hone : (p.connect error).updates.count (.inc .completed) = 1 := by
        cases error with
        | true => exact hp.refused.1.completed
        | false => exact hp.accepted.1.completed
      rw [show (p.handle error equal .connect).updates = (p.connect error).updates from rfl, hone]
      simp [attempts]
    · have hzero : attempts k [.handle k op error equal] = 0 := by
        cases op <;> first | exact absurd rfl hop | rfl
      rw [hzero, List.count_eq_zero]
      rcases hp.other error equal op hop with hk | hl
      · exact fun hm => nomatch hk.echoes _ hm
      · rw [hl.perm.mem_iff]
        decide

theorem Life.update {u : Update} {left : List Update} {next : Option Op}
    (h : Life ls (.running (u :: left) next) k) :
    Life (ls ++ [.update k u]) (.running left next) k := by
  refine .snoc ?_ ?_ <;> rw [made_update_self]
  · exact h.ok.update
  · rw [List.append_assoc]
    exact h.once

theorem Life.ret {next : Option Op} (h : Life ls (.running [] next) k) :
    Life (ls ++ [.ret k]) (.goOn next) k := by
  have hleft : (Session.goOn next).left = [] := by cases next <;> rfl
  refine .snoc ?_ ?_ <;> rw [show made k [.ret k] = [] from rfl, List.append_nil]
  · exact h.ok.ret
  · rw [hleft]
    exact h.once

theorem Life.start (h : Life ls .made k) : Life (ls ++ [.start k]) (.pending .connect) k := by
  refine .snoc ?_ ?_ <;> rw [show made k [.start k] = [] from rfl, List.append_nil]
  · have hok := h.ok
    generalize made k ls = us at hok
    cases hok with
    | made => exact .connecting
  · exact h.once

theorem Life.move {j : κ} {x : Session} (hi : ∀ k, Life ls (s.sessions k) k)
    (hset : s'.sessions = Function.update s.sessions j x) (hj : Life (ls ++ [l]) x j)
    (hother : ∀ k, k ≠ j → made k [l] = [] ∧ attempts k [l] = 0) (k : κ) :
    Life (ls ++ [l]) (s'.sessions k) k := by
  by_cases h : k = j
  · subst h
    rwa [hset, Function.update_self]
  · rw [hset, Function.update_of_ne h]
    exact (hi k).other (hother k h).1 (hother k h).2

theorem Step.life (hp : p.Lawful) (hs : Step p thread s l s')
    (hi : ∀ k, Life ls (s.sessions k) k) (k : κ) : Life (ls ++ [l]) (s'.sessions k) k := by
  cases hs with
  | @start j hj =>
    exact .move hi rfl (hj ▸ hi j).start (fun _ _ => ⟨rfl, rfl⟩) k
  | @handle j op error equal hj _ =>
    refine .move hi rfl ((hj ▸ hi j).handle hp error equal) (fun k hk => ⟨rfl, ?_⟩) k
    cases op <;> simp [attempts, Ne.symm hk]
  | @update j u left next hj =>
    exact .move hi rfl (hj ▸ hi j).update
      (fun k hk => ⟨made_update_ne (Ne.symm hk) u, rfl⟩) k
  | @ret j next hj =>
    exact .move hi rfl (hj ▸ hi j).ret (fun _ _ => ⟨rfl, rfl⟩) k

/-! ## Sums over the sessions -/

section
variable [Fintype κ]

theorem sum_made_update (ls : List (Action κ)) (j : κ) (u : Update) (c : Counter) :
    ∑ k, net (made k (ls ++ [.update j u])) c = ∑ k, net (made k ls) c + u.delta c := by
  have h : ∀ k, net (made k (ls ++ [.update j u])) c =
      net (made k ls) c + if k = j then u.delta c else 0 := by
    intro k
    rw [made_snoc]
    by_cases hk : k = j
    · subst hk
      rw [made_update_self, net_snoc, if_pos rfl]
    · rw [made_update_ne (Ne.symm hk), List.append_nil, if_neg hk, Int.add_zero]
  rw [Finset.sum_congr rfl fun k _ => h k, Finset.sum_add_distrib, Finset.sum_ite_eq' Finset.univ,
    if_pos (Finset.mem_univ j)]

theorem Books.step (hp : p.Lawful) (hi : Books ls s) (hs : Step p thread s l s') :
    Books (ls ++ [l]) s' := by
  refine ⟨hs.life hp hi.life, fun c => ?_⟩
  have hquiet : (∀ k, made k [l] = []) → ∑ k, net (made k (ls ++ [l])) c = s.counters c := by
    intro h
    rw [hi.sum c]
    exact Finset.sum_congr rfl fun k _ => by rw [made_snoc, h k, List.append_nil]
  cases hs with
  | start | handle | ret => exact (hquiet fun _ => rfl).symm
  | @update j u left next hj =>
    rw [sum_made_update, ← hi.sum c]
    exact apply_eq u s.counters c

theorem clients_books (hp : p.Lawful) (h : Exec (clients p thread) ls s) : Books ls s := by
  refine h.trace_invariant (I := Books) (fun s h0 => ⟨fun k => ⟨?_, ?_⟩, fun c => ?_⟩)
    fun ls s l s' _ hi hs => hi.step hp hs
  · rw [h0.1]
    exact .made
  · rw [h0.1]
    rfl
  · rw [h0.2]
    exact (Finset.sum_eq_zero fun _ _ => rfl).symm

end

/-- The updates made so far are some of those of the whole life. -/
theorem Ok.tally {x : Session} (h : Ok us x) : us = [] ∨ ∃ left failed up down,
    Tally (us ++ left) failed up down ∧ failed ≤ 1 ∧ up ≤ 1 ∧
      (down = 0 ∨ (down = 1 ∧ .inc .connected ∈ us)) := by
  have hend : ∀ {failed up down}, Tally us failed up down → Tally (us ++ []) failed up down :=
    fun ht => (List.append_nil us).symm ▸ ht
  cases h with
  | made | connecting => exact .inl rfl
  | up _ ht => exact .inr ⟨_, _, _, _, hend ht, by decide, by decide, .inl rfl⟩
  | busy _ ht => exact .inr ⟨_, _, _, _, ht, by decide, by decide, .inl rfl⟩
  | refused ht => exact .inr ⟨_, _, _, _, ht, by decide, by decide, .inl rfl⟩
  | failing hup ht => exact .inr ⟨_, _, _, _, ht, by decide, by decide, .inr ⟨rfl, hup⟩⟩
  | never ht => exact .inr ⟨_, _, _, _, hend ht, by decide, by decide, .inl rfl⟩
  | lost ht =>
    refine .inr ⟨_, _, _, _, hend ht, by decide, by decide, .inr ⟨rfl, ?_⟩⟩
    exact List.count_pos_iff.1 (by rw [ht.up]; exact Nat.one_pos)

theorem Ok.once {x : Session} (h : Ok us x) : (us ++ x.left).count (.inc .completed) ≤ 1 := by
  cases h with
  | made | connecting => exact Nat.zero_le 1
  | up _ ht | never ht | lost ht =>
    change (us ++ []).count _ ≤ 1
    rw [List.append_nil]
    exact Nat.le_of_eq ht.completed
  | busy _ ht | refused ht | failing _ ht => exact Nat.le_of_eq ht.completed

/-- What a session has added at any time. -/
theorem Ok.counts {x : Session} (h : Ok us x) :
    us.count (.dec .completed) = 0 ∧ us.count (.dec .failed) = 0 ∧
      us.count (.inc .failed) ≤ 1 ∧ us.count (.inc .connected) ≤ 1 ∧
      us.count (.dec .connected) ≤ us.count (.inc .connected) := by
  rcases h.tally with rfl | ⟨left, failed, up, down, ht, hfailed, hup, hdown⟩
  · decide
  · have hpart : ∀ u, us.count u ≤ (us ++ left).count u := fun u => by
      rw [List.count_append]
      exact Nat.le_add_right ..
    have h₁ := ht.completed' ▸ hpart (.dec .completed)
    have h₂ := ht.failed' ▸ hpart (.dec .failed)
    have h₃ := ht.failed ▸ hpart (.inc .failed)
    have h₄ := ht.up ▸ hpart (.inc .connected)
    have h₅ := ht.down ▸ hpart (.dec .connected)
    refine ⟨by omega, by omega, by omega, by omega, ?_⟩
    rcases hdown with rfl | ⟨rfl, hmem⟩
    · omega
    · exact Nat.le_trans h₅ (List.count_pos_iff.2 hmem)

theorem Ok.net_connected {x : Session} (h : Ok us x) :
    net us .connected = if Between us then 1 else 0 := by
  obtain ⟨-, -, -, hup, hdown⟩ := h.counts
  unfold net
  split
  · rename_i hb
    have h₁ := List.count_pos_iff.2 hb.1
    have h₂ := List.count_eq_zero.2 hb.2
    omega
  · rename_i hb
    by_cases hmem : .inc .connected ∈ us
    · have h₁ : .dec .connected ∈ us := by
        by_contra hn
        exact hb ⟨hmem, hn⟩
      have h₂ := List.count_pos_iff.2 h₁
      omega
    · have h₁ := List.count_eq_zero.2 hmem
      omega

/-- A session that is in no handler. -/
theorem Ok.balance {x : Session} (h : Ok us x) (hx : ∀ left next, x ≠ .running left next) :
    net us .completed = net us .connected + net us .failed := by
  unfold net
  cases h with
  | made | connecting => rfl
  | busy | refused | failing => exact absurd rfl (hx _ _)
  | up _ ht | never ht | lost ht =>
    rw [ht.completed, ht.completed', ht.failed, ht.failed', ht.up, ht.down]
    rfl

/-! ## The result -/

variable [Fintype κ]

theorem Books.connected (hi : Books ls s) :
    s.counters .connected = (Finset.univ.filter fun k => Between (made k ls)).card := by
  rw [hi.sum, Finset.sum_congr rfl fun k _ => (hi.life k).ok.net_connected, Finset.sum_boole]

/-- **The bookkeeping of the load clients.** A session adds one to `completed` when its connect
attempt finishes and nothing else (what is missing is left for the handler to do), and at most one
to `failed`. `connected` is the number of sessions between their `connected++` and their
`connected--`, and when no session is in a handler `completed = connected + failed`. -/
theorem bookkeeping (src : Source) (h : Exec (clients src.program thread) ls s) :
    (∀ k, attempts k ls ≤ 1 ∧ (made k ls).count (.inc .completed) +
        (s.sessions k).left.count (.inc .completed) = attempts k ls ∧
      .dec .completed ∉ made k ls ∧
      (made k ls).count (.inc .failed) ≤ 1 ∧ .dec .failed ∉ made k ls ∧
      (made k ls).count (.inc .connected) ≤ 1 ∧
      (made k ls).count (.dec .connected) ≤ (made k ls).count (.inc .connected)) ∧
    s.counters .connected = (Finset.univ.filter fun k => Between (made k ls)).card ∧
    0 ≤ s.counters .connected ∧
    ((∀ k left next, s.sessions k ≠ .running left next) →
      s.counters .completed = s.counters .connected + s.counters .failed) := by
  have hi := clients_books src.lawful h
  refine ⟨fun k => ?_, hi.connected, ?_, fun hquiet => ?_⟩
  · obtain ⟨h₁, h₂, h₃, h₄, h₅⟩ := (hi.life k).ok.counts
    have honce := (hi.life k).once
    refine ⟨honce ▸ (hi.life k).ok.once, ?_, List.count_eq_zero.1 h₁, h₃, List.count_eq_zero.1 h₂,
      h₄, h₅⟩
    rw [← List.count_append, honce]
  · rw [hi.connected]
    exact Int.natCast_nonneg _
  · rw [hi.sum, hi.sum, hi.sum, ← Finset.sum_add_distrib]
    exact Finset.sum_congr rfl fun k _ => (hi.life k).ok.balance (hquiet k)

/-- Of two sessions on one thread, the first is refused. -/
theorem bookkeeping_refused : ∃ (ls : List (Action Bool)) (s : State Bool),
    Exec (clients Source.client.program fun _ : Bool => ()) ls s ∧ s.counters .completed = 1 ∧
      s.counters .completed = s.counters .connected + s.counters .failed ∧
      s.sessions false = .ended := by
  let s0 : State Bool := ⟨fun _ => .made, fun _ => 0⟩
  let s2 : State Bool := (s0.set false (.pending .connect)).set true (.pending .connect)
  have h0 : Exec (clients Source.client.program fun _ : Bool => ()) [] s0 :=
    .init ⟨fun _ => rfl, fun _ => rfl⟩
  have h1 := h0.snoc (.start (k := false) rfl)
  have h2 : Exec (clients Source.client.program fun _ : Bool => ()) _ s2 :=
    h1.snoc (.start (k := true) rfl)
  have hfree : s2.Free (fun _ : Bool => ()) () := by
    rintro (_ | _) - <;> exact ⟨nofun, nofun⟩
  have hrefuse : Step Source.client.program (fun _ : Bool => ()) s2
      (.handle false .connect true true) _ := .handle rfl hfree
  have h3 := h2.snoc hrefuse
  have h4 := h3.snoc (.update (k := false) rfl)
  have h5 := h4.snoc (.update (k := false) rfl)
  have h6 := h5.snoc (.ret (k := false) rfl)
  refine ⟨_, _, h6, rfl, (bookkeeping .client h6).2.2.2 ?_, rfl⟩
  rintro (_ | _) left next <;> nofun

end Load
