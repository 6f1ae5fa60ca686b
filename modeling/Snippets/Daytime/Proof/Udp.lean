import Snippets.Daytime.Udp
import Mathlib.Data.List.Nodup

/-!
# The daytime service over UDP answers its clients

The server has one receive, so no receive writes `m_endpoint` while a handler is about to take the
destination of a reply from there, and every reply goes to the sender of the request that it
answers, whatever `m_endpoint` has become when it is sent. Message `k` is that of the `k`-th request
that was answered (`Entry`), and it is alive as long as its send is not handled. Together:
`clients_answered`.
-/

namespace Daytime.Udp

open Lts Asio

variable {ι : Type*} {ctime : Int → List Char} {s s' : Exchange ι} {l : Label ι}
  {ls : List (Label ι)} {result : Receive}

/-! ## The functions of the server -/

theorem handleReceive_none (x : Server ι) (text : List Char) : x.handleReceive none text =
    ⟨x.endpoint, x.made + 1, Function.update x.message x.made ⟨1, text⟩,
      x.receives ++ [.outstanding], x.sends ++ [⟨x.endpoint, x.made, false⟩]⟩ := by
  simp [Server.handleReceive, Server.makeMessage, Server.asyncSendTo, Server.acquire,
    Server.release, Server.startReceive, Server.set]

theorem handleReceive_some (x : Server ι) (e : Error) (text : List Char) :
    x.handleReceive (some e) text = { x with receives := x.receives ++ [.outstanding] } :=
  if_neg nofun

theorem onSend_eq (x : Server ι) (k : Nat) : x.onSend k =
    x.set k { x.message k with owners := (x.message k).owners - 1 } := by
  simp [Server.onSend, Server.acquire, Server.release, Server.set]

/-! ## What has happened -/

/-- The sender of the request that a step lets in. -/
def receipt : Label ι → List ι
  | .receive c => [c]
  | _ => []

/-- The time at which a step answers a request. -/
def answer : Label ι → List Int
  | .handleReceive none now => [now]
  | _ => []

theorem received_snoc (ls : List (Label ι)) (l : Label ι) :
    received (ls ++ [l]) = received ls ++ receipt l := by
  unfold received
  rw [List.filterMap_append]
  cases l <;> rfl

theorem answered_snoc (ls : List (Label ι)) (l : Label ι) :
    answered (ls ++ [l]) = answered ls ++ answer l := by
  unfold answered
  rw [List.filterMap_append]
  cases l with
  | handleReceive error now => cases error <;> rfl
  | _ => rfl

theorem Lost.snoc {c : ι} (h : Lost c ls) (l : Label ι) : Lost c (ls ++ [l]) :=
  let ⟨l', hmem, hl⟩ := h
  ⟨l', List.mem_append_left _ hmem, hl⟩

variable [DecidableEq ι]

/-- Whether a step ends a send to `c`. -/
def endsSend (c : ι) : Label ι → Bool
  | .put dest _ | .putFail dest _ => dest = some c
  | _ => false

theorem repliesTo_snoc (c : ι) (ls : List (Label ι)) (l : Label ι) :
    repliesTo c (ls ++ [l]) = repliesTo c ls + if endsSend c l then 1 else 0 := by
  unfold repliesTo
  rw [List.countP_append, List.countP_singleton]
  cases l <;> rfl

/-! ## The invariant -/

/-- A request that was answered. -/
structure Entry (ι : Type*) where
  client : ι
  time : Int

/-- A client that waits has a request or a reply under way, or has lost one. -/
inductive Owed (ls : List (Label ι)) (s : Exchange ι) (result : Receive) (c : ι) : Prop
  | requested : c ∈ s.requests → Owed ls s result c
  | received : result = .completed none → s.server.endpoint = some c → Owed ls s result c
  | sending {x : Send ι} : x ∈ s.server.sends → x.completed = false → x.dest = some c →
      Owed ls s result c
  | replied {text : List Char} : (c, text) ∈ s.replies → Owed ls s result c
  | lost : Lost c ls → Owed ls s result c

/-- The send is outstanding, to `c`. -/
def Send.isTo (c : ι) (x : Send ι) : Bool := !x.completed && x.dest = some c

/-- `result` is where the receive is, and `log` the requests that were answered. -/
structure Inv (ctime : Int → List Char) (ls : List (Label ι)) (s : Exchange ι) (result : Receive)
    (log : List (Entry ι)) : Prop where
  receives : s.server.receives = [result]
  made : s.server.made = log.length
  endpoint : result = .completed none → s.server.endpoint ≠ none
  received : received ls = log.map Entry.client ++
    if result = .completed none then s.server.endpoint.toList else []
  answered : answered ls = log.map Entry.time
  sends : ∀ x ∈ s.server.sends, ∃ e, log[x.message]? = some e ∧ x.dest = some e.client ∧
    s.server.message x.message = ⟨1, makeDaytimeString ctime e.time⟩
  nodup : (s.server.sends.map Send.message).Nodup
  freed : ∀ k, k ∉ s.server.sends.map Send.message → (s.server.message k).owners = 0
  replies : ∀ p ∈ s.replies, ∃ e ∈ log, p = (e.client, makeDaytimeString ctime e.time)
  ended : ∀ c output, s.client c = .ended output →
    ∃ e ∈ log, e.client = c ∧ output = (makeDaytimeString ctime e.time).take recvBuffSize
  count : ∀ c, (log.map Entry.client).count c =
    repliesTo c ls + s.server.sends.countP (Send.isTo c)
  owed : ∀ c, s.client c = .waiting → Owed ls s result c

section
variable {log : List (Entry ι)} {c : ι}

theorem Inv.init (h0 : (exchange ι ctime).init s) : Inv ctime [] s .outstanding [] := by
  obtain ⟨hserver, hclient, hrequests, hreplies⟩ := h0
  constructor <;> simp_all [Udp.received, Udp.answered, repliesTo, Server.startReceive]

theorem Inv.receives_eq (hi : Inv ctime ls s result log) {l₁ l₂ : List Receive} {r : Receive}
    (h : s.server.receives = l₁ ++ r :: l₂) : l₁ = [] ∧ l₂ = [] ∧ r = result := by
  rw [hi.receives] at h
  cases l₁ with
  | nil =>
    simp only [List.nil_append, List.cons.injEq] at h
    exact ⟨rfl, h.2.symm, h.1.symm⟩
  | cons => simp at h

/-- The server is left as it is, and no datagram is new. -/
theorem Inv.network (hi : Inv ctime ls s result log) (hreceipt : receipt l = [])
    (hanswer : answer l = []) (hends : ∀ c, endsSend c l = false) (hserver : s'.server = s.server)
    (hreplies : ∀ p ∈ s'.replies, p ∈ s.replies)
    (hended : ∀ c output, s'.client c = .ended output → s.client c = .ended output ∨
      ∃ e ∈ log, e.client = c ∧ output = (makeDaytimeString ctime e.time).take recvBuffSize)
    (howed : ∀ c, s'.client c = .waiting → Owed (ls ++ [l]) s' result c) :
    Inv ctime (ls ++ [l]) s' result log := by
  refine ⟨hserver ▸ hi.receives, hserver ▸ hi.made, hserver ▸ hi.endpoint, ?_, ?_,
    hserver ▸ hi.sends, hserver ▸ hi.nodup, hserver ▸ hi.freed,
    fun p hp => hi.replies p (hreplies p hp), fun c output hc => ?_, fun c => ?_, howed⟩
  · rw [received_snoc, hreceipt, List.append_nil, hserver]
    exact hi.received
  · rw [answered_snoc, hanswer, List.append_nil]
    exact hi.answered
  · exact (hended c output hc).elim (hi.ended c output) id
  · rw [repliesTo_snoc, hends, hserver]
    exact hi.count c

omit [DecidableEq ι] in
theorem Owed.mono {result' : Receive} (h : Owed ls s result c) (l : Label ι)
    (hrequests : c ∈ s.requests → Owed (ls ++ [l]) s' result' c)
    (hreceived : result = .completed none → s.server.endpoint = some c →
      Owed (ls ++ [l]) s' result' c)
    (hsends : ∀ x ∈ s.server.sends, x.completed = false → x.dest = some c →
      Owed (ls ++ [l]) s' result' c)
    (hreplies : ∀ text, (c, text) ∈ s.replies → Owed (ls ++ [l]) s' result' c) :
    Owed (ls ++ [l]) s' result' c := by
  cases h with
  | requested hmem => exact hrequests hmem
  | received hr he => exact hreceived hr he
  | sending hx hfalse hdest => exact hsends _ hx hfalse hdest
  | replied hmem => exact hreplies _ hmem
  | lost hlost => exact .lost (hlost.snoc l)

omit [DecidableEq ι] in
/-- The server is left as it is, and no datagram for the client is gone. -/
theorem Owed.network (h : Owed ls s result c) (l : Label ι) (hserver : s'.server = s.server)
    (hrequests : c ∈ s.requests → Owed (ls ++ [l]) s' result c)
    (hreplies : ∀ text, (c, text) ∈ s.replies → Owed (ls ++ [l]) s' result c) :
    Owed (ls ++ [l]) s' result c :=
  h.mono l hrequests (fun hr he => .received hr (hserver ▸ he))
    (fun _ hx hfalse hdest => .sending (hserver ▸ hx) hfalse hdest) hreplies

/-! ## The network and the clients -/

theorem Inv.send (hi : Inv ctime ls s result log) :
    Inv ctime (ls ++ [.send c none])
      { s.setClient c .waiting with requests := c :: s.requests } result log := by
  refine hi.network rfl rfl (fun _ => rfl) rfl (fun _ hp => hp) (fun c' output hc' => .inl ?_)
    fun c' hc' => ?_
  · change Function.update s.client c .waiting c' = _ at hc'
    by_cases hne : c' = c
    · simp [hne] at hc'
    · rwa [Function.update_of_ne hne] at hc'
  · change Function.update s.client c .waiting c' = _ at hc'
    by_cases hne : c' = c
    · exact .requested (by simp [hne])
    · rw [Function.update_of_ne hne] at hc'
      exact (hi.owed c' hc').network _ rfl (fun hmem => .requested (List.mem_cons_of_mem c hmem))
        fun _ hmem => .replied hmem

theorem Inv.thrown (hi : Inv ctime ls s result log) (hreceipt : receipt l = [])
    (hanswer : answer l = []) (hends : ∀ c, endsSend c l = false) :
    Inv ctime (ls ++ [l]) (s.setClient c .thrown) result log := by
  refine hi.network hreceipt hanswer hends rfl (fun _ hp => hp) (fun c' output hc' => .inl ?_)
    fun c' hc' => ?_
  · change Function.update s.client c .thrown c' = _ at hc'
    by_cases hne : c' = c
    · simp [hne] at hc'
    · rwa [Function.update_of_ne hne] at hc'
  · change Function.update s.client c .thrown c' = _ at hc'
    by_cases hne : c' = c
    · simp [hne] at hc'
    · rw [Function.update_of_ne hne] at hc'
      exact (hi.owed c' hc').network _ rfl (fun hmem => .requested hmem)
        fun _ hmem => .replied hmem

theorem Inv.read (hi : Inv ctime ls s result log) {text : List Char}
    {l₁ l₂ : List (ι × List Char)} (hr : s.replies = l₁ ++ (c, text) :: l₂) :
    Inv ctime (ls ++ [.read c text])
      { s.setClient c (.ended (text.take recvBuffSize)) with replies := l₁ ++ l₂ } result log := by
  have hsub : ∀ p ∈ l₁ ++ l₂, p ∈ s.replies := by
    intro p hp
    rw [hr]
    simp only [List.mem_append, List.mem_cons] at hp ⊢
    tauto
  refine hi.network rfl rfl (fun _ => rfl) rfl hsub (fun c' output hc' => ?_) fun c' hc' => ?_
  · change Function.update s.client c _ c' = _ at hc'
    by_cases hne : c' = c
    · subst hne
      rw [Function.update_self] at hc'
      cases hc'
      obtain ⟨e, he, heq⟩ := hi.replies (c', text) (by rw [hr]; simp)
      cases heq
      exact .inr ⟨e, he, rfl, rfl⟩
    · rw [Function.update_of_ne hne] at hc'
      exact .inl hc'
  · change Function.update s.client c _ c' = _ at hc'
    by_cases hne : c' = c
    · simp [hne] at hc'
    · rw [Function.update_of_ne hne] at hc'
      refine (hi.owed c' hc').network _ rfl (fun hmem => .requested hmem) fun t hmem => ?_
      rw [hr] at hmem
      refine @Owed.replied _ _ _ _ _ t ?_
      simp only [List.mem_append, List.mem_cons, Prod.mk.injEq] at hmem ⊢
      tauto

theorem Inv.loseRequest (hi : Inv ctime ls s result log) {cs₁ cs₂ : List ι}
    (hr : s.requests = cs₁ ++ c :: cs₂) :
    Inv ctime (ls ++ [.loseRequest c]) { s with requests := cs₁ ++ cs₂ } result log := by
  refine hi.network rfl rfl (fun _ => rfl) rfl (fun _ hp => hp) (fun _ _ hc' => .inl hc')
    fun c' hc' => (hi.owed c' hc').network _ rfl (fun hmem => ?_) fun _ hmem => .replied hmem
  by_cases hne : c' = c
  · exact .lost ⟨.loseRequest c, by simp, .inl (by rw [hne])⟩
  · rw [hr] at hmem
    refine .requested ?_
    simp only [List.mem_append, List.mem_cons] at hmem ⊢
    tauto

theorem Inv.loseReply (hi : Inv ctime ls s result log) {text : List Char}
    {l₁ l₂ : List (ι × List Char)} (hr : s.replies = l₁ ++ (c, text) :: l₂) :
    Inv ctime (ls ++ [.loseReply c text]) { s with replies := l₁ ++ l₂ } result log := by
  have hsub : ∀ p ∈ l₁ ++ l₂, p ∈ s.replies := by
    intro p hp
    rw [hr]
    simp only [List.mem_append, List.mem_cons] at hp ⊢
    tauto
  refine hi.network rfl rfl (fun _ => rfl) rfl hsub (fun _ _ hc' => .inl hc')
    fun c' hc' => (hi.owed c' hc').network _ rfl (fun hmem => .requested hmem) fun t hmem => ?_
  by_cases hne : c' = c
  · exact .lost ⟨.loseReply c text, by simp, .inr (.inl ⟨text, by rw [hne]⟩)⟩
  · rw [hr] at hmem
    refine @Owed.replied _ _ _ _ _ t ?_
    simp only [List.mem_append, List.mem_cons, Prod.mk.injEq] at hmem ⊢
    tauto

theorem Inv.duplicateRequest (hi : Inv ctime ls s result log) :
    Inv ctime (ls ++ [.duplicateRequest c]) { s with requests := c :: s.requests } result log :=
  hi.network rfl rfl (fun _ => rfl) rfl (fun _ hp => hp) (fun _ _ hc' => .inl hc')
    fun c' hc' => (hi.owed c' hc').network _ rfl
      (fun hmem => .requested (List.mem_cons_of_mem c hmem)) fun _ hmem => .replied hmem

theorem Inv.duplicateReply (hi : Inv ctime ls s result log) {text : List Char}
    (hr : (c, text) ∈ s.replies) : Inv ctime (ls ++ [.duplicateReply c text])
      { s with replies := (c, text) :: s.replies } result log := by
  refine hi.network rfl rfl (fun _ => rfl) rfl (fun p hp => ?_) (fun _ _ hc' => .inl hc')
    fun c' hc' => (hi.owed c' hc').network _ rfl (fun hmem => .requested hmem)
      fun _ hmem => .replied (List.mem_cons_of_mem _ hmem)
  rcases List.mem_cons.1 hp with rfl | hp
  · exact hr
  · exact hp

/-! ## The server -/

/-- A receive completes: nobody is about to use `m_endpoint`. -/
theorem Inv.receive (hi : Inv ctime ls s .outstanding log) {cs₁ cs₂ : List ι}
    (hr : s.requests = cs₁ ++ c :: cs₂) :
    Inv ctime (ls ++ [.receive c]) { s with
      server := { s.server with receives := [.completed none], endpoint := some c }
      requests := cs₁ ++ cs₂ } (.completed none) log := by
  refine ⟨rfl, hi.made, nofun, ?_, ?_, hi.sends, hi.nodup, hi.freed, hi.replies, hi.ended,
    fun c' => ?_, fun c' hc' => ?_⟩
  · rw [received_snoc, hi.received]
    simp [receipt]
  · rw [answered_snoc, hi.answered]
    exact List.append_nil _
  · rw [repliesTo_snoc]
    exact hi.count c'
  · refine (hi.owed c' hc').mono _ (fun hmem => ?_) nofun
      (fun _ hx hfalse hdest => .sending hx hfalse hdest) fun _ hmem => .replied hmem
    by_cases hne : c' = c
    · exact .received rfl (by rw [hne])
    · rw [hr] at hmem
      refine .requested ?_
      simp only [List.mem_append, List.mem_cons] at hmem ⊢
      tauto

theorem Inv.receiveFail (hi : Inv ctime ls s .outstanding log) (e : Error) :
    Inv ctime (ls ++ [.receiveFail e])
      { s with server := { s.server with receives := [.completed (some e)] } }
      (.completed (some e)) log := by
  refine ⟨rfl, hi.made, nofun, ?_, ?_, hi.sends, hi.nodup, hi.freed, hi.replies, hi.ended,
    fun c' => ?_, fun c' hc' => ?_⟩
  · rw [received_snoc, hi.received]
    simp [receipt]
  · rw [answered_snoc, hi.answered]
    exact List.append_nil _
  · rw [repliesTo_snoc]
    exact hi.count c'
  · exact (hi.owed c' hc').mono _ (fun hmem => .requested hmem) nofun
      (fun _ hx hfalse hdest => .sending hx hfalse hdest) fun _ hmem => .replied hmem

theorem Inv.refused {e : Error} (hi : Inv ctime ls s (.completed (some e)) log) (now : Int) :
    Inv ctime (ls ++ [.handleReceive (some e) now]) { s with
      server := { s.server with receives := [.outstanding] } } .outstanding log := by
  refine ⟨rfl, hi.made, nofun, ?_, ?_, hi.sends, hi.nodup, hi.freed, hi.replies, hi.ended,
    fun c' => ?_, fun c' hc' => ?_⟩
  · rw [received_snoc, hi.received]
    simp [receipt]
  · rw [answered_snoc, hi.answered]
    exact List.append_nil _
  · rw [repliesTo_snoc]
    exact hi.count c'
  · exact (hi.owed c' hc').mono _ (fun hmem => .requested hmem) nofun
      (fun _ hx hfalse hdest => .sending hx hfalse hdest) fun _ hmem => .replied hmem

theorem Inv.answers (hi : Inv ctime ls s (.completed none) log) (hc : s.server.endpoint = some c)
    (now : Int) : Inv ctime (ls ++ [.handleReceive none now]) { s with
      server := ⟨s.server.endpoint, s.server.made + 1,
        Function.update s.server.message s.server.made ⟨1, makeDaytimeString ctime now⟩,
        [.outstanding], s.server.sends ++ [⟨s.server.endpoint, s.server.made, false⟩]⟩ }
      .outstanding (log ++ [⟨c, now⟩]) := by
  have hmade := hi.made
  have hlt : ∀ x ∈ s.server.sends, x.message < s.server.made := by
    intro x hx
    obtain ⟨e, he, -⟩ := hi.sends x hx
    rw [hmade]
    exact (List.getElem?_eq_some_iff.1 he).1
  refine ⟨rfl, by simp [hmade], nofun, ?_, ?_, fun x hx => ?_, ?_, fun k hk => ?_, fun p hp => ?_,
    fun c' output hc' => ?_, fun c' => ?_, fun c' hc' => ?_⟩
  · rw [received_snoc, hi.received, hc]
    simp [receipt]
  · rw [answered_snoc, hi.answered]
    simp [answer]
  · rcases List.mem_append.1 hx with hx | hx
    · obtain ⟨e, he, hdest, hmessage⟩ := hi.sends x hx
      refine ⟨e, ?_, hdest, ?_⟩
      · rwa [List.getElem?_append_left (List.getElem?_eq_some_iff.1 he).1]
      · exact (Function.update_of_ne (Nat.ne_of_lt (hlt x hx)) ..).trans hmessage
    · rw [List.mem_singleton.1 hx]
      exact ⟨⟨c, now⟩, by simp [hmade], hc, Function.update_self ..⟩
  · rw [List.map_append]
    refine List.nodup_append.2 ⟨hi.nodup, List.nodup_singleton _, fun a ha b hb hab => ?_⟩
    obtain ⟨x, hx, rfl⟩ := List.mem_map.1 ha
    have := hlt x hx
    rw [hab, List.mem_singleton.1 hb] at this
    exact absurd this (Nat.lt_irrefl _)
  · simp only [List.map_append, List.mem_append, not_or] at hk
    have hne : k ≠ s.server.made := fun h => hk.2 (by simp [h])
    change (Function.update s.server.message s.server.made _ k).owners = 0
    rw [Function.update_of_ne hne]
    exact hi.freed k hk.1
  · obtain ⟨e, he, hpe⟩ := hi.replies p hp
    exact ⟨e, List.mem_append_left _ he, hpe⟩
  · obtain ⟨e, he, hec⟩ := hi.ended c' output hc'
    exact ⟨e, List.mem_append_left _ he, hec⟩
  · have hcount := hi.count c'
    rw [repliesTo_snoc, List.map_append, List.count_append, List.countP_append, hcount, hc]
    by_cases hcc : c = c'
    · simp [endsSend, Send.isTo, hcc, Nat.add_assoc]
    · simp [endsSend, Send.isTo, hcc]
  · refine (hi.owed c' hc').mono _ (fun hmem => .requested hmem) (fun _ he => ?_)
      (fun x hx hfalse hdest => .sending (List.mem_append_left _ hx) hfalse hdest)
      fun _ hmem => .replied hmem
    exact .sending (x := ⟨s.server.endpoint, s.server.made, false⟩)
      (List.mem_append_right _ (List.mem_singleton_self _)) rfl he

theorem Inv.sent (hi : Inv ctime ls s result log) {l₁ l₂ : List (Send ι)} {dest : Option ι}
    {k : Nat} (hs : s.server.sends = l₁ ++ ⟨dest, k, false⟩ :: l₂) (hreceipt : receipt l = [])
    (hanswer : answer l = []) (hends : ∀ c, endsSend c l = (dest = some c : Bool))
    (hserver : s'.server = { s.server with sends := l₁ ++ ⟨dest, k, true⟩ :: l₂ })
    (hclient : s'.client = s.client) (hrequests : s'.requests = s.requests)
    (hreplies : ∀ p ∈ s'.replies, p ∈ s.replies ∨
      ∃ e ∈ log, p = (e.client, makeDaytimeString ctime e.time))
    (hkept : ∀ p ∈ s.replies, p ∈ s'.replies)
    (howed : ∀ c, dest = some c → Owed (ls ++ [l]) s' result c) :
    Inv ctime (ls ++ [l]) s' result log := by
  have hmessages : (l₁ ++ ⟨dest, k, true⟩ :: l₂).map Send.message =
      s.server.sends.map Send.message := by
    rw [hs]
    simp
  have hold : ∀ x ∈ l₁ ++ ⟨dest, k, true⟩ :: l₂, ∃ y ∈ s.server.sends,
      y.message = x.message ∧ y.dest = x.dest := by
    intro x hx
    rw [hs]
    simp only [List.mem_append, List.mem_cons] at hx
    rcases hx with hx | rfl | hx
    · exact ⟨x, by simp [hx], rfl, rfl⟩
    · exact ⟨⟨dest, k, false⟩, by simp, rfl, rfl⟩
    · exact ⟨x, by simp [hx], rfl, rfl⟩
  refine ⟨?_, ?_, ?_, ?_, ?_, fun x hx => ?_, ?_, ?_, fun p hp => ?_, ?_, fun c' => ?_,
    fun c' hc' => ?_⟩
  · rw [hserver]
    exact hi.receives
  · rw [hserver]
    exact hi.made
  · rw [hserver]
    exact hi.endpoint
  · rw [received_snoc, hreceipt, List.append_nil, hserver]
    exact hi.received
  · rw [answered_snoc, hanswer, List.append_nil]
    exact hi.answered
  · rw [hserver] at hx ⊢
    obtain ⟨y, hy, hmessage, hdest⟩ := hold x hx
    rw [← hmessage, ← hdest]
    exact hi.sends y hy
  · rw [hserver]
    exact hmessages ▸ hi.nodup
  · rw [hserver]
    exact hmessages ▸ hi.freed
  · exact (hreplies p hp).elim (hi.replies p) id
  · rw [hclient]
    exact hi.ended
  · have hcount := hi.count c'
    rw [hs] at hcount
    rw [repliesTo_snoc, hends, hserver, hcount]
    by_cases hdc : dest = some c'
    · simp [Send.isTo, hdc]
      omega
    · simp [Send.isTo, hdc]
  · rw [hclient] at hc'
    by_cases hdc : dest = some c'
    · exact howed c' hdc
    · refine (hi.owed c' hc').mono _ (fun hmem => .requested (hrequests ▸ hmem))
        (fun hr he => .received hr (by rw [hserver]; exact he)) (fun x hx hfalse hdest => ?_)
        fun _ hmem => .replied (hkept _ hmem)
      refine .sending (x := x) ?_ hfalse hdest
      rw [hserver]
      rw [hs] at hx
      simp only [List.mem_append, List.mem_cons] at hx ⊢
      rcases hx with hx | rfl | hx
      · exact .inl hx
      · exact absurd hdest hdc
      · exact .inr (.inr hx)

theorem Inv.handleSend (hi : Inv ctime ls s result log) {l₁ l₂ : List (Send ι)} {dest : Option ι}
    {k : Nat} (hs : s.server.sends = l₁ ++ ⟨dest, k, true⟩ :: l₂) :
    Inv ctime (ls ++ [.handleSend k])
      { s with server := { s.server with sends := l₁ ++ l₂ }.onSend k } result log := by
  rw [onSend_eq]
  have hsub : ∀ x ∈ l₁ ++ l₂, x ∈ s.server.sends := by
    intro x hx
    rw [hs]
    simp only [List.mem_append, List.mem_cons] at hx ⊢
    tauto
  have hnodup := hi.nodup
  rw [hs, List.map_append, List.map_cons, List.nodup_middle, ← List.map_append,
    List.nodup_cons] at hnodup
  have hk : ∀ x ∈ l₁ ++ l₂, x.message ≠ k :=
    fun x hx h => hnodup.1 (List.mem_map.2 ⟨x, hx, h⟩)
  obtain ⟨e, -, -, hmessage⟩ := hi.sends ⟨dest, k, true⟩ (by rw [hs]; simp)
  refine ⟨hi.receives, hi.made, hi.endpoint, ?_, ?_, fun x hx => ?_, hnodup.2, fun j hj => ?_,
    hi.replies, hi.ended, fun c' => ?_, fun c' hc' => ?_⟩
  · rw [received_snoc]
    exact (List.append_nil _).trans hi.received
  · rw [answered_snoc]
    exact (List.append_nil _).trans hi.answered
  · obtain ⟨e, he, hdest, hmessage⟩ := hi.sends x (hsub x hx)
    exact ⟨e, he, hdest, (Function.update_of_ne (hk x hx) ..).trans hmessage⟩
  · change (Function.update s.server.message k _ j).owners = 0
    by_cases hjk : j = k
    · subst hjk
      rw [Function.update_self]
      exact congrArg (fun m : Message => m.owners - 1) hmessage
    · rw [Function.update_of_ne hjk]
      refine hi.freed j ?_
      rw [hs, List.map_append, List.map_cons, List.mem_append, List.mem_cons]
      change j ∉ (l₁ ++ l₂).map Send.message at hj
      rw [List.map_append, List.mem_append] at hj
      tauto
  · have hcount := hi.count c'
    rw [hs] at hcount
    rw [repliesTo_snoc, hcount]
    simp [endsSend, Send.isTo, Server.set]
  · refine (hi.owed c' hc').mono _ (fun hmem => .requested hmem) (fun hr he => .received hr he)
      (fun x hx hfalse hdest => ?_) fun _ hmem => .replied hmem
    refine .sending (x := x) ?_ hfalse hdest
    rw [hs] at hx
    change x ∈ l₁ ++ l₂
    simp only [List.mem_append, List.mem_cons] at hx ⊢
    rcases hx with hx | rfl | hx
    · exact .inl hx
    · cases hfalse
    · exact .inr hx

/-- **Every step keeps the invariant.** -/
theorem Inv.step (hi : Inv ctime ls s result log) (h : Step ctime s l s') :
    ∃ result' log', Inv ctime (ls ++ [l]) s' result' log' := by
  cases h with
  | send => exact ⟨_, _, hi.send⟩
  | @refuse c e => exact ⟨_, _, hi.thrown (l := .send c (some e)) rfl rfl fun _ => rfl⟩
  | receive hreceives hr =>
    obtain ⟨rfl, rfl, rfl⟩ := hi.receives_eq hreceives
    exact ⟨_, _, hi.receive hr⟩
  | @receiveFail _ _ e hreceives =>
    obtain ⟨rfl, rfl, rfl⟩ := hi.receives_eq hreceives
    exact ⟨_, _, hi.receiveFail e⟩
  | @handleReceive _ _ error now hreceives =>
    obtain ⟨rfl, rfl, rfl⟩ := hi.receives_eq hreceives
    cases error with
    | none =>
      obtain ⟨c, hc⟩ := Option.ne_none_iff_exists'.1 (hi.endpoint rfl)
      rw [handleReceive_none]
      exact ⟨_, _, hi.answers hc now⟩
    | some e =>
      rw [handleReceive_some]
      exact ⟨_, _, hi.refused now⟩
  | @put l₁ l₂ dest k hs _ =>
    obtain ⟨e, he, rfl, hmessage⟩ := hi.sends ⟨dest, k, false⟩ (by rw [hs]; simp)
    simp only [Option.toList_some, List.map_cons, List.map_nil, List.singleton_append, hmessage]
    refine ⟨_, _, hi.sent hs rfl rfl (fun _ => rfl) rfl rfl rfl (fun p hp => ?_)
      (fun p hp => List.mem_cons_of_mem _ hp) fun c' hc' => ?_⟩
    · rcases List.mem_cons.1 hp with rfl | hp
      · exact .inr ⟨e, List.mem_of_getElem? he, rfl⟩
      · exact .inl hp
    · cases hc'
      exact .replied List.mem_cons_self
  | @putFail l₁ l₂ dest k e hs =>
    refine ⟨_, _, hi.sent hs rfl rfl (fun _ => rfl) rfl rfl rfl (fun _ hp => .inl hp)
      (fun _ hp => hp) fun c' hc' => .lost ⟨.putFail dest e, by simp, .inr (.inr ⟨e, ?_⟩)⟩⟩
    rw [hc']
  | handleSend hs => exact ⟨_, _, hi.handleSend hs⟩
  | read _ hr => exact ⟨_, _, hi.read hr⟩
  | @readFail c => exact ⟨_, _, hi.thrown (l := .readFail c) rfl rfl fun _ => rfl⟩
  | loseRequest hr => exact ⟨_, _, hi.loseRequest hr⟩
  | loseReply hr => exact ⟨_, _, hi.loseReply hr⟩
  | duplicateRequest => exact ⟨_, _, hi.duplicateRequest⟩
  | duplicateReply hr => exact ⟨_, _, hi.duplicateReply hr⟩

theorem Inv.place (hi : Inv ctime ls s result log) {i : Nat} {e : Entry ι} (he : log[i]? = some e) :
    (Udp.received ls)[i]? = some e.client ∧ (Udp.answered ls)[i]? = some e.time := by
  obtain ⟨hlt, -⟩ := List.getElem?_eq_some_iff.1 he
  rw [hi.received, hi.answered, List.getElem?_append_left (by simpa using hlt), List.getElem?_map,
    List.getElem?_map, he]
  exact ⟨rfl, rfl⟩

end

end Daytime.Udp
