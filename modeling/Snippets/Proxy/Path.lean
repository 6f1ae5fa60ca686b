import Snippets.Lib.Duplex
import Snippets.Proxy.Model

/-!
# Connections through proxies

The target of a proxy (`asio/proxy/server.cc`) may be another proxy. A `Path` is a connection from a
client to a target through any number of proxy sessions, with the bytes on the way between each two
of them. The sessions are undisturbed: their operations do not fail, and they are not stopped. The
ends of a path are those of a duplex link.
-/

namespace Proxy

open Lts Asio Duplex

/-- A connection to the target, or one to a proxy session and the path from there on. -/
inductive Path (β : Type*)
  | wire (w : Link β)
  | via (w : Link β) (s : State β) (rest : Path β)

variable {β : Type*}

/-! ## The ends -/

/-- The connection at the client's end. -/
def Path.first : Path β → Link β
  | .wire w => w
  | .via w _ _ => w

def Path.setFirst : Path β → Link β → Path β
  | .wire _, w => .wire w
  | .via _ s rest, w => .via w s rest

/-- The connection at the target's end. -/
def Path.last : Path β → Link β
  | .wire w => w
  | .via _ _ rest => rest.last

def Path.setLast : Path β → Link β → Path β
  | .wire _, w => .wire w
  | .via w' s rest, w => .via w' s (rest.setLast w)

/-! ## What is on the way -/

/-- The bytes that are to reach the target. -/
def Path.up : Path β → List β
  | .wire w => w.up
  | .via w s rest => rest.up ++ ((s.channel .client).unwritten ++ w.up)

/-- The bytes that are to reach the client. -/
def Path.down : Path β → List β
  | .wire w => w.down
  | .via w s rest => w.down ++ ((s.channel .server).unwritten ++ rest.down)

/-- The link that a path is for its ends. -/
def Path.link (p : Path β) : Link β := ⟨p.up, p.down⟩

/-! ## The steps -/

/-- The step `l`, to `s'`, does not disturb the session. -/
structure Undisturbed (l : Label β) (s' : State β) : Prop where
  isOpen : ∀ x, s'.isOpen x = true
  fails : ∀ d io e, l ≠ .io d (.fail io e)
  connects : ∀ e, l ≠ .connect (some e)

/-- The session number `n` of the path makes the step `l`. -/
inductive Path.Goes (timeout : Int) : Path β → Nat → Label β → Path β → Prop
  | here {w : Link β} {s s' : State β} {rest : Path β} {l : Label β} {up down : List β} :
      Step timeout s l s' → Undisturbed l s' → w.up = received .client [l] ++ up →
      rest.first.down = received .server [l] ++ down →
      Goes timeout (.via w s rest) 0 l (.via ⟨up, w.down ++ written .server [l]⟩ s'
        (rest.setFirst ⟨rest.first.up ++ written .client [l], down⟩))
  | next {w : Link β} {s : State β} {rest rest' : Path β} {n : Nat} {l : Label β} :
      Goes timeout rest n l rest' → Goes timeout (.via w s rest) (n + 1) l (.via w s rest')

/-- What an end does, or proxy session number `n`. -/
inductive Path.Act (β : Type*)
  | ends (e : Duplex.Event β)
  | proxy (n : Nat) (l : Label β)

/-- An event at the client's end. -/
def near : Duplex.Event β → Prop
  | .writeUp _ | .readDown _ => True
  | .readUp _ | .writeDown _ => False

/-- The ends write and read, and undisturbed sessions go on. -/
inductive Path.Step (timeout : Int) (p : Path β) : Path.Act β → Path β → Prop
  | near {e : Duplex.Event β} {w : Link β} : near e → Duplex.Step p.first e w →
      Step timeout p (.ends e) (p.setFirst w)
  | far {e : Duplex.Event β} {w : Link β} : ¬near e → Duplex.Step p.last e w →
      Step timeout p (.ends e) (p.setLast w)
  | proxy {n : Nat} {l : Label β} {p' : Path β} : p.Goes timeout n l p' →
      Step timeout p (.proxy n l) p'

/-- A path with `n` sessions, which are connecting to their targets. -/
inductive Path.Initial : Nat → Path β → Prop
  | wire : Initial 0 (.wire ⟨[], []⟩)
  | via {n : Nat} {s : State β} {rest : Path β} : Proxy.Initial s → Initial n rest →
      Initial (n + 1) (.via ⟨[], []⟩ s rest)

/-- A connection through `n` proxies. -/
def connection (β : Type*) (timeout : Int) (n : Nat) : System (Path β) (Path.Act β) where
  init := Path.Initial n
  step := Path.Step timeout

/-- What a step is for the ends. -/
def Path.Act.event : Path.Act β → Option (Duplex.Event β)
  | .ends e => some e
  | .proxy _ _ => none

end Proxy
