import Snippets.Load.Pair
import Snippets.Proxy.Path

/-!
# A client and a server, through proxies

A session of `asio/echo/client.cc` that is connected through any number of proxy sessions of
`asio/proxy/server.cc` to an echo session of `asio/echo/server.cc`. The steps of the client and of
the server are those of a `Pair`, each at its end of the path. The proxy sessions are undisturbed,
as the session of the server is.
-/

namespace Load

open Lts

/-- A client and a server at the ends of a path. -/
structure Proxied where
  client : Peer
  path : Proxy.Path UInt8
  server : Echo.State UInt8

/-- What the client is connected to. -/
def Proxied.near (s : Proxied) : Pair := ⟨s.client, s.server, s.path.first.up, s.path.first.down⟩

/-- What the server is connected to. -/
def Proxied.far (s : Proxied) : Pair := ⟨s.client, s.server, s.path.last.up, s.path.last.down⟩

/-- A step of the client or of the server, or of proxy session number `n`. -/
inductive Proxied.Label
  | pair (l : Pair.Label)
  | proxy (n : Nat) (l : Proxy.Label UInt8)

/-- The step is one of the server. -/
def Pair.Label.OfServer : Pair.Label → Prop
  | .server _ => True
  | _ => False

/-- `timeout`, `withTimeout`: of the server; `timeout'`: of the proxies. -/
inductive Proxied.Step (timeout : Int) (withTimeout : Bool) (timeout' : Int) (s : Proxied) :
    Proxied.Label → Proxied → Prop
  | client {l : Pair.Label} {t : Pair} : ¬l.OfServer → Pair.Step timeout withTimeout s.near l t →
      Step timeout withTimeout timeout' s (.pair l)
        { s with client := t.client, path := s.path.setFirst ⟨t.toServer, t.toClient⟩ }
  | server {l : Pair.Label} {t : Pair} : l.OfServer → Pair.Step timeout withTimeout s.far l t →
      Step timeout withTimeout timeout' s (.pair l)
        { s with server := t.server, path := s.path.setLast ⟨t.toServer, t.toClient⟩ }
  | proxy {n : Nat} {l : Proxy.Label UInt8} {path : Proxy.Path UInt8} :
      s.path.Goes timeout' n l path →
      Step timeout withTimeout timeout' s (.proxy n l) { s with path := path }

/-- The client, the `n` proxies and the server connect. -/
structure Proxied.Initial (timeout : Int) (withTimeout : Bool) (n : Nat) (s : Proxied) : Prop where
  pair : Pair.Initial timeout withTimeout ⟨s.client, s.server, [], []⟩
  path : Proxy.Path.Initial n s.path

/-- A client and the session that serves it, with `n` proxies between them. -/
def proxied (timeout : Int) (withTimeout : Bool) (timeout' : Int) (n : Nat) :
    System Proxied Proxied.Label where
  init := Proxied.Initial timeout withTimeout n
  step := Proxied.Step timeout withTimeout timeout'

/-- The client and the server, with the bytes that are between them. -/
def Proxied.direct (s : Proxied) : Pair := ⟨s.client, s.server, s.path.up, s.path.down⟩

/-- What a step is without the proxies. -/
def Proxied.Label.direct : Proxied.Label → Option Pair.Label
  | .pair l => some l
  | .proxy _ _ => none

end Load
