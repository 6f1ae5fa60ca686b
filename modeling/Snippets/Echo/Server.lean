import Snippets.Echo.Session

/-!
# The echo session of `server.cc`

Member functions and handlers of `session` in `asio/echo/server.cc`. `start (with_timeout)` sets up
either a timer for each operation or one watchdog for the session.
-/

namespace Echo.Server

open Asio

/-- `socket_.close (); timer_.cancel ();` -/
def stop : Code := .call .close (.call .cancel .done)

variable (timeout : Int)

/-! ## With a watchdog -/

/-- `receive_with_watchdog ()`, which sets `deadline_` after it has started to receive -/
def receiveWithWatchdog : Code :=
  .call .receive (.now fun now => .call (.setDeadline (now + timeout)) .done)

def sendWithWatchdog (bytes : Nat) : Code :=
  .call (.write bytes) (.now fun now => .call (.setDeadline (now + timeout)) .done)

def startWatchdog : Code :=
  .now fun now => .deadline fun deadline =>
    if now ≥ deadline then stop
    else .deadline fun deadline => .call (.expiresAt deadline) (.call .asyncWait .done)

/-! ## With timeouts -/

def startTimeout : Code :=
  .now fun now => .call (.expiresAt (now + timeout)) (.call .asyncWait .done)

def receiveWithTimeout : Code := .call .receive (startTimeout timeout)

def sendWithTimeout (bytes : Nat) : Code := .call (.write bytes) (startTimeout timeout)

/-! ## The handlers -/

variable (withTimeout : Bool)

/-- `handle_receive` -/
def handleReceive (r : Result) : Code :=
  if withTimeout then
    .call .cancel (match r with
      | .error _ => stop
      | .ok bytes => sendWithTimeout timeout bytes)
  else match r with
    | .error _ => stop
    | .ok bytes => sendWithWatchdog timeout bytes

/-- `handle_write` -/
def handleWrite (r : Result) : Code :=
  if withTimeout then
    .call .cancel (match r with
      | .error _ => stop
      | .ok _ => receiveWithTimeout timeout)
  else match r with
    | .error _ => stop
    | .ok _ => receiveWithWatchdog timeout

/-- `handle_wait` -/
def handleWait (error : Option Error) : Code :=
  match error with
  | some _ => .done
  | none => if withTimeout then stop else startWatchdog

/-- `start (with_timeout)` -/
def start : Code :=
  if withTimeout then receiveWithTimeout timeout
  else (receiveWithWatchdog timeout).andThen startWatchdog

/-- The session of `server.cc`, started with `start (withTimeout)`. -/
def program : Program where
  size := bufferSize
  start₁ := if withTimeout then receiveWithTimeout timeout else receiveWithWatchdog timeout
  start₂ := if withTimeout then .done else startWatchdog
  begin _ := .done
  receive := handleReceive timeout withTimeout
  write := handleWrite timeout withTimeout
  wait := handleWait withTimeout

end Echo.Server
