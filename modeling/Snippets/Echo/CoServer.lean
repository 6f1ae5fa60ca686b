import Snippets.Echo.Session

/-!
# The echo session of `co_server.cc`

The coroutines of `session` in `asio/echo/co_server.cc`, each cut into the pieces between its
suspensions. A coroutine that is spawned begins at some later moment; one that the strand runs at
once begins right after the piece of code that spawned it, which does not touch what it touches.
-/

namespace Echo.CoServer

open Asio

variable (timeout : Int)

/-! ## With timeouts -/

/-- `start_timeout ()` -/
def startTimeout : Code := .call (.spawn .wait) .done

/-- The `echo` coroutine from the top of its loop to `async_receive`. -/
def receiveWithTimeout : Code :=
  startTimeout.andThen (.call (.resize bufferSize) (.call .receive .done))

/-- From `async_receive` on. -/
def receivedWithTimeout (r : Result) : Code :=
  .call .cancel (match r with
    | .error _ => .done
    | .ok n => startTimeout.andThen (.call (.resize n) (.call .writeBuffer .done)))

/-- From `async_write` on. -/
def writtenWithTimeout (r : Result) : Code :=
  .call .cancel (match r with
    | .error _ => .done
    | .ok _ => receiveWithTimeout)

/-- The `wait` coroutine up to `async_wait`. -/
def waitTimeout : Code :=
  .now fun now => .call (.expiresAt (now + timeout)) (.call .asyncWait .done)

/-- From `async_wait` on. -/
def waitedTimeout (error : Option Error) : Code :=
  match error with
  | none => .call .close .done
  | some _ => .done

/-! ## With a watchdog -/

/-- The `echo` coroutine from the top of its loop to `async_receive`. -/
def receiveWithWatchdog : Code :=
  .now fun now => .call (.setDeadline (now + timeout))
    (.call (.resize bufferSize) (.call .receive .done))

/-- From `async_receive` on. -/
def receivedWithWatchdog (r : Result) : Code :=
  match r with
  | .error _ => .call .cancel .done
  | .ok n => .now fun now => .call (.setDeadline (now + timeout))
      (.call (.resize n) (.call .writeBuffer .done))

/-- From `async_write` on. -/
def writtenWithWatchdog (r : Result) : Code :=
  match r with
  | .error _ => .call .cancel .done
  | .ok _ => receiveWithWatchdog timeout

/-- The `watch` coroutine from the top of its loop to `async_wait`. -/
def watch : Code :=
  .now fun now => .deadline fun deadline =>
    if now ≥ deadline then .call .close .done
    else .deadline fun deadline => .call (.expiresAt deadline) (.call .asyncWait .done)

/-- From `async_wait` on. -/
def watched (error : Option Error) : Code :=
  match error with
  | some _ => .done
  | none => watch

/-! ## The session -/

variable (withTimeout : Bool)

/-- The session of `co_server.cc`, started with `start (withTimeout)`. -/
def program : Program where
  size := 0
  start₁ :=
    if withTimeout then .call (.spawn .echo) .done
    else .call (.spawn .echo) (.call (.spawn .watch) .done)
  start₂ := .done
  begin
    | .echo => if withTimeout then receiveWithTimeout else receiveWithWatchdog timeout
    | .wait => waitTimeout timeout
    | .watch => watch
  receive := if withTimeout then receivedWithTimeout else receivedWithWatchdog timeout
  write := if withTimeout then writtenWithTimeout else writtenWithWatchdog timeout
  wait := if withTimeout then waitedTimeout else watched

end Echo.CoServer
