import Snippets.Asio.Channel

/-!
# Steady timers

What the programs use of Boost.Asio's `steady_timer`: `expires_at`, `async_wait` and `cancel`. A
wait completes with success at or after the expiry, or with `operation_aborted` when the timer is
cancelled or given another expiry before; a completion that is queued stays as it is.
-/

namespace Asio

/-- A wait, outstanding or completed; `none` is success. -/
inductive Wait
  | outstanding
  | completed (error : Option Error)
  deriving DecidableEq

/-- A `steady_timer`: when it expires, and its waits that are outstanding or completed. -/
structure Timer where
  expiry : Int
  waits : List Wait

/-- What `cancel ()` does to a wait. A completed one stays as it is. -/
def Wait.abort : Wait → Wait
  | .outstanding => .completed (some .aborted)
  | w => w

/-- `cancel ()` -/
def Timer.cancel (t : Timer) : Timer := { t with waits := t.waits.map Wait.abort }

/-- `expires_at (expiry)` -/
def Timer.expiresAt (t : Timer) (expiry : Int) : Timer := { t.cancel with expiry := expiry }

/-- `async_wait (handler)` -/
def Timer.asyncWait (t : Timer) : Timer := { t with waits := t.waits ++ [.outstanding] }

/-- A wait completes with success, at time `now`. -/
inductive Timer.Fires (now : Int) (t : Timer) : Timer → Prop
  | intro {l₁ l₂ : List Wait} : t.waits = l₁ ++ .outstanding :: l₂ → t.expiry ≤ now →
      Fires now t { t with waits := l₁ ++ .completed none :: l₂ }

/-- A completion leaves the queue for its handler. -/
inductive Timer.Takes (t : Timer) : Option Error → Timer → Prop
  | intro {l₁ l₂ : List Wait} {e : Option Error} : t.waits = l₁ ++ .completed e :: l₂ →
      Takes t e { t with waits := l₁ ++ l₂ }

section
variable {t t' : Timer} {now : Int} {e : Option Error} {l : List Wait}

/-- The first wait completes or is dispatched. -/
theorem Timer.Fires.head (h : t.waits = .outstanding :: l) (hexpiry : t.expiry ≤ now) :
    t.Fires now { t with waits := .completed none :: l } :=
  @Fires.intro _ _ [] _ h hexpiry

theorem Timer.Takes.head (h : t.waits = .completed e :: l) : t.Takes e { t with waits := l } :=
  @Takes.intro _ [] _ _ h

theorem Timer.Fires.waits_ne (h : t.Fires now t') : t.waits ≠ [] := by
  cases h with
  | intro hw => rw [hw]; simp

theorem Timer.Fires.waits_length (h : t.Fires now t') : t'.waits.length = t.waits.length := by
  cases h with
  | intro hw => rw [hw]; simp

theorem Timer.Fires.expiry_eq (h : t.Fires now t') : t'.expiry = t.expiry := by
  cases h with
  | intro => rfl

theorem Timer.Takes.waits_ne (h : t.Takes e t') : t.waits ≠ [] := by
  cases h with
  | intro hw => rw [hw]; simp

theorem Timer.Takes.waits_length (h : t.Takes e t') : t'.waits.length + 1 = t.waits.length := by
  cases h with
  | intro hw => rw [hw]; simp; omega

theorem Timer.Takes.expiry_eq (h : t.Takes e t') : t'.expiry = t.expiry := by
  cases h with
  | intro => rfl

end

end Asio
