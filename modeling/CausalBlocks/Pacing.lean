import CausalBlocks.Failure

/-!
# Pacing against the wall clock

A pacer holds a run back so that simulated time does not outrun the wall clock.
It waits until a time is due, and gives way for a moment when too many times in a
row were overdue already. Here the wall clock is reckoned: every operation takes a
fixed time, never none, so a time that is due at once is overdue by the look at
the clock. The durations are small beside any time worth waiting for. A sleep
counts seconds in 64 bits, so a longer one fails.
-/

namespace CausalBlocks

variable {α : Type} [Scalar α]

/-- How a wait ended. -/
inductive Pace where
  /-- After sleeping until the time was due. -/
  | onTime
  /-- At once, because the time was due already. -/
  | overdue
  /-- After a short pause, because too many times were overdue. -/
  | yielded
  deriving DecidableEq, Repr

/-- A simulated time `t` is due `(t - origin) · scale` seconds after the start. -/
structure Pacer (α : Type) where
  scale : α
  limit : Nat
  origin : α
  /-- Seconds on the wall clock since the start. -/
  elapsed : α
  /-- How many times in a row were overdue. -/
  overdue : Nat

namespace Pacer

/-- The pause, in seconds, after too many overdue times. -/
def pause : α := 0.01

/-- The seconds that a look at the wall clock takes. -/
def glance : α := 1e-7

/-- The seconds that computing an iteration takes. -/
def work : α := 1e-5

/-- The seconds that pass between the end of a sleep and waking up. -/
def lateness : α := 5e-5

/-- A pacer that starts now at a simulated time. -/
def start (scale : α) (limit : Nat) (origin : α) : Pacer α := ⟨scale, limit, origin, 0, 0⟩

/-- As many seconds as this, or more, cannot be slept. -/
def endless : α := (Nat.pow 2 64 : α)

/-- The pacer after some seconds on the wall clock. -/
def pass (p : Pacer α) (seconds : α) : Pacer α := { p with elapsed := p.elapsed + seconds }

/-- Waits for a simulated time. -/
def wait (p : Pacer α) (time : α) : Except (Failure α) (Pace × Pacer α) :=
  let p := p.pass glance
  let due := (time - p.origin) * p.scale
  let remaining := due - p.elapsed
  if endless ≤ remaining then .error (.endlessWait remaining)
  else if 0 < remaining then .ok (.onTime, { p with elapsed := due + lateness, overdue := 0 })
  else if p.limit < p.overdue + 1 then
    .ok (.yielded, { p.pass (pause + lateness) with overdue := 0 })
  else .ok (.overdue, { p with overdue := p.overdue + 1 })

end Pacer

end CausalBlocks
