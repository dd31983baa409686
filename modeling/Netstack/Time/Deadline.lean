import Netstack.Time.Duration

/-
How long a call may wait.

A caller gives a *timeout*: none to wait for ever, zero not to wait at all, or
a length of time. When the call starts, the timeout becomes a *deadline*, a
point on a clock that counts nanoseconds from an arbitrary origin, so that a call
which is woken early goes on with what is left and not with the whole timeout.
-/

set_option autoImplicit false

namespace Netstack

/-- How long a caller is ready to wait: for ever, or at most a length of time. -/
abbrev Timeout := Option Duration

/-- Whether a caller that gave this timeout waits at all. -/
def Timeout.waits : Timeout → Bool
  | none => true
  | some d => !d.isZero

/-- The point at which a call stops waiting. -/
inductive Deadline
  | never
  | immediate
  | at (instant : Nat)
  deriving DecidableEq, Repr

namespace Deadline

/-- The clock shows whole seconds up to `2 ^ 63 - 1`. -/
def clockEnd : Nat := Nat.pow 2 63 * 1000000000

/-- The deadline of a call that starts at `now`. A point that the clock can never
show is as good as never. -/
def after (now : Nat) : Timeout → Deadline
  | none => never
  | some d =>
    if d.isZero then immediate
    else if now + d.nanos < clockEnd then .at (now + d.nanos)
    else never

def isImmediate : Deadline → Bool
  | immediate => true
  | _ => false

/-- What is left at `now`: none for a call without end, zero once the deadline
has passed. -/
def remaining (now : Nat) : Deadline → Timeout
  | never => none
  | immediate => some Duration.zero
  | .at instant => some ⟨instant - now⟩

/-- Whether the deadline has been reached at `now`. -/
def expired (now : Nat) (d : Deadline) : Bool :=
  match d.remaining now with
  | none => false
  | some left => left.isZero

end Deadline

end Netstack
