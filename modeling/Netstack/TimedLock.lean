import Netstack.Error

/-
A value behind a lock.

Whoever holds the lock works on the value; everybody else waits for it, at most for
as long as their timeout says. Here one holder is modelled and every other caller
finds the lock taken, so an attempt on a held lock always ends in a timeout.
-/

set_option autoImplicit false

namespace Netstack

structure TimedLock (α : Type) where
  value : α
  held : Bool := false
  deriving DecidableEq, Repr

namespace TimedLock

variable {α : Type}

/-- Take the lock. -/
def acquire (l : TimedLock α) : Except Error (TimedLock α) :=
  if l.held then .error .timeout else .ok { l with held := true }

/-- Let the lock go: the value, if the lock was held. -/
def release (l : TimedLock α) : TimedLock α × Option α :=
  ({ l with held := false }, if l.held then some l.value else none)

/-- Work on the value, which only its holder and its owner do. -/
def update (l : TimedLock α) (f : α → α) : TimedLock α :=
  { l with value := f l.value }

/-- Take the lock, work on the value, and keep the lock or let it go: the value
afterwards. -/
def hold (l : TimedLock α) (f : α → α) (keep : Bool) : Except Error (TimedLock α × α) := do
  let l := (← l.acquire).update f
  return (if keep then l else l.release.1, l.value)

def debug (l : TimedLock α) : String :=
  Text.recordPart "TimedMutex" [Text.field "locked" (Text.bool l.held)]

end TimedLock

end Netstack
