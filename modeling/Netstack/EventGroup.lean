import Netstack.Wait.Gate
import Netstack.Wait.Progress
import Netstack.Error

/-
Event groups: thirty-two condition bits that callers wait for.

A caller waits until any, or until all, of the bits of a mask are set. Setting bits
wakes every caller, since one update may satisfy several of them; clearing wakes
nobody. A wait ends with the bits as they were when it ended, before it clears any
itself, and it ends that way also when its time is up: the caller compares them with
its mask to know which it was.
-/

set_option autoImplicit false

namespace Netstack

abbrev EventBits := UInt32

/-- What satisfies a wait, and what it clears when it ends. -/
structure WaitOptions where
  /-- every bit of the mask has to be set, and not just one -/
  all : Bool := false
  /-- the end of the wait clears every bit, and not just those of the mask -/
  clearOnExit : Bool := false
  /-- the end of the wait clears nothing, whatever `clearOnExit` says -/
  keepBits : Bool := false
  deriving DecidableEq, Repr, Inhabited

namespace WaitOptions

/-- Whether `bits` satisfy a wait for `mask`. -/
def satisfiedBy (o : WaitOptions) (bits mask : EventBits) : Bool :=
  if o.all then bits &&& mask == mask else bits &&& mask != 0

/-- What the end of a wait for `mask` leaves of `bits`. -/
def leaves (o : WaitOptions) (bits mask : EventBits) : EventBits :=
  if o.keepBits then bits
  else if o.clearOnExit then 0
  else bits &&& ~~~mask

end WaitOptions

structure EventGroup where
  bits : EventBits := 0
  /-- callers that wait for bits -/
  gate : Gate := {}
  deriving DecidableEq, Repr, Inhabited

namespace EventGroup

/-- Set the bits of `mask` and wake every caller. -/
def set (g : EventGroup) (mask : EventBits) : EventGroup :=
  { bits := g.bits ||| mask, gate := g.gate.notifyAll }

/-- Clear the bits of `mask`. -/
def clear (g : EventGroup) (mask : EventBits) : EventGroup :=
  { g with bits := g.bits &&& ~~~mask }

/-- Number of callers that wait. -/
def waiters (g : EventGroup) : Nat := g.gate.waiting

/-- Whether the group may be given up: not while anybody waits. -/
def ensureIdle (g : EventGroup) : Except Error Unit :=
  if 0 < g.waiters then .error .resourceInUse else .ok ()

/-! ## Waiting -/

/-- A wait for the bits of a mask. -/
structure Call where
  mask : EventBits
  options : WaitOptions
  deriving DecidableEq, Repr

/-- Whether the bits satisfy a wait. -/
def satisfies (g : EventGroup) (c : Call) : Bool := c.options.satisfiedBy g.bits c.mask

/-- The end of a wait: the bits as they are, which are then cleared as asked for. -/
def finish (g : EventGroup) (c : Call) : EventGroup × EventBits :=
  ({ g with bits := c.options.leaves g.bits c.mask }, g.bits)

/-- Look at the bits, and enter the gate if they do not satisfy a caller that waits. -/
def beginWait (g : EventGroup) (c : Call) (waits : Bool) :
    EventGroup × Progress Call EventBits :=
  if waits && !g.satisfies c then ({ g with gate := g.gate.enter }, .parked c)
  else
    let (g, bits) := g.finish c
    (g, .done bits)

/-- Look at the bits again after a wake-up. -/
def wakeWait (g : EventGroup) (c : Call) : EventGroup × Progress Call EventBits :=
  let g := { g with gate := g.gate.take }
  if g.satisfies c then
    let (g, bits) := { g with gate := g.gate.leave }.finish c
    (g, .done bits)
  else ({ g with gate := g.gate.doze }, .parked c)

/-- End a wait whose time is up, and leave the gate. -/
def lastWait (g : EventGroup) (c : Call) : EventGroup × EventBits :=
  { g with gate := g.gate.leave }.finish c

/-- The time of a wait is up. -/
def expireWait (g : EventGroup) (c : Call) : EventGroup × EventBits :=
  { g with gate := g.gate.giveUp }.lastWait c

/-- Wait for the bits of a mask, alone with the group. -/
def wait (g : EventGroup) (mask : EventBits) (options : WaitOptions) (timeout : Timeout) :
    EventGroup × EventBits :=
  match g.beginWait ⟨mask, options⟩ timeout.waits with
  | (g, .done bits) => (g, bits)
  | (g, .parked c) => g.expireWait c

instance : Blocking EventGroup Call EventBits where
  ready g _ := 0 < g.gate.woken
  wake := wakeWait
  expire := expireWait

end EventGroup

end Netstack
