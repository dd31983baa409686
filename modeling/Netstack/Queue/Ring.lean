import Netstack.Error
import Netstack.Wait.Gate

/-
The cursors of a bounded queue.

The slots of a queue form a ring. Entries are written at `tail` and read at `head`;
both go round, and `length` tells a full ring from an empty one. Callers wait behind
two gates, one for each direction: `room` for those who want to push, `items` for
those who want to pop. A queue that was destroyed keeps its ring only to say so.
-/

set_option autoImplicit false

namespace Netstack

structure Ring where
  capacity : Nat
  /-- the slot of the oldest entry -/
  head : Nat := 0
  /-- the slot that the next entry goes to -/
  tail : Nat := 0
  /-- number of entries -/
  length : Nat := 0
  /-- callers that wait for a free slot -/
  room : Gate := {}
  /-- callers that wait for an entry -/
  items : Gate := {}
  destroyed : Bool := false
  deriving DecidableEq, Repr

namespace Ring

/-- Callers that wait, in either direction. -/
def waiters (r : Ring) : Nat := r.room.waiting + r.items.waiting

def isFull (r : Ring) : Bool := r.capacity ≤ r.length

def isEmpty (r : Ring) : Bool := r.length == 0

/-- An entry was written at `tail`; one caller that waits for an entry is woken. -/
def pushed (r : Ring) : Ring :=
  { r with
    tail := (r.tail + 1) % r.capacity
    length := r.length + 1
    items := r.items.notifyOne }

/-- The entry at `head` was taken; one caller that waits for room is woken. -/
def popped (r : Ring) : Ring :=
  { r with
    head := (r.head + 1) % r.capacity
    length := r.length - 1
    room := r.room.notifyOne }

/-- Whether the ring may be emptied or taken out of service: not while anybody waits. -/
def checkIdle (r : Ring) : Except Error Unit :=
  if r.destroyed then .error .destroyed
  else if 0 < r.waiters then .error .resourceInUse
  else .ok ()

/-- The ring without entries. -/
def cleared (r : Ring) : Ring := { r with head := 0, tail := 0, length := 0 }

/-- The ring out of service. -/
def retired (r : Ring) : Ring := { r with length := 0, destroyed := true }

def mapRoom (r : Ring) (f : Gate → Gate) : Ring := { r with room := f r.room }

def mapItems (r : Ring) (f : Gate → Gate) : Ring := { r with items := f r.items }

end Ring

end Netstack
