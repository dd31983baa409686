import Netstack.Queue.Fifo

/-
Queues that copy byte strings in and out.

`CopyQueue` takes byte strings of any length; `SlotQueue` takes strings of one fixed
length and keeps them in one array. Both are the queue of `Netstack.Queue.Basic` with
another storage, so their order, limits and waiting need no word here.
-/

set_option autoImplicit false

namespace Netstack

/-- A queue of byte strings of any length. -/
abbrev CopyQueue := Queue Copies

namespace CopyQueue

/-- An empty queue for `capacity` byte strings. -/
def new (capacity : Nat) : Except Error CopyQueue := do
  Fifo.checkCapacity capacity
  return { ring := { capacity := capacity }, store := ⟨.new capacity⟩ }

/-- The size of the oldest entry, if there is one. -/
def peekSize (q : CopyQueue) : Option Nat :=
  if q.ring.isEmpty then none else (q.store.cells.item? q.ring.head).map List.length

end CopyQueue

/-- A queue of byte strings of one length. -/
abbrev SlotQueue := Queue Arena

namespace SlotQueue

/-- An empty queue for `capacity` byte strings of `itemSize` bytes. -/
def new (capacity itemSize : Nat) : Except Error SlotQueue := do
  if capacity = 0 ∨ itemSize = 0 then
    throw (.invalidArgument (.zero "slot queue capacity and item size"))
  let total ← Memory.sized "slot queue arena size" (capacity * itemSize)
  Memory.reserve total
  return { ring := { capacity := capacity }
           store := { itemSize := itemSize, bytes := List.replicate total 0 } }

def itemSize (q : SlotQueue) : Nat := q.store.itemSize

end SlotQueue

end Netstack
