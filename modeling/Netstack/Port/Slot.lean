import Netstack.Packet.Address

/-
Port numbers and the slots of a port table.

There is a slot for every port number that a header can carry, and one more, the
shared slot, for connections bound to any port. The shared slot has no number of its
own in a header, so its packets are sent from port zero.
-/

set_option autoImplicit false

namespace Netstack.Port

/-- The slot of connections bound to any port. -/
def sharedSlot : UInt8 := 32

/-- Number of slots. -/
def slotCount : Nat := 33

/-- The slot of a port number. -/
def slotFor (port : UInt8) : Except Error UInt8 :=
  if port = anyPort then .ok sharedSlot
  else if port ≤ portMax then .ok port
  else .error (.portInvalid port)

/-- The port number that packets from a slot carry. -/
def wirePort (slot : UInt8) : UInt8 :=
  if slot ≤ portMax then slot else 0

end Netstack.Port
