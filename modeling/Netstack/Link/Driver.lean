import Netstack.Error

/-
Link drivers: what an application supplies for one kind of link.

A driver is a value that its callbacks change. A callback gives the driver as it is
afterwards together with its result, so a driver that fails has also done whatever it did.
Only sending a frame has to be defined: a link that needs no preparation comes up and goes
down by itself.
-/

set_option autoImplicit false

namespace Netstack

class LinkDriver (δ : Type) where
  /-- bring the link up -/
  bringUp : δ → δ × Except Error Unit := fun driver => (driver, .ok ())
  /-- take the link down -/
  takeDown : δ → δ × Except Error Unit := fun driver => (driver, .ok ())
  /-- put one encoded frame on the wire -/
  transmit : δ → List UInt8 → δ × Except Error Unit

end Netstack
