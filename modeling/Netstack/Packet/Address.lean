import Netstack.Error

/-
Addresses of systems and numbers of ports.

A system has a sixteen-bit address, where zero stands for any address. A port
number in a header has five bits; one value beyond them stands for any port.
-/

set_option autoImplicit false

namespace Netstack

abbrev Address := UInt16

/-- Stands for any address. -/
def anyAddress : Address := 0

/-- The largest port number that a header can carry. -/
def portMax : UInt8 := 31

/-- Stands for any port. -/
def anyPort : UInt8 := 255

/-- The address with this number, if addresses reach that far. -/
def Address.ofRaw (raw : UInt32) : Except Error Address :=
  if raw.toNat < UInt16.size then .ok raw.toUInt16 else .error (.addressInvalid raw)

end Netstack
