import Netstack.Error

/-
Which sizes can be allocated.

All storage of the library has a fixed size that is reserved when its owner is
made, and making it is the only step that can fail for want of memory.
-/

set_option autoImplicit false

namespace Netstack.Memory

/-- From this size on a request for elements or bytes is not met. -/
def limit : Nat := Nat.pow 2 60

/-- Sizes are machine words; a sum or a product that reaches this overflows. -/
def wordEnd : Nat := Nat.pow 2 64

/-- Reserve room for `n` elements. -/
def reserve (n : Nat) : Except Error Unit :=
  if n < limit then .ok () else .error .outOfMemory

/-- A computed size, refused if it leaves the range of machine words. -/
def sized (what : String) (n : Nat) : Except Error Nat :=
  if n < wordEnd then .ok n else .error (.invalidArgument (.overflow what))

end Netstack.Memory
