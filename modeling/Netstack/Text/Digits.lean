/-
Numbers and byte strings in base sixteen.

Addresses, frames and character codes are shown in base sixteen, each with its
own least width and letter case, so the two choices are parameters of one
function and not one function each.
-/

set_option autoImplicit false

namespace Netstack.Text

/-- The base-sixteen digits of `n`, most significant first, with zeros in front
up to `width` digits. A number that needs more digits has them all. -/
def hexDigits (width n : Nat) : List Char :=
  (Nat.toDigits 16 n).leftpad width '0'

/-- `n` in lower-case base sixteen with at least `width` digits. -/
def hex (width n : Nat) : String :=
  String.ofList (hexDigits width n)

/-- `n` in upper-case base sixteen with at least `width` digits. -/
def hexUpper (width n : Nat) : String :=
  String.ofList ((hexDigits width n).map Char.toUpper)

/-- A byte string, two digits a byte. -/
def hexBytes (bytes : List UInt8) : String :=
  String.join (bytes.map fun b => hex 2 b.toNat)

/-! ## Reading them back -/

/-- The value of a lower-case base-sixteen digit. -/
def hexValue (c : Char) : Nat :=
  if c.isDigit then c.toNat - '0'.toNat else c.toNat - 'a'.toNat + 10

/-- The byte string that is written this way. -/
def unhexDigits : List Char → List UInt8
  | a :: b :: rest => UInt8.ofNat (hexValue a * 16 + hexValue b) :: unhexDigits rest
  | _ => []

/-- The byte string that is written this way. -/
def unhexBytes (s : String) : List UInt8 := unhexDigits s.toList

end Netstack.Text
