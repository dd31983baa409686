/-
Lengths of time in whole nanoseconds, and how they are written.

A duration is written in the largest of the units s, ms, µs, ns that it reaches,
as a decimal number without trailing zeros.
-/

set_option autoImplicit false

namespace Netstack

/-- A length of time in nanoseconds. -/
structure Duration where
  nanos : Nat
  deriving DecidableEq, Repr, Inhabited

namespace Duration

def zero : Duration := ⟨0⟩

def ofMillis (n : Nat) : Duration := ⟨n * 1000000⟩

/-- The longest duration there is: one nanosecond less than `2 ^ 64` seconds. -/
def longest : Duration := ⟨Nat.pow 2 64 * 1000000000 - 1⟩

def isZero (d : Duration) : Bool := d.nanos == 0

/-- `n` units of `10 ^ places` as a decimal number of the larger unit: the point
and the fraction are left out when the fraction is zero, and so are the zeros at
its end. -/
def decimal (places n : Nat) : String :=
  let unit := Nat.pow 10 places
  let fraction := ((toString (n % unit)).toList.leftpad places '0').reverse.dropWhile (· == '0')
  toString (n / unit) ++
    if n % unit = 0 then "" else "." ++ String.ofList fraction.reverse

/-- The text of a duration. -/
def text (d : Duration) : String :=
  if 1000000000 ≤ d.nanos then decimal 9 d.nanos ++ "s"
  else if 1000000 ≤ d.nanos then decimal 6 d.nanos ++ "ms"
  else if 1000 ≤ d.nanos then decimal 3 d.nanos ++ "µs"
  else decimal 0 d.nanos ++ "ns"

end Duration

end Netstack
