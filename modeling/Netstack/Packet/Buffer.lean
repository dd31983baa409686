import Netstack.Memory
import Netstack.Packet.Header
import Netstack.Text.Digits

/-
Packet buffers: a used span inside storage of a fixed size.

    0           data             tail               end
    |- headroom -|===== used =====|---- tailroom ----|

A header is put in front of a payload by taking bytes from the headroom, and is
consumed by giving them back, so a packet passes through the stack without being
copied. The size is fixed when the buffer is made: an operation that does not
find room refuses and leaves the buffer as it was.

`put` and `push` hand out a region of the storage. The region is its contents at
that moment, and `overwrite` is how a caller writes into it, so nothing of the
storage outside a region can be touched through it.
-/

set_option autoImplicit false

namespace Netstack

/-- `xs` with `ys` laid over it from position `start` on; what would lie beyond the
end of `xs` is cut off. -/
def overwrite (xs : List UInt8) (start : Nat) (ys : List UInt8) : List UInt8 :=
  xs.take start ++ ys.take (xs.length - start) ++ xs.drop (start + ys.length)

theorem length_overwrite (xs : List UInt8) (start : Nat) (ys : List UInt8) :
    (overwrite xs start ys).length = xs.length := by
  simp only [overwrite, List.length_append, List.length_take, List.length_drop]
  omega

/-- What was laid over is read at the place where it was laid. -/
theorem take_drop_overwrite {xs : List UInt8} {start : Nat} {ys : List UInt8}
    (h : start + ys.length ≤ xs.length) :
    ((overwrite xs start ys).drop start).take ys.length = ys := by
  have hs : (xs.take start).length = start := by rw [List.length_take]; omega
  rw [overwrite, List.append_assoc, List.drop_append_of_le_length (by omega),
    List.drop_of_length_le (by omega), List.nil_append,
    List.take_of_length_le (i := xs.length - start) (by omega)]
  exact List.take_left

/-- Nothing in front of the place changes. -/
theorem take_overwrite (xs : List UInt8) (start : Nat) (ys : List UInt8) :
    (overwrite xs start ys).take start = xs.take start := by
  by_cases h : start ≤ xs.length
  · have hs : (xs.take start).length = start := by rw [List.length_take]; omega
    rw [overwrite, List.append_assoc, List.take_append_of_le_length (by omega), List.take_take,
      Nat.min_self]
  · have hs : xs.length - start = 0 := by omega
    simp [overwrite, hs, List.take_take,
      List.drop_of_length_le (show xs.length ≤ start + ys.length by omega)]

/-- Nothing behind what was laid over changes. -/
theorem drop_overwrite {xs : List UInt8} {start : Nat} {ys : List UInt8}
    (h : start + ys.length ≤ xs.length) :
    (overwrite xs start ys).drop (start + ys.length) = xs.drop (start + ys.length) := by
  have hl : (xs.take start ++ ys.take (xs.length - start)).length = start + ys.length := by
    simp only [List.length_append, List.length_take]
    omega
  rw [overwrite, ← hl]
  exact List.drop_left

/-- What is laid over the front stands in front of the rest. -/
theorem overwrite_front {xs ys : List UInt8} (h : ys.length ≤ xs.length) :
    overwrite xs 0 ys = ys ++ xs.drop ys.length := by
  rw [overwrite, List.take_zero, List.nil_append, Nat.sub_zero, Nat.zero_add,
    List.take_of_length_le h]

structure Buffer where
  /-- the interface that the buffer was made for or received on -/
  iface : Option Nat
  storage : List UInt8
  /-- where the used span begins -/
  data : Nat
  /-- where the used span ends -/
  tail : Nat
  deriving DecidableEq, Repr

namespace Buffer

/-- Room in front of a payload when no interface asks for more. -/
def defaultHeadroom : Nat := headerLen

/-- An empty buffer with `headroom` bytes in front of room for `payload` bytes, all
of them zero. -/
def new (headroom payload : Nat) : Except Error Buffer := do
  let total ← Memory.sized "packet buffer size" (headroom + payload)
  Memory.reserve total
  return { iface := none, storage := List.replicate total 0, data := headroom, tail := headroom }

/-! ## The parts of a buffer -/

/-- Bytes in front of the used span. -/
def headroom (b : Buffer) : Nat := b.data

/-- Bytes behind the used span. -/
def tailroom (b : Buffer) : Nat := b.storage.length - b.tail

def length (b : Buffer) : Nat := b.tail - b.data

def isEmpty (b : Buffer) : Bool := b.length == 0

/-- The size of the storage. -/
def capacity (b : Buffer) : Nat := b.storage.length

/-- The bytes of the storage from `start` on, `n` of them. -/
def region (b : Buffer) (start n : Nat) : List UInt8 := (b.storage.drop start).take n

/-- The used span. -/
def used (b : Buffer) : List UInt8 := b.region b.data b.length

/-! ## Moving the ends of the span -/

/-- Append `n` bytes: the region that was appended, or nothing if `n` exceeds the
tailroom. -/
def put (b : Buffer) (n : Nat) : Option (List UInt8 × Buffer) :=
  if n ≤ b.tailroom then some (b.region b.tail n, { b with tail := b.tail + n }) else none

/-- Prepend `n` bytes: the region that was prepended, or nothing if `n` exceeds the
headroom. -/
def push (b : Buffer) (n : Nat) : Option (List UInt8 × Buffer) :=
  if n ≤ b.headroom then some (b.region (b.data - n) n, { b with data := b.data - n }) else none

/-- Consume bytes from the front, `n` or as many as there are: their number. They
become headroom. -/
def pull (b : Buffer) (n : Nat) : Nat × Buffer :=
  let k := min n b.length
  (k, { b with data := b.data + k })

/-- Write `bytes` into the used span from its position `start` on. -/
def write (b : Buffer) (start : Nat) (bytes : List UInt8) : Buffer :=
  { b with storage := overwrite b.storage (b.data + start) (bytes.take (b.length - start)) }

/-- Append a copy of `bytes`, or do nothing if they do not fit. -/
def append (b : Buffer) (bytes : List UInt8) : Buffer :=
  match b.put bytes.length with
  | some (_, b') => b'.write b.length bytes
  | none => b

/-- A buffer whose used span is a copy of `bytes`. -/
def ofBytes (headroom : Nat) (bytes : List UInt8) : Except Error Buffer := do
  let b ← new headroom bytes.length
  return b.append bytes

def setInterface (b : Buffer) (iface : Option Nat) : Buffer :=
  { b with iface := iface }

/-- The bytes from the beginning of the used span to its end, for somebody who keeps nothing
else of the buffer. -/
def freeze (b : Buffer) : List UInt8 := (b.storage.take b.tail).drop b.data

/-! ## Headers at the front -/

/-- Prepend an encoded header. A header that cannot be encoded is reported before
the headroom is looked at. -/
def pushHeader (b : Buffer) (h : Header) : Except Error Buffer := do
  let bytes ← h.toBytes
  match b.push headerLen with
  | some (_, b') => return b'.write 0 bytes
  | none => throw (.invalidArgument .shortHeadroom)

/-- The header at the front, which stays there. -/
def parseHeader (b : Buffer) : Option Header :=
  (Header.decode b.used).map (·.1)

/-- The header at the front, which is consumed. -/
def pullHeader (b : Buffer) : Option (Header × Buffer) :=
  b.parseHeader.map fun h => (h, (b.pull headerLen).2)

/-! ## Diagnostics -/

/-- The text of an optional interface number. -/
def interfaceText (iface : Option Nat) : String :=
  Text.optional (iface.map toString)

/-- One line that shows the used span. -/
def hexdump (b : Buffer) : String :=
  s!"[BUFFER] {interfaceText b.iface} {b.length} bytes: " ++ Text.hexBytes b.used

def debug (b : Buffer) : String :=
  Text.record "PacketBuffer"
    [ Text.field "iface" (interfaceText b.iface),
      Text.field "data" (toString b.data),
      Text.field "tail" (toString b.tail),
      Text.field "end" (toString b.capacity),
      Text.field "headroom" (toString b.headroom),
      Text.field "tailroom" (toString b.tailroom) ]

end Buffer

end Netstack
