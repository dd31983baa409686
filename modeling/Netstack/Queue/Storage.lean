import Netstack.Memory
import Netstack.Packet.Buffer

/-
Where the entries of a queue are kept.

A queue knows its entries only by the slot they are in. What a slot holds is up to
its storage, and there are three kinds: cells that own an item each, cells that own
a copy of a byte string each, and one array of bytes cut into slots of equal size.
A storage says which items it takes, into which destinations it can give an entry,
and how either is done; order, limits and waiting are the same for all three.
-/

set_option autoImplicit false

namespace Netstack

/-- Storage `S` of items of type `ι`, read into destinations of type `δ` with result
`ρ`. Slots are numbered from zero. -/
class Storage (S : Type) (ι δ ρ : outParam Type) where
  /-- whether an item is of the kind that the slots hold -/
  checkItem : S → ι → Except Error Unit
  /-- whether a destination can receive any entry at all -/
  checkDestination : S → δ → Except Error Unit
  /-- put an item into a slot -/
  put : S → Nat → ι → S
  /-- read the entry in a slot -/
  get : S → Nat → δ → Except Error ρ
  /-- the entry in a slot was taken -/
  release : S → Nat → S
  /-- every entry is dropped -/
  clear : S → S

/-! ## Cells that own their items -/

/-- One cell a slot, empty or with an item. -/
structure Cells (α : Type) where
  cells : Array (Option α)

namespace Cells

variable {α : Type}

def new (capacity : Nat) : Cells α := ⟨Array.replicate capacity none⟩

/-- The item in a slot, if there is one. -/
def item? (s : Cells α) (slot : Nat) : Option α := (s.cells[slot]?).join

def put (s : Cells α) (slot : Nat) (item : α) : Cells α :=
  ⟨s.cells.setIfInBounds slot (some item)⟩

def release (s : Cells α) (slot : Nat) : Cells α := ⟨s.cells.setIfInBounds slot none⟩

def clear (s : Cells α) : Cells α := ⟨Array.replicate s.cells.size none⟩

/-- A pop hands the item over. The slot at the head of a queue that is not empty
always holds one. -/
instance : Storage (Cells α) α Unit α where
  checkItem _ _ := .ok ()
  checkDestination _ _ := .ok ()
  put := put
  get s slot _ :=
    match s.item? slot with
    | some item => .ok item
    | none => .error .queueEmpty
  release := release
  clear := clear

end Cells

/-! ## Cells that own copies of byte strings -/

/-- Cells for byte strings of any length, which are copied in and out. -/
structure Copies where
  cells : Cells (List UInt8)

/-- What copying an entry out gives: its size, and the destination afterwards. -/
structure Copied where
  size : Nat
  destination : List UInt8
  deriving DecidableEq, Repr

namespace Copies

/-- An entry is copied to the front of the destination, which has to be as long. -/
instance : Storage Copies (List UInt8) (List UInt8) Copied where
  checkItem _ _ := .ok ()
  checkDestination _ _ := .ok ()
  put s slot bytes := ⟨s.cells.put slot bytes⟩
  get s slot destination :=
    let entry := (s.cells.item? slot).getD []
    if destination.length < entry.length then
      .error (.invalidArgument (.entryDestination destination.length entry.length))
    else .ok ⟨entry.length, overwrite destination 0 entry⟩
  release s slot := ⟨s.cells.release slot⟩
  clear s := ⟨s.cells.clear⟩

end Copies

/-! ## Slots of equal size in one array -/

/-- Slots of `itemSize` bytes, one after the other in one array. -/
structure Arena where
  itemSize : Nat
  bytes : List UInt8

namespace Arena

/-- The bytes of a slot. -/
def slot (s : Arena) (i : Nat) : List UInt8 :=
  (s.bytes.drop (i * s.itemSize)).take s.itemSize

/-- Items have exactly the size of a slot, and destinations at least that size, which
is looked at before anything else. A slot that was taken keeps its bytes until the
next item is put there. -/
instance : Storage Arena (List UInt8) (List UInt8) (List UInt8) where
  checkItem s item :=
    if item.length = s.itemSize then .ok ()
    else .error (.invalidArgument (.itemSize item.length s.itemSize))
  checkDestination s destination :=
    if destination.length < s.itemSize then
      .error (.invalidArgument (.slotDestination destination.length s.itemSize))
    else .ok ()
  put s i item := { s with bytes := overwrite s.bytes (i * s.itemSize) item }
  get s i destination := .ok (overwrite destination 0 (s.slot i))
  release s _ := s
  clear s := s

end Arena

end Netstack
