import Netstack.Conn.Handle
import Netstack.Port.Slot

/-
The port table: which connections packets for a port are offered to.

Every slot keeps its members by falling priority, and members of one priority in the
order in which they came: a member is put in front of the first one of lower priority.
A slot is open as long as a listening member is on it. A slot with a number belongs to
the connection that listens on it, while the shared slot is never taken.
-/

set_option autoImplicit false

namespace Netstack

/-- A connection on a port. -/
structure PortMember where
  conn : Handle
  priority : UInt8
  listening : Bool
  deriving DecidableEq, Repr, Inhabited

/-- One slot of the table. -/
structure PortEntry where
  isOpen : Bool := false
  /-- the members of the slot, highest priority first -/
  members : List PortMember := []
  deriving DecidableEq, Repr, Inhabited

namespace PortEntry

/-- Put a member in front of the first one of lower priority. -/
def place (m : PortMember) : List PortMember → List PortMember
  | [] => [m]
  | x :: xs => if x.priority < m.priority then m :: x :: xs else x :: place m xs

/-- The first member for a connection, and the others. -/
def extract (conn : Handle) : List PortMember → Option (PortMember × List PortMember)
  | [] => none
  | x :: xs =>
    if x.conn = conn then some (x, xs)
    else (extract conn xs).map fun (m, rest) => (m, x :: rest)

def insert (e : PortEntry) (m : PortMember) : PortEntry :=
  { e with members := place m e.members }

theorem place_perm (m : PortMember) (xs : List PortMember) : (place m xs).Perm (m :: xs) := by
  induction xs with
  | nil => exact .refl _
  | cons x xs ih =>
    unfold place
    split
    · exact .refl _
    · exact (ih.cons x).trans (.swap m x xs)

theorem extract_perm {conn : Handle} {xs rest : List PortMember} {m : PortMember}
    (h : extract conn xs = some (m, rest)) : xs.Perm (m :: rest) := by
  induction xs generalizing rest with
  | nil => simp [extract] at h
  | cons x xs ih =>
    unfold extract at h
    split at h
    · obtain ⟨rfl, rfl⟩ := by simpa using h
      exact .refl _
    · obtain ⟨⟨m', rest'⟩, he, heq⟩ := Option.map_eq_some_iff.1 h
      obtain ⟨rfl, rfl⟩ := by simpa using heq
      exact ((ih he).cons x).trans (.swap m' x rest')

theorem extract_eq_none_iff {conn : Handle} {xs : List PortMember} :
    extract conn xs = none ↔ ∀ m ∈ xs, m.conn ≠ conn := by
  induction xs with
  | nil => simp [extract]
  | cons x xs ih =>
    unfold extract
    split
    · next h => simp [h]
    · next h => simp [h, ih]

end PortEntry

structure PortTable where
  entries : Vector PortEntry Port.slotCount
  deriving DecidableEq, Repr

namespace PortTable

/-- Every slot closed and without members. -/
def empty : PortTable := ⟨Vector.replicate Port.slotCount {}⟩

/-- The number of a slot as an index of the table. -/
def index (slot : UInt8) : Except Error (Fin Port.slotCount) :=
  if h : slot.toNat < Port.slotCount then .ok ⟨slot.toNat, h⟩ else .error (.portInvalid slot)

def entry (t : PortTable) (i : Fin Port.slotCount) : PortEntry := t.entries[i]

def setEntry (t : PortTable) (i : Fin Port.slotCount) (e : PortEntry) : PortTable :=
  ⟨t.entries.set i e⟩

theorem entry_empty (i : Fin Port.slotCount) : empty.entry i = {} := by
  simp [entry, empty]

theorem entry_setEntry (t : PortTable) (i : Fin Port.slotCount) (e : PortEntry) :
    (t.setEntry i e).entry i = e := by
  simp [entry, setEntry]

theorem entry_setEntry_of_ne {i j : Fin Port.slotCount} (h : i ≠ j) (t : PortTable)
    (e : PortEntry) : (t.setEntry i e).entry j = t.entry j := by
  have h' : i.val ≠ j.val := fun he => h (Fin.ext he)
  simp [entry, setEntry, Vector.getElem_set_ne, h']

theorem index_eq_ok_iff {slot : UInt8} {i : Fin Port.slotCount} :
    index slot = .ok i ↔ slot.toNat = i.val := by
  unfold index
  split
  · simp [Fin.ext_iff]
  · next h =>
    have := i.isLt
    simp; omega

/-! ## Operations on a slot -/

/-- Whether a connection may be bound to a port: the slot of the port. A port that
somebody listens on is taken. -/
def checkBind (t : PortTable) (port : UInt8) : Except Error UInt8 := do
  let slot ← Port.slotFor port
  let i ← index slot
  if slot ≠ Port.sharedSlot ∧ (t.entry i).isOpen then throw (.portInUse slot)
  return slot

/-- Register a listener and open the port. -/
def listen (t : PortTable) (slot : UInt8) (conn : Handle) (priority : UInt8) :
    Except Error PortTable := do
  let i ← index slot
  let e := t.entry i
  if slot ≠ Port.sharedSlot ∧ e.isOpen then throw (.portInUse slot)
  return t.setEntry i { e.insert ⟨conn, priority, true⟩ with isOpen := true }

/-- Register a connection that does not listen. -/
def insert (t : PortTable) (slot : UInt8) (conn : Handle) (priority : UInt8) :
    Except Error PortTable := do
  let i ← index slot
  return t.setEntry i ((t.entry i).insert ⟨conn, priority, false⟩)

/-- Take a connection off a slot: whether it was there. The port closes when its last
listener goes. -/
def remove (t : PortTable) (slot : UInt8) (conn : Handle) : Except Error (PortTable × Bool) := do
  let i ← index slot
  let e := t.entry i
  match PortEntry.extract conn e.members with
  | none => return (t, false)
  | some (_, rest) =>
    return (t.setEntry i ⟨e.isOpen && rest.any (·.listening), rest⟩, true)

/-- Change the priority of a connection on a slot: whether it is there. It goes behind
the members of its new priority. -/
def reprioritize (t : PortTable) (slot : UInt8) (conn : Handle) (priority : UInt8) :
    Except Error (PortTable × Bool) := do
  let i ← index slot
  let e := t.entry i
  match PortEntry.extract conn e.members with
  | none => return (t, false)
  | some (m, rest) =>
    return (t.setEntry i ({ e with members := rest }.insert { m with priority := priority }), true)

/-- The members of a slot, highest priority first. -/
def members (t : PortTable) (slot : UInt8) : Except Error (List PortMember) := do
  return (t.entry (← index slot)).members

/-- The member of highest priority. -/
def first (t : PortTable) (slot : UInt8) : Except Error (Option PortMember) := do
  return (← t.members slot).head?

/-- Whether somebody listens on a slot. -/
def isOpen (t : PortTable) (slot : UInt8) : Except Error Bool := do
  return (t.entry (← index slot)).isOpen

/-- The slots that are open or have members, with their numbers. -/
def inUse (t : PortTable) : List (Nat × PortEntry) :=
  t.entries.toList.zipIdx.filterMap fun (e, slot) =>
    if e.isOpen || !e.members.isEmpty then some (slot, e) else none

end PortTable

end Netstack
