import Netstack.Queue.Copying
import Netstack.Proofs.Queue.Refinement

/-
Storages of byte strings, and cells that hold the same ones.

Cells of copies are cells. An arena is never erased and shows old bytes in every free slot,
so it can only be compared with the cells that are occupied: `Arena.Shows` says that
whatever a cell holds is what the slot of the same number shows, which survives a `put`
because two slots have no byte in common.

A way of copying is described by `Copying`: what is refused in addition to what a queue of
items refuses, and what a pop answers. `Keeps` says that a storage does with byte strings
what cells would do, and refuses what the way of copying has to refuse; it holds for both
storages, and nothing else is needed of them.
-/

set_option autoImplicit false

namespace Netstack

namespace Cells

variable {α : Type} {s : Cells α} {i j : Nat} {item : α}

/-- A slot that was given up holds nothing, and the others what they did. -/
theorem item?_release_eq_some (h : (s.release i).item? j = some item) :
    i ≠ j ∧ s.item? j = some item := by
  by_cases hij : i = j
  · subst hij
    rw [item?, release, Array.getElem?_setIfInBounds_self] at h
    split at h <;> cases h
  · rw [item?_release_of_ne hij] at h
    exact ⟨hij, h⟩

theorem item?_clear (i : Nat) : s.clear.item? i = none := by
  rw [item?, clear, Array.getElem?_replicate]
  split <;> rfl

end Cells

/-! ## Slots of an arena -/

theorem drop_take_overwrite_before {xs ys : List UInt8} {start a n : Nat} (h : a + n ≤ start) :
    ((overwrite xs start ys).drop a).take n = (xs.drop a).take n := by
  have hfront : (overwrite xs start ys).take (a + n) = xs.take (a + n) := by
    rw [← Nat.min_eq_left h, ← List.take_take, take_overwrite, List.take_take]
  have hwindow (l : List UInt8) : (l.drop a).take n = (l.take (a + n)).drop a := by
    rw [List.drop_take, Nat.add_sub_cancel_left]
  rw [hwindow, hwindow, hfront]

theorem drop_overwrite_after {xs ys : List UInt8} {start a : Nat} (h : start + ys.length ≤ a)
    (hfits : start + ys.length ≤ xs.length) : (overwrite xs start ys).drop a = xs.drop a := by
  obtain ⟨d, rfl⟩ := Nat.exists_eq_add_of_le h
  rw [← List.drop_drop, drop_overwrite hfits, List.drop_drop]

namespace Arena

variable {s : Arena} {i j : Nat} {item : List UInt8}

theorem slot_put_self (hitem : item.length = s.itemSize)
    (hfits : i * s.itemSize + s.itemSize ≤ s.bytes.length) :
    (Storage.put s i item).slot i = item := by
  show ((overwrite s.bytes (i * s.itemSize) item).drop (i * s.itemSize)).take s.itemSize = item
  rw [← hitem] at hfits ⊢
  exact take_drop_overwrite hfits

/-- Two slots have no byte in common. -/
theorem slot_put_of_ne (hne : i ≠ j) (hitem : item.length = s.itemSize)
    (hfits : i * s.itemSize + s.itemSize ≤ s.bytes.length) :
    (Storage.put s i item).slot j = s.slot j := by
  show ((overwrite s.bytes (i * s.itemSize) item).drop (j * s.itemSize)).take s.itemSize = _
  obtain hlt | hgt := Nat.lt_or_gt_of_ne hne
  · have hstep : i * s.itemSize + s.itemSize ≤ j * s.itemSize := by
      rw [← Nat.succ_mul]
      exact Nat.mul_le_mul_right _ hlt
    rw [drop_overwrite_after (by omega) (by omega), slot]
  · have hstep : j * s.itemSize + s.itemSize ≤ i * s.itemSize := by
      rw [← Nat.succ_mul]
      exact Nat.mul_le_mul_right _ hgt
    rw [drop_take_overwrite_before hstep, slot]

end Arena

/-! ## Ways of copying -/

/-- How byte strings are copied in and out: what is refused beyond what a queue of items
refuses, and what a pop answers. -/
structure Copying (ρ : Type) where
  /-- what is wrong with an item, whatever the queue holds -/
  item : List UInt8 → Option Fault
  /-- what is wrong with a destination, whatever the queue holds -/
  destination : List UInt8 → Option Fault
  /-- what is wrong with a destination for an entry -/
  entry : List UInt8 → List UInt8 → Option Fault
  answer : List UInt8 → ρ

namespace Copying

/-- Byte strings of any length, which need destinations of their length. -/
def ofAnyLength : Copying Nat where
  item _ := none
  destination _ := none
  entry destination entry :=
    if destination.length < entry.length then
      some (.entryDestination destination.length entry.length)
    else none
  answer entry := entry.length

/-- Byte strings of one length, and destinations that are no shorter. -/
def ofSize (size : Nat) : Copying Unit where
  item bytes := if bytes.length = size then none else some (.itemSize bytes.length size)
  destination destination :=
    if destination.length < size then some (.slotDestination destination.length size) else none
  entry _ _ := none
  answer _ := ()

/-- What may be asked of a queue of byte strings. -/
inductive Op
  | push (item : List UInt8) (timeout : Timeout)
  | pop (destination : List UInt8) (timeout : Timeout)
  | clear
  | destroy

/-- What comes back; a pop also leaves its destination behind. -/
inductive Reply (ρ : Type)
  | pushed (result : Except Error Unit)
  | popped (result : Except Error ρ) (destination : List UInt8)
  | cleared (result : Except Error Unit)
  | destroyed (result : Except Error Nat)

variable {ρ ρ' : Type}

/-- Whether an operation failed. -/
def Reply.isFailure : Reply ρ → Bool
  | pushed (.error _) | popped (.error _) _ | cleared (.error _) | destroyed (.error _) => true
  | _ => false

/-- A pop as its caller sees it: only one that succeeds has written. -/
def Reply.ofPop (read : ρ' → ρ × List UInt8) (destination : List UInt8) :
    Except Error ρ' → Reply ρ
  | .ok result => popped (.ok (read result).1) (read result).2
  | .error e => popped (.error e) destination

/-- Whether a fault was found. -/
def refusal : Option Fault → Except Error Unit
  | none => .ok ()
  | some fault => .error (.invalidArgument fault)

end Copying

open Copying (Op Reply)

/-- An operation of somebody who is alone with a queue of byte strings, which answers pops
as `read` says. -/
def Queue.copyStep {S ρ ρ' : Type} [Storage S (List UInt8) (List UInt8) ρ']
    (read : ρ' → ρ × List UInt8) (q : Queue S) : Op → Queue S × Reply ρ
  | .push item timeout => (q.push item timeout).map id fun r => .pushed (r.mapError Rejected.error)
  | .pop destination timeout => (q.pop destination timeout).map id (.ofPop read destination)
  | .clear => q.clear.map id .cleared
  | .destroy => q.destroy.map id .destroyed

/-- What an operation is meant to do: the byte strings are a list of bounded length, and the
way of copying refuses what it has to. A pop that succeeds writes the oldest one to the
front of the destination. -/
def BoundedList.copyStep {ρ : Type} (c : Copying ρ) (b : BoundedList (List UInt8)) :
    Op → BoundedList (List UInt8) × Reply ρ
  | .push item timeout =>
    match c.item item with
    | some fault => (b, .pushed (.error (.invalidArgument fault)))
    | none =>
      (b.append item (if timeout.waits then .timeout else .queueFull)).map id fun r =>
        .pushed (r.mapError Rejected.error)
  | .pop destination timeout =>
    match c.destination destination with
    | some fault => (b, .popped (.error (.invalidArgument fault)) destination)
    | none =>
      match b.removeFirst (if timeout.waits then .timeout else .queueEmpty) with
      | (_, .error e) => (b, .popped (.error e) destination)
      | (rest, .ok entry) =>
        match c.entry destination entry with
        | some fault => (b, .popped (.error (.invalidArgument fault)) destination)
        | none =>
          (rest, .popped (.ok (c.answer entry)) (entry ++ destination.drop entry.length))
  | .clear => b.clear.map id .cleared
  | .destroy => b.destroy.map id .destroyed

namespace CopyQueue

/-- What the queue holds, oldest first. -/
def toList (q : CopyQueue) : List (List UInt8) :=
  (List.range q.ring.length).filterMap fun i =>
    q.store.cells.item? ((q.ring.head + i) % q.ring.capacity)

/-- A pop answers the size of the entry. -/
def step : CopyQueue → Op → CopyQueue × Reply Nat :=
  Queue.copyStep fun copied => (copied.size, copied.destination)

end CopyQueue

namespace SlotQueue

/-- What the queue holds, oldest first. -/
def toList (q : SlotQueue) : List (List UInt8) :=
  (List.range q.ring.length).map fun i => q.store.slot ((q.ring.head + i) % q.ring.capacity)

/-- A pop answers nothing but the destination. -/
def step : SlotQueue → Op → SlotQueue × Reply Unit :=
  Queue.copyStep fun destination => ((), destination)

end SlotQueue

/-! ## Storages that agree with cells -/

section Keeping

variable {S ρ ρ' : Type} [Storage S (List UInt8) (List UInt8) ρ']

/-- A storage keeps byte strings as cells would, for a way of copying. `Shows` tells which
cells it agrees with. -/
structure Keeps (c : Copying ρ) (read : ρ' → ρ × List UInt8)
    (Shows : S → Cells (List UInt8) → Prop) : Prop where
  checkItem {s : S} {cells : Cells (List UInt8)} (h : Shows s cells) (item : List UInt8) :
    Storage.checkItem s item = Copying.refusal (c.item item)
  checkDestination {s : S} {cells : Cells (List UInt8)} (h : Shows s cells)
    (destination : List UInt8) :
    Storage.checkDestination s destination = Copying.refusal (c.destination destination)
  put {s : S} {cells : Cells (List UInt8)} (h : Shows s cells) {slot : Nat}
    (hslot : slot < cells.cells.size) {item : List UInt8} (hitem : c.item item = none) :
    Shows (Storage.put s slot item) (cells.put slot item)
  get {s : S} {cells : Cells (List UInt8)} (h : Shows s cells) {slot : Nat}
    {entry : List UInt8} (hentry : cells.item? slot = some entry) {destination : List UInt8}
    (hdestination : c.destination destination = none) :
    (∃ fault, c.entry destination entry = some fault ∧
      Storage.get s slot destination = .error (.invalidArgument fault)) ∨
    ∃ result, c.entry destination entry = none ∧ Storage.get s slot destination = .ok result ∧
      read result = (c.answer entry, entry ++ destination.drop entry.length)
  release {s : S} {cells : Cells (List UInt8)} (h : Shows s cells) (slot : Nat) :
    Shows (Storage.release s slot) (cells.release slot)
  clear {s : S} {cells : Cells (List UInt8)} (h : Shows s cells) :
    Shows (Storage.clear s) cells.clear

end Keeping

/-- Copies are kept in the cells themselves. -/
def Copies.Shows (s : Copies) (cells : Cells (List UInt8)) : Prop := s.cells = cells

theorem Copies.keeps :
    Keeps Copying.ofAnyLength (fun copied : Copied => (copied.size, copied.destination))
      Copies.Shows where
  checkItem _ _ := rfl
  checkDestination _ _ := rfl
  put h _ _ _ _ := by
    subst h
    rfl
  get h slot entry hentry destination _ := by
    subst h
    simp only [Storage.get, hentry, Option.getD_some, Copying.ofAnyLength]
    by_cases hshort : destination.length < entry.length
    · left
      simp [hshort]
    · right
      simp [hshort, overwrite_front (Nat.le_of_not_lt hshort)]
  release h _ := by
    subst h
    rfl
  clear h := by
    subst h
    rfl

/-- An arena shows what the cells hold, and has as many slots. -/
structure Arena.Shows (itemSize : Nat) (s : Arena) (cells : Cells (List UInt8)) : Prop where
  itemSize_eq : s.itemSize = itemSize
  length : s.bytes.length = cells.cells.size * itemSize
  slot {i : Nat} {entry : List UInt8} (h : cells.item? i = some entry) :
    entry.length = itemSize ∧ s.slot i = entry

/-- Every slot lies inside the arena. -/
theorem Arena.Shows.slot_fits {k i : Nat} {s : Arena} {cells : Cells (List UInt8)}
    (h : s.Shows k cells) (hi : i < cells.cells.size) : i * k + k ≤ s.bytes.length := by
  rw [h.length, ← Nat.succ_mul]
  exact Nat.mul_le_mul_right k hi

theorem Arena.keeps (k : Nat) :
    Keeps (Copying.ofSize k) (fun destination : List UInt8 => ((), destination))
      (Arena.Shows k) where
  checkItem h item := by
    obtain ⟨rfl, -, -⟩ := h
    simp only [Storage.checkItem, Copying.ofSize]
    split <;> rfl
  checkDestination h destination := by
    obtain ⟨rfl, -, -⟩ := h
    simp only [Storage.checkDestination, Copying.ofSize]
    split <;> rfl
  put h slot hslot item hitem := by
    have hfits := h.slot_fits hslot
    have hlen : item.length = k := by
      simp only [Copying.ofSize] at hitem
      split at hitem
      · assumption
      · cases hitem
    obtain ⟨rfl, hsize, hshows⟩ := h
    refine ⟨rfl, ?_, ?_⟩
    · rw [Cells.size_put, ← hsize]
      exact length_overwrite _ _ _
    · intro i entry hentry
      by_cases hi : slot = i
      · subst hi
        rw [Cells.item?_put_self hslot] at hentry
        obtain rfl := Option.some.inj hentry
        exact ⟨hlen, slot_put_self hlen hfits⟩
      · rw [Cells.item?_put_of_ne hi] at hentry
        rw [slot_put_of_ne hi hlen hfits]
        exact hshows hentry
  get h slot entry hentry destination hdestination := by
    right
    obtain ⟨hlen, hslot⟩ := h.slot hentry
    have hroom : entry.length ≤ destination.length := by
      simp only [Copying.ofSize] at hdestination
      split at hdestination
      · cases hdestination
      · omega
    refine ⟨_, rfl, rfl, ?_⟩
    rw [hslot, overwrite_front hroom]
  release h slot := by
    refine ⟨h.itemSize_eq, ?_, ?_⟩
    · rw [Cells.size_release]
      exact h.length
    · intro i entry hentry
      exact h.slot (Cells.item?_release_eq_some hentry).2
  clear h := by
    refine ⟨h.itemSize_eq, ?_, ?_⟩
    · rw [Cells.size_clear]
      exact h.length
    · intro i entry hentry
      rw [Cells.item?_clear] at hentry
      cases hentry

end Netstack
