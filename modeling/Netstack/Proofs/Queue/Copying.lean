import Netstack.Proofs.Queue.Alone
import Netstack.Proofs.Queue.ByteStorage

/-
Queues of byte strings hold what a queue of items would hold.

Both kinds of copying queue work on the ring of a `Fifo` of byte strings: the same pushes
and pops succeed, and the cursors go the same way. A queue `Mirrors` such a `Fifo` if the
rings are equal and the storage shows the entries of the cells; it `Matches` a bounded list
if it mirrors a `Fifo` that represents the list. The second relation is kept by every
operation, whatever the storage is, and the two kinds are two instances of that.
-/

set_option autoImplicit false

namespace Netstack

open Copying (Op Reply)

/-! ## One operation -/

namespace Fifo

variable {α : Type} {f : Fifo α} {b : BoundedList α} {x : α} {xs : List α}

theorem checkCapacity_of_lt {n : Nat} (hn : 1 ≤ n) (hlimit : n < Memory.limit) :
    checkCapacity n = .ok () := by
  rw [checkCapacity, if_neg (by omega), Memory.reserve, if_pos hlimit]

theorem new_of_lt {n : Nat} (hn : 1 ≤ n) (hlimit : n < Memory.limit) :
    (new n : Except Error (Fifo α)) = .ok { ring := { capacity := n }, store := .new n } := by
  rw [new, checkCapacity_of_lt hn hlimit]
  rfl

theorem Represents.enqueue (h : f.Represents b) (hd : b.destroyed = false)
    (hroom : b.items.length < b.capacity) (x : α) :
    Represents (f.enqueue x) { b with items := b.items ++ [x] } :=
  h.of_steady (steady_enqueue f x)
    (h.holds.enqueue (h.destroyed.trans hd) (h.capacity.symm ▸ hroom) x)

theorem Represents.dequeue (h : f.Represents b) (hx : b.items = x :: xs) :
    f.dequeue () = ((f.dequeue ()).1, .ok x) ∧
      Represents (f.dequeue ()).1 { b with items := xs } := by
  obtain ⟨f', he, hf'⟩ := (hx ▸ h.holds : f.Holds (x :: xs)).dequeue
  have hs := steady_dequeue f
  rw [he] at hs ⊢
  exact ⟨rfl, h.of_steady hs hf'⟩

theorem Represents.isEmpty (h : f.Represents b) : f.ring.isEmpty = b.items.isEmpty := by
  rw [Bool.eq_iff_iff, h.holds.isEmpty_iff, List.isEmpty_iff]

theorem Represents.isFull (h : f.Represents b) :
    f.ring.isFull = decide (b.capacity ≤ b.items.length) := by
  rw [Bool.eq_iff_iff, h.holds.isFull_iff, h.capacity, decide_eq_true_iff]

end Fifo

section Keeping

variable {S ρ ρ' : Type} [Storage S (List UInt8) (List UInt8) ρ'] {c : Copying ρ}
  {read : ρ' → ρ × List UInt8} {Shows : S → Cells (List UInt8) → Prop}
  {q : Queue S} {f : Fifo (List UInt8)} {b : BoundedList (List UInt8)}

/-- A queue goes the way of a queue of items, and its storage shows the same entries. -/
structure Mirrors (Shows : S → Cells (List UInt8) → Prop) (q : Queue S)
    (f : Fifo (List UInt8)) : Prop where
  ring : q.ring = f.ring
  announced : q.announced = f.announced
  store : Shows q.store f.store

theorem Mirrors.enqueue (k : Keeps c read Shows) (h : Mirrors Shows q f)
    (htail : f.ring.tail < f.store.cells.size) {item : List UInt8} (hitem : c.item item = none) :
    Mirrors Shows (q.enqueue item) (f.enqueue item) := by
  refine ⟨?_, ?_, ?_⟩
  · rw [Queue.enqueue, Queue.enqueue, h.ring]
  · rw [Queue.enqueue, Queue.enqueue, h.ring]
  · rw [Queue.enqueue, Queue.enqueue, h.ring]
    exact k.put h.store htail hitem

/-- The oldest entry is read as the queue of items has it, or stays because of a fault. -/
theorem Mirrors.dequeue (k : Keeps c read Shows) (h : Mirrors Shows q f)
    {entry : List UInt8} {xs : List (List UInt8)} (hf : f.Holds (entry :: xs))
    {destination : List UInt8} (hdestination : c.destination destination = none) :
    (∃ fault, c.entry destination entry = some fault ∧
      q.dequeue destination = (q, .error (.invalidArgument fault))) ∨
    ∃ q' result, c.entry destination entry = none ∧ q.dequeue destination = (q', .ok result) ∧
      read result = (c.answer entry, entry ++ destination.drop entry.length) ∧
      Mirrors Shows q' (f.dequeue ()).1 ∧ (q.Quiet → q'.Quiet) := by
  have hfirst : f.store.item? f.ring.head = some entry := by
    have h0 := hf.cell 0 (by simp)
    rwa [Nat.add_zero, Nat.mod_eq_of_lt hf.head] at h0
  have hf' : f.dequeue () =
      ({ ring := f.ring.popped, store := f.store.release f.ring.head,
         announced := f.ring.popped.length }, .ok entry) := by
    have hget : Storage.get f.store f.ring.head () = .ok entry := by
      dsimp only [Storage.get]
      rw [hfirst]
    rw [Queue.dequeue, hget]
    rfl
  obtain ⟨fault, hfault, hget⟩ | ⟨result, hnone, hget, hread⟩ := k.get h.store hfirst hdestination
  · left
    refine ⟨fault, hfault, ?_⟩
    rw [Queue.dequeue, h.ring, hget]
  · right
    let q' : Queue S :=
      { ring := f.ring.popped
        store := Storage.release q.store f.ring.head
        announced := f.ring.popped.length }
    refine ⟨q', result, hnone, ?_, hread, ?_, ?_⟩
    · rw [Queue.dequeue, h.ring, hget]
    · rw [hf']
      exact ⟨rfl, rfl, k.release h.store _⟩
    · intro hquiet
      refine ⟨?_, (congrArg Ring.items h.ring).symm.trans hquiet.items⟩
      show f.ring.room.notifyOne = {}
      rw [← h.ring, hquiet.room]
      rfl

/-- Both are emptied at a stroke. -/
theorem Mirrors.emptied (k : Keeps c read Shows) (h : Mirrors Shows q f) (g : Ring → Ring) :
    Mirrors Shows { ring := g q.ring, store := Storage.clear q.store }
      { ring := g f.ring, store := Storage.clear f.store } :=
  ⟨congrArg g h.ring, rfl, k.clear h.store⟩

/-- Nobody waits on a queue, and it stands for a bounded list by way of a queue of items. -/
structure Matches (Shows : S → Cells (List UInt8) → Prop) (q : Queue S)
    (b : BoundedList (List UInt8)) : Prop where
  quiet : q.Quiet
  mirrors : ∃ f : Fifo (List UInt8), Mirrors Shows q f ∧ f.Represents b

theorem Matches.push (k : Keeps c read Shows) (h : Matches Shows q b) (item : List UInt8)
    (timeout : Timeout) :
    (q.copyStep read (.push item timeout)).2 = (b.copyStep c (.push item timeout)).2 ∧
      Matches Shows (q.copyStep read (.push item timeout)).1
        (b.copyStep c (.push item timeout)).1 := by
  obtain ⟨hquiet, f, hm, hr⟩ := h
  have hsame : Matches Shows q b := ⟨hquiet, f, hm, hr⟩
  rw [Queue.copyStep, BoundedList.copyStep, hquiet.push, k.checkItem hm.store, hm.ring,
    hr.destroyed, hr.isFull]
  cases hitem : c.item item with
  | some fault => exact ⟨rfl, hsame⟩
  | none =>
    simp only [Copying.refusal, BoundedList.append]
    by_cases hd : b.destroyed = true
    · rw [if_pos hd, if_pos hd]
      exact ⟨rfl, hsame⟩
    · rw [if_neg hd, if_neg hd]
      by_cases hroom : b.items.length < b.capacity
      · rw [if_neg (by simp [hroom]), if_pos hroom]
        have htail : f.ring.tail < f.store.cells.size := hr.holds.size.symm ▸ hr.holds.tail
        rw [Bool.not_eq_true] at hd
        exact ⟨rfl, hquiet.enqueue item, _, hm.enqueue k htail hitem, hr.enqueue hd hroom item⟩
      · rw [if_pos (by simpa using hroom), if_neg hroom]
        exact ⟨rfl, hsame⟩

theorem Matches.pop (k : Keeps c read Shows) (h : Matches Shows q b)
    (destination : List UInt8) (timeout : Timeout) :
    (q.copyStep read (.pop destination timeout)).2 =
        (b.copyStep c (.pop destination timeout)).2 ∧
      Matches Shows (q.copyStep read (.pop destination timeout)).1
        (b.copyStep c (.pop destination timeout)).1 := by
  obtain ⟨hquiet, f, hm, hr⟩ := h
  have hsame : Matches Shows q b := ⟨hquiet, f, hm, hr⟩
  have hdestroyed : q.ring.destroyed = b.destroyed := hm.ring ▸ hr.destroyed
  have hempty : q.ring.isEmpty = b.items.isEmpty := hm.ring ▸ hr.isEmpty
  rw [Queue.copyStep, BoundedList.copyStep, hquiet.pop, k.checkDestination hm.store, hdestroyed,
    hempty]
  cases hdestination : c.destination destination with
  | some fault => exact ⟨rfl, hsame⟩
  | none =>
    simp only [Copying.refusal, BoundedList.removeFirst, BoundedList.takeFirst]
    by_cases hd : b.destroyed = true
    · rw [if_pos hd, if_pos hd]
      exact ⟨rfl, hsame⟩
    · rw [if_neg hd, if_neg hd]
      cases hitems : b.items with
      | nil => exact ⟨rfl, hsame⟩
      | cons entry xs =>
        rw [if_neg (by simp)]
        have hholds : f.Holds (entry :: xs) := hitems ▸ hr.holds
        obtain ⟨fault, hfault, hq⟩ | ⟨q', result, hnone, hq, hread, hm', hquiet'⟩ :=
          hm.dequeue k hholds hdestination
        · simp only [hq, hfault]
          exact ⟨rfl, hsame⟩
        · simp only [hq, hnone]
          refine ⟨?_, hquiet' hquiet, _, hm', (hr.dequeue hitems).2⟩
          simp only [Prod.map, Copying.Reply.ofPop, hread]

theorem Matches.clear (k : Keeps c read Shows) (h : Matches Shows q b) :
    (q.copyStep read .clear).2 = (b.copyStep c .clear).2 ∧
      Matches Shows (q.copyStep read .clear).1 (b.copyStep c .clear).1 := by
  obtain ⟨hquiet, f, hm, hr⟩ := h
  have hdestroyed : q.ring.destroyed = b.destroyed := hm.ring ▸ hr.destroyed
  obtain ⟨-, hr'⟩ := hr.clear
  rw [Queue.clear, hr.checkIdle] at hr'
  rw [Queue.copyStep, BoundedList.copyStep, Queue.clear, hquiet.checkIdle, hdestroyed]
  unfold BoundedList.clear at hr' ⊢
  by_cases hd : b.destroyed = true
  · rw [if_pos hd, if_pos hd]
    exact ⟨rfl, hquiet, f, hm, hr⟩
  · rw [if_neg hd, if_neg hd] at hr' ⊢
    exact ⟨rfl, ⟨hquiet.room, hquiet.items⟩, _, hm.emptied k Ring.cleared, hr'⟩

theorem Matches.destroy (k : Keeps c read Shows) (h : Matches Shows q b) :
    (q.copyStep read .destroy).2 = (b.copyStep c .destroy).2 ∧
      Matches Shows (q.copyStep read .destroy).1 (b.copyStep c .destroy).1 := by
  obtain ⟨hquiet, f, hm, hr⟩ := h
  have hdestroyed : q.ring.destroyed = b.destroyed := hm.ring ▸ hr.destroyed
  have hlength : q.ring.length = b.items.length := hm.ring ▸ hr.holds.length
  obtain ⟨-, hr'⟩ := hr.destroy
  rw [Queue.destroy, hr.checkIdle] at hr'
  rw [Queue.copyStep, BoundedList.copyStep, Queue.destroy, hquiet.checkIdle, hdestroyed, hlength]
  unfold BoundedList.destroy at hr' ⊢
  by_cases hd : b.destroyed = true
  · rw [if_pos hd, if_pos hd]
    exact ⟨rfl, hquiet, f, hm, hr⟩
  · rw [if_neg hd, if_neg hd] at hr' ⊢
    exact ⟨rfl, ⟨hquiet.room, hquiet.items⟩, _, hm.emptied k Ring.retired, hr'⟩

/-- Each operation answers as on the list, and keeps the relation. -/
theorem Matches.step (k : Keeps c read Shows) (h : Matches Shows q b) (op : Op) :
    (q.copyStep read op).2 = (b.copyStep c op).2 ∧
      Matches Shows (q.copyStep read op).1 (b.copyStep c op).1 := by
  cases op with
  | push item timeout => exact h.push k item timeout
  | pop destination timeout => exact h.pop k destination timeout
  | clear => exact h.clear k
  | destroy => exact h.destroy k

end Keeping

/-! ## Whole sequences -/

namespace BoundedList

variable {α : Type}

theorem capacity_removeFirst (b : BoundedList α) (e : Error) :
    (b.removeFirst e).1.capacity = b.capacity := by
  unfold removeFirst takeFirst
  cases b.destroyed with
  | true => rfl
  | false => cases b.items <;> rfl

/-- The number of places never changes. -/
theorem capacity_copyStep {ρ : Type} {c : Copying ρ} (b : BoundedList (List UInt8)) (op : Op) :
    (b.copyStep c op).1.capacity = b.capacity := by
  cases op with
  | push item timeout =>
    rw [copyStep]
    cases c.item item with
    | some fault => rfl
    | none =>
      obtain ⟨items, h⟩ :=
        append_items (b := b) item (if timeout.waits then .timeout else .queueFull)
      show (b.append item _).1.capacity = b.capacity
      rw [h]
  | pop destination timeout =>
    have hrest := capacity_removeFirst b (if timeout.waits then .timeout else .queueEmpty)
    rw [copyStep]
    cases c.destination destination with
    | some fault => rfl
    | none =>
      dsimp only
      split
      · rfl
      · next rest entry heq =>
        rw [heq] at hrest
        cases c.entry destination entry with
        | some fault => rfl
        | none => exact hrest
  | clear =>
    rw [copyStep, clear]
    cases b.destroyed <;> rfl
  | destroy =>
    rw [copyStep, destroy]
    cases b.destroyed <;> rfl

end BoundedList

section Keeping

variable {S ρ ρ' : Type} [Storage S (List UInt8) (List UInt8) ρ'] {c : Copying ρ}
  {read : ρ' → ρ × List UInt8} {Shows : S → Cells (List UInt8) → Prop}
  {q : Queue S} {b : BoundedList (List UInt8)}

/-- An operation that fails changes nothing. -/
theorem Queue.Quiet.copyStep_of_isFailure (h : q.Quiet) {op : Op}
    (hfail : (q.copyStep read op).2.isFailure = true) : (q.copyStep read op).1 = q := by
  cases op with
  | push item timeout =>
    cases hr : (q.push item timeout).2 with
    | error r => exact h.push_of_error hr
    | ok u => simp [copyStep, hr, Except.mapError, Copying.Reply.isFailure] at hfail
  | pop destination timeout =>
    cases hr : (q.pop destination timeout).2 with
    | error e => exact h.pop_of_error hr
    | ok result => simp [copyStep, hr, Copying.Reply.ofPop, Copying.Reply.isFailure] at hfail
  | clear =>
    cases hr : q.clear.2 with
    | error e => exact clear_of_error hr
    | ok u => simp [copyStep, hr, Copying.Reply.isFailure] at hfail
  | destroy =>
    cases hr : q.destroy.2 with
    | error e => exact destroy_of_error hr
    | ok n => simp [copyStep, hr, Copying.Reply.isFailure] at hfail

/-- A pop that fails leaves the destination as it was. -/
theorem Queue.destination_of_error {destination left : List UInt8} {timeout : Timeout}
    {e : Error} (h : (q.copyStep read (.pop destination timeout)).2 = .popped (.error e) left) :
    left = destination := by
  cases hr : (q.pop destination timeout).2 with
  | error e' =>
    simp only [copyStep, Prod.map, hr, Copying.Reply.ofPop] at h
    exact (Copying.Reply.popped.inj h).2.symm
  | ok result =>
    simp only [copyStep, Prod.map, hr, Copying.Reply.ofPop] at h
    cases (Copying.Reply.popped.inj h).1

/-- What can be read off a queue of byte strings that stands for a list of them. -/
structure Copying.StandsFor (toList : Queue S → List (List UInt8))
    (step : Queue S → Op → Queue S × Reply ρ) (q : Queue S) (b : BoundedList (List UInt8)) :
    Prop where
  contents : toList q = b.items
  length : q.length = b.items.length
  fits : b.items.length ≤ b.capacity
  /-- an operation that fails leaves the whole queue as it was -/
  failure : ∀ op, (step q op).2.isFailure = true → (step q op).1 = q
  /-- and the destination -/
  destination : ∀ destination timeout e left,
    (step q (.pop destination timeout)).2 = .popped (.error e) left → left = destination

theorem Matches.standsFor (h : Matches Shows q b) {toList : Queue S → List (List UInt8)}
    (hcontents : toList q = b.items) :
    Copying.StandsFor toList (Queue.copyStep read) q b := by
  obtain ⟨hquiet, f, hm, hr⟩ := h
  refine ⟨hcontents, ?_, hr.capacity ▸ hr.holds.fits, fun _ => hquiet.copyStep_of_isFailure,
    fun _ _ _ _ => Queue.destination_of_error⟩
  rw [Queue.length, hm.announced]
  exact hr.holds.announced

/-- The entry at a place is in the slot that many slots behind the head. -/
theorem Matches.slot_of_lt (h : Matches Shows q b) {i : Nat} (hi : i < b.items.length) :
    ∃ cells : Cells (List UInt8), Shows q.store cells ∧
      cells.item? ((q.ring.head + i) % q.ring.capacity) = some b.items[i] := by
  obtain ⟨-, f, hm, hr⟩ := h
  refine ⟨f.store, hm.store, ?_⟩
  rw [hm.ring]
  exact hr.holds.cell i hi

theorem Matches.ring_length (h : Matches Shows q b) : q.ring.length = b.items.length := by
  obtain ⟨-, f, hm, hr⟩ := h
  rw [hm.ring]
  exact hr.holds.length

end Keeping

namespace CopyQueue

variable {q : CopyQueue} {b : BoundedList (List UInt8)} {n : Nat}

theorem toList_of_matches (h : Matches Copies.Shows q b) : q.toList = b.items := by
  obtain ⟨-, f, hm, hr⟩ := h
  rw [toList, hm.ring, show q.store.cells = f.store from hm.store]
  exact hr.holds.toList

/-- A peek tells the size of the oldest entry. -/
theorem peekSize_of_matches (h : Matches Copies.Shows q b) :
    q.peekSize = b.items.head?.map List.length := by
  obtain ⟨-, f, hm, hr⟩ := h
  rw [peekSize, hm.ring, hr.isEmpty, show q.store.cells = f.store from hm.store]
  cases hitems : b.items with
  | nil => rfl
  | cons entry xs =>
    have hfirst := hr.holds.cell 0 (by simp [hitems])
    rw [Nat.add_zero, Nat.mod_eq_of_lt hr.holds.head] at hfirst
    simp [hfirst, hitems]

theorem new_of_lt (hn : 1 ≤ n) (hlimit : n < Memory.limit) :
    CopyQueue.new n = .ok { ring := { capacity := n }, store := ⟨.new n⟩ } := by
  rw [CopyQueue.new, Fifo.checkCapacity_of_lt hn hlimit]
  rfl

theorem matches_new (hn : 1 ≤ n) (hlimit : n < Memory.limit) :
    Matches Copies.Shows { ring := { capacity := n }, store := ⟨.new n⟩ } { capacity := n } :=
  ⟨⟨rfl, rfl⟩, { ring := { capacity := n }, store := .new n }, ⟨rfl, rfl, rfl⟩,
    Fifo.represents_new (Fifo.new_of_lt hn hlimit)⟩

end CopyQueue

namespace SlotQueue

variable {q : SlotQueue} {b : BoundedList (List UInt8)} {n k : Nat}

theorem toList_of_matches (h : Matches (Arena.Shows k) q b) : q.toList = b.items := by
  rw [toList, h.ring_length]
  apply List.ext_getElem
  · simp
  · intro i hi hi'
    obtain ⟨cells, hshows, hcell⟩ := h.slot_of_lt hi'
    simp only [List.getElem_map, List.getElem_range]
    exact (hshows.slot hcell).2

/-- The bytes that a pop reads and a push writes lie inside the arena. -/
structure InArena (n k : Nat) (q : SlotQueue) : Prop where
  itemSize : q.itemSize = k
  length : q.store.bytes.length = n * k
  head : q.ring.head * k + k ≤ n * k
  tail : q.ring.tail * k + k ≤ n * k

theorem inArena_of_matches (h : Matches (Arena.Shows k) q b) (hcapacity : b.capacity = n) :
    q.InArena n k := by
  obtain ⟨-, f, hm, hr⟩ := h
  have hsize : f.store.cells.size = n := hr.holds.size.trans (hr.capacity.trans hcapacity)
  have hlength : q.store.bytes.length = n * k := by rw [hm.store.length, hsize]
  have hfits (i : Nat) (hi : i < f.ring.capacity) : i * k + k ≤ n * k := by
    rw [← hlength]
    exact hm.store.slot_fits (hr.holds.size.symm ▸ hi)
  rw [← hm.ring] at hfits
  exact ⟨hm.store.itemSize_eq, hlength, hfits _ (hm.ring ▸ hr.holds.head),
    hfits _ (hm.ring ▸ hr.holds.tail)⟩

theorem new_of_lt (hn : 1 ≤ n) (hk : 1 ≤ k) (hlimit : n * k < Memory.limit) :
    SlotQueue.new n k = .ok
      { ring := { capacity := n }
        store := { itemSize := k, bytes := List.replicate (n * k) 0 } } := by
  have hword : n * k < Memory.wordEnd := Nat.lt_trans hlimit (by decide)
  rw [SlotQueue.new, if_neg (by omega), Memory.sized, if_pos hword]
  simp only [bind, Except.bind, pure, Except.pure]
  rw [Memory.reserve, if_pos hlimit]

/-- An arena that cannot be allocated: its size is no machine word, or too much memory. -/
theorem new_of_le (hn : 1 ≤ n) (hk : 1 ≤ k) (hlimit : Memory.limit ≤ n * k) :
    SlotQueue.new n k = .error
      (if n * k < Memory.wordEnd then .outOfMemory
        else .invalidArgument (.overflow "slot queue arena size")) := by
  rw [SlotQueue.new, if_neg (by omega), Memory.sized]
  by_cases hword : n * k < Memory.wordEnd
  · rw [if_pos hword, if_pos hword]
    simp only [bind, Except.bind, pure, Except.pure]
    rw [Memory.reserve, if_neg (Nat.not_lt_of_le hlimit)]
  · rw [if_neg hword, if_neg hword]
    rfl

theorem matches_new (hn : 1 ≤ n) (hk : 1 ≤ k) (hlimit : n * k < Memory.limit) :
    Matches (Arena.Shows k)
      { ring := { capacity := n }
        store := { itemSize := k, bytes := List.replicate (n * k) 0 } } { capacity := n } := by
  have hn' : n < Memory.limit := Nat.lt_of_le_of_lt (Nat.le_mul_of_pos_right n hk) hlimit
  refine ⟨⟨rfl, rfl⟩, _, ⟨rfl, rfl, ?_⟩, Fifo.represents_new (Fifo.new_of_lt hn hn')⟩
  refine ⟨rfl, by simp [Cells.new], ?_⟩
  intro i entry hentry
  rw [Cells.item?, Cells.new, Array.getElem?_replicate] at hentry
  split at hentry <;> cases hentry

end SlotQueue

namespace Copying

/-- Both kinds of copying queue hold a bounded list of byte strings. Each can be made for
every positive number of entries that can be allocated. It then answers like the list,
whatever is done with it: a pop that succeeds writes the oldest entry to the front of the
destination, and beyond what a list refuses only the faults of the way of copying are
refused. Its contents are those of the list; an operation that fails leaves it, and the
destination, as they were. A peek at a queue of copies tells the size of the oldest entry,
and a queue of slots stays inside its arena. -/
theorem refines_byteStrings {n k : Nat} (hn : 1 ≤ n) (hk : 1 ≤ k) :
    ((Memory.limit ≤ n ∧ CopyQueue.new n = .error .outOfMemory) ∨
      ∃ q, CopyQueue.new n = .ok q ∧ ∀ ops : List Op,
        answers CopyQueue.step q ops =
          answers (BoundedList.copyStep ofAnyLength) { capacity := n } ops ∧
        StandsFor CopyQueue.toList CopyQueue.step (after CopyQueue.step q ops)
          (after (BoundedList.copyStep ofAnyLength) { capacity := n } ops) ∧
        (after CopyQueue.step q ops).peekSize =
          (after (BoundedList.copyStep ofAnyLength) { capacity := n } ops).items.head?.map
            List.length) ∧
    ((Memory.limit ≤ n * k ∧
        SlotQueue.new n k = .error (if n * k < Memory.wordEnd then .outOfMemory
          else .invalidArgument (.overflow "slot queue arena size"))) ∨
      ∃ q, SlotQueue.new n k = .ok q ∧ ∀ ops : List Op,
        answers SlotQueue.step q ops =
          answers (BoundedList.copyStep (ofSize k)) { capacity := n } ops ∧
        StandsFor SlotQueue.toList SlotQueue.step (after SlotQueue.step q ops)
          (after (BoundedList.copyStep (ofSize k)) { capacity := n } ops) ∧
        (after SlotQueue.step q ops).InArena n k) := by
  constructor
  · by_cases hlimit : n < Memory.limit
    · right
      refine ⟨_, CopyQueue.new_of_lt hn hlimit, fun ops => ?_⟩
      obtain ⟨hanswers, hend⟩ := simulates (fun _ _ op h => h.step Copies.keeps op)
        (CopyQueue.matches_new hn hlimit) ops
      exact ⟨hanswers, hend.standsFor (CopyQueue.toList_of_matches hend),
        CopyQueue.peekSize_of_matches hend⟩
    · left
      refine ⟨Nat.le_of_not_lt hlimit, ?_⟩
      rw [CopyQueue.new, Fifo.checkCapacity, if_neg (by omega), Memory.reserve, if_neg hlimit]
      rfl
  · by_cases hlimit : n * k < Memory.limit
    · right
      refine ⟨_, SlotQueue.new_of_lt hn hk hlimit, fun ops => ?_⟩
      obtain ⟨hanswers, hend⟩ := simulates (fun _ _ op h => h.step (Arena.keeps k) op)
        (SlotQueue.matches_new hn hk hlimit) ops
      refine ⟨hanswers, hend.standsFor (SlotQueue.toList_of_matches hend),
        SlotQueue.inArena_of_matches hend ?_⟩
      refine after_invariant (P := fun b : BoundedList (List UInt8) => b.capacity = n)
        (fun b op h => (BoundedList.capacity_copyStep b op).trans h) ?_ ops
      rfl
    · exact .inl ⟨Nat.le_of_not_lt hlimit, SlotQueue.new_of_le hn hk (Nat.le_of_not_lt hlimit)⟩

/-- A destination that is too small leaves the entry where it is; slots are used in turn. -/
theorem refines_byteStrings_two :
    ∃ q s, CopyQueue.new 2 = .ok q ∧ SlotQueue.new 2 4 = .ok s ∧
      answers CopyQueue.step q
        [.push [1, 2, 3] none, .pop [0] none, .pop [9, 9, 9, 9] none] =
          [.pushed (.ok ()),
            .popped (.error (.invalidArgument (.entryDestination 1 3))) [0],
            .popped (.ok 3) [1, 2, 3, 9]] ∧
      answers SlotQueue.step s
        [.push [1, 2, 3, 4] none, .push [5, 6, 7, 8] none, .push [9] none,
          .pop [0, 0, 0, 0, 0] none, .push [9, 9, 9, 9] none, .pop [0, 0, 0] none,
          .pop [0, 0, 0, 0] none, .pop [0, 0, 0, 0] none] =
          [.pushed (.ok ()), .pushed (.ok ()), .pushed (.error (.invalidArgument (.itemSize 1 4))),
            .popped (.ok ()) [1, 2, 3, 4, 0], .pushed (.ok ()),
            .popped (.error (.invalidArgument (.slotDestination 3 4))) [0, 0, 0],
            .popped (.ok ()) [5, 6, 7, 8], .popped (.ok ()) [9, 9, 9, 9]] := by
  obtain ⟨hcopy, hslot⟩ := refines_byteStrings (show 1 ≤ 2 by decide) (show 1 ≤ 4 by decide)
  obtain ⟨hlimit, -⟩ | ⟨q, hq, hops⟩ := hcopy
  · exact absurd hlimit (by decide)
  obtain ⟨hlimit, -⟩ | ⟨s, hs, hops'⟩ := hslot
  · exact absurd hlimit (by decide)
  exact ⟨q, s, hq, hs, (hops _).1, (hops' _).1⟩

end Copying

end Netstack
