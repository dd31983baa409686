import Mathlib.Data.List.Induction
import Mathlib.Data.Nat.ModEq
import Netstack.Queue.Fifo

/-
A queue of items is a list of bounded length.

`Holds q xs` says that the ring of `q` stands for the list `xs`: the cells from the head on,
going round, are the items of `xs`, there are no more of them than cells, and the tail is
where the next one goes. Gates say nothing about the contents. Every operation is described
once, by what it does to the list, and nothing else is needed of the cursors afterwards.
-/

set_option autoImplicit false

namespace Netstack

namespace Cells

variable {α : Type} {s : Cells α} {i j : Nat}

theorem item?_put_self (h : i < s.cells.size) (item : α) : (s.put i item).item? i = some item := by
  simp [item?, put, h]

theorem item?_put_of_ne (h : i ≠ j) (item : α) : (s.put i item).item? j = s.item? j := by
  simp [item?, put, Array.getElem?_setIfInBounds_ne h]

theorem item?_release_of_ne (h : i ≠ j) : (s.release i).item? j = s.item? j := by
  simp [item?, release, Array.getElem?_setIfInBounds_ne h]

@[simp] theorem size_put (i : Nat) (item : α) : (s.put i item).cells.size = s.cells.size := by
  simp [put]

@[simp] theorem size_release (i : Nat) : (s.release i).cells.size = s.cells.size := by
  simp [release]

@[simp] theorem size_clear : s.clear.cells.size = s.cells.size := by
  simp [clear]

end Cells

namespace Ring

/-- Two entries less than a round apart are in two slots. -/
theorem slot_ne {capacity head i j : Nat} (hi : i < capacity) (hj : j < capacity) (h : i ≠ j) :
    (head + i) % capacity ≠ (head + j) % capacity := by
  intro heq
  have hmod : i ≡ j [MOD capacity] := Nat.ModEq.add_left_cancel' head heq
  exact h (Nat.ModEq.eq_of_lt_of_lt hmod hi hj)

/-- The slot of an entry, counted from the second entry on. -/
theorem slot_succ (capacity head i : Nat) :
    ((head + 1) % capacity + i) % capacity = (head + (i + 1)) % capacity := by
  rw [Nat.mod_add_mod, Nat.add_assoc, Nat.add_comm 1 i]

end Ring

namespace Fifo

variable {α : Type} {q : Fifo α} {xs : List α} {x : α}

/-- A queue holds the items of a list, oldest first. -/
structure Holds (q : Fifo α) (xs : List α) : Prop where
  head : q.ring.head < q.ring.capacity
  tail : q.ring.tail < q.ring.capacity
  size : q.store.cells.size = q.ring.capacity
  length : q.ring.length = xs.length
  announced : q.announced = xs.length
  fits : xs.length ≤ q.ring.capacity
  next : q.ring.destroyed = false → q.ring.tail = (q.ring.head + xs.length) % q.ring.capacity
  cell : ∀ i (h : i < xs.length),
    q.store.item? ((q.ring.head + i) % q.ring.capacity) = some (xs[i])
  destroyed : q.ring.destroyed = true → xs = []

theorem Holds.capacity (h : q.Holds xs) : 0 < q.ring.capacity :=
  Nat.lt_of_le_of_lt (Nat.zero_le _) h.head

/-- The list that a queue stands for is the one that can be read off. -/
theorem Holds.toList (h : q.Holds xs) : q.toList = xs := by
  unfold Fifo.toList
  rw [h.length]
  -- by induction from the end, since reading goes on where the list is longer
  have hcells : ∀ ys : List α, (∀ i (hi : i < ys.length),
      q.store.item? ((q.ring.head + i) % q.ring.capacity) = some ys[i]) →
      (List.range ys.length).filterMap
        (fun i => q.store.item? ((q.ring.head + i) % q.ring.capacity)) = ys := by
    intro ys hys
    induction ys using List.reverseRecOn with
    | nil => rfl
    | append_singleton ys y ih =>
      rw [List.length_append, List.length_singleton, List.range_succ, List.filterMap_append, ih]
      · simp [hys ys.length (by simp)]
      · intro i hi
        rw [hys i (by simp; omega), List.getElem_append_left hi]
  exact hcells xs h.cell

theorem Holds.isFull_iff (h : q.Holds xs) :
    q.ring.isFull = true ↔ q.ring.capacity ≤ xs.length := by
  rw [Ring.isFull, h.length, decide_eq_true_iff]

theorem Holds.isEmpty_iff (h : q.Holds xs) : q.ring.isEmpty = true ↔ xs = [] := by
  rw [Ring.isEmpty, h.length, beq_iff_eq, List.length_eq_zero_iff]

/-! ## One entry in, one entry out -/

/-- Waiting callers come and go without touching the contents. -/
theorem Holds.mapRoom (h : q.Holds xs) (f : Gate → Gate) :
    Holds { q with ring := q.ring.mapRoom f } xs :=
  ⟨h.head, h.tail, h.size, h.length, h.announced, h.fits, h.next, h.cell, h.destroyed⟩

theorem Holds.mapItems (h : q.Holds xs) (f : Gate → Gate) :
    Holds { q with ring := q.ring.mapItems f } xs :=
  ⟨h.head, h.tail, h.size, h.length, h.announced, h.fits, h.next, h.cell, h.destroyed⟩

theorem Holds.enqueue (h : q.Holds xs) (hd : q.ring.destroyed = false)
    (hroom : xs.length < q.ring.capacity) (x : α) :
    Holds (q.enqueue x) (xs ++ [x]) := by
  have htail := h.next hd
  have hlength : q.ring.length + 1 = (xs ++ [x]).length := by
    rw [h.length, List.length_append, List.length_singleton]
  refine ⟨h.head, Nat.mod_lt _ h.capacity, ?_, hlength, hlength, ?_, ?_, ?_, ?_⟩
  · show (q.store.put q.ring.tail x).cells.size = q.ring.capacity
    rw [Cells.size_put, h.size]
  · rw [List.length_append, List.length_singleton]
    exact hroom
  · intro _
    show (q.ring.tail + 1) % q.ring.capacity = _
    rw [htail, Nat.mod_add_mod, List.length_append, List.length_singleton, Nat.add_assoc]
    rfl
  · intro i hi
    show (q.store.put q.ring.tail x).item? ((q.ring.head + i) % q.ring.capacity) = _
    rw [htail]
    rw [List.length_append, List.length_singleton] at hi
    by_cases hlast : i = xs.length
    · subst hlast
      rw [Cells.item?_put_self]
      · simp
      · rw [h.size]
        exact Nat.mod_lt _ h.capacity
    · -- the cell of an older entry is another one than the cell at the tail
      have hlt : i < xs.length := by omega
      rw [Cells.item?_put_of_ne (Ring.slot_ne hroom (by omega) (Ne.symm hlast)),
        List.getElem_append_left hlt]
      exact h.cell i hlt
  · intro hd'
    rw [show (q.enqueue x).ring.destroyed = q.ring.destroyed from rfl, hd] at hd'
    cases hd'

theorem Holds.dequeue (h : q.Holds (x :: xs)) :
    ∃ q', q.dequeue () = (q', .ok x) ∧ Holds q' xs := by
  -- the head is the cell of the oldest item
  have hfirst : q.store.item? q.ring.head = some x := by
    have h0 := h.cell 0 (by simp)
    rw [Nat.add_zero, Nat.mod_eq_of_lt h.head] at h0
    exact h0
  have hfits : xs.length + 1 ≤ q.ring.capacity := h.fits
  -- out of service it would be empty
  have hd : q.ring.destroyed = false := by
    cases hd : q.ring.destroyed with
    | false => rfl
    | true => cases h.destroyed hd
  have hget : Storage.get q.store q.ring.head () = .ok x := by
    dsimp only [Storage.get]
    rw [hfirst]
  have hlength : q.ring.length - 1 = xs.length := by
    rw [h.length]
    rfl
  let q' : Fifo α :=
    { ring := q.ring.popped
      store := q.store.release q.ring.head
      announced := q.ring.popped.length }
  refine ⟨q', ?_, ?_⟩
  · rw [Queue.dequeue, hget]
    rfl
  · refine ⟨Nat.mod_lt _ h.capacity, h.tail, ?_, hlength, hlength, ?_, ?_, ?_, ?_⟩
    · rw [Cells.size_release]
      exact h.size
    · exact Nat.le_of_succ_le hfits
    · intro _
      show q.ring.tail = ((q.ring.head + 1) % q.ring.capacity + xs.length) % q.ring.capacity
      rw [h.next hd, Ring.slot_succ]
      rfl
    · intro i hi
      show (q.store.release q.ring.head).item?
        (((q.ring.head + 1) % q.ring.capacity + i) % q.ring.capacity) = _
      -- the cell at the head is emptied, and that is no cell of the others
      have hne : q.ring.head ≠ (q.ring.head + (i + 1)) % q.ring.capacity := by
        have h0 := @Ring.slot_ne _ q.ring.head 0 (i + 1) h.capacity (by omega)
          (Nat.succ_ne_zero i).symm
        rw [Nat.add_zero, Nat.mod_eq_of_lt h.head] at h0
        exact h0
      rw [Ring.slot_succ, Cells.item?_release_of_ne hne]
      exact h.cell (i + 1) (by simp; omega)
    · intro hd'
      rw [show q.ring.popped.destroyed = q.ring.destroyed from rfl, hd] at hd'
      cases hd'

theorem holds_new {capacity : Nat} (h : (new capacity : Except Error (Fifo α)) = .ok q) :
    q.Holds [] := by
  unfold new checkCapacity at h
  split at h
  · cases h
  · next hzero =>
    cases hr : Memory.reserve capacity with
    | error e =>
      rw [hr] at h
      cases h
    | ok u =>
      rw [hr] at h
      obtain rfl := Except.ok.inj h
      have hpos : 0 < capacity := Nat.pos_of_ne_zero hzero
      refine ⟨hpos, hpos, ?_, rfl, rfl, Nat.zero_le _, ?_, ?_, fun _ => rfl⟩
      · simp [Cells.new]
      · intro _
        simp
      · intro i hi
        exact absurd hi (Nat.not_lt_zero i)

/-! ## What the operations do to the list -/

theorem serving_new {capacity : Nat} (h : (new capacity : Except Error (Fifo α)) = .ok q) :
    q.ring.destroyed = false := by
  unfold new at h
  obtain ⟨_, -, h⟩ := bind_eq_ok_iff.1 h
  obtain rfl := Except.ok.inj h
  rfl

/-- Taking fails on a queue out of service, finds nothing in an empty one, and otherwise
takes the oldest item. -/
theorem Holds.take_cases (h : q.Holds xs) :
    (q.ring.destroyed = true ∧ q.take = (q, .error .destroyed)) ∨
    (q.ring.destroyed = false ∧ xs = [] ∧ q.take = (q, .ok none)) ∨
    ∃ x ys q', xs = x :: ys ∧ q.take = (q', .ok (some x)) ∧ Holds q' ys := by
  unfold take
  cases hd : q.ring.destroyed with
  | true => exact .inl ⟨rfl, rfl⟩
  | false =>
    right
    rw [if_neg (by simp)]
    cases xs with
    | nil =>
      rw [if_pos (h.isEmpty_iff.2 rfl)]
      exact .inl ⟨rfl, rfl, rfl⟩
    | cons x ys =>
      obtain ⟨q', hq, hys⟩ := h.dequeue
      right
      refine ⟨x, ys, q', rfl, ?_, hys⟩
      rw [if_neg (by rw [h.isEmpty_iff]; simp), hq]
      rfl

/-- Draining gives every item and leaves none. -/
theorem Holds.drain (h : q.Holds xs) : q.drain.2 = xs ∧ Holds q.drain.1 [] := by
  -- the bound on the takes is the length of the queue, so they take everything
  have hupTo : ∀ (ys : List α) (q : Fifo α), q.Holds ys →
      (takeUpTo ys.length q).2 = ys ∧ Holds (takeUpTo ys.length q).1 [] := by
    intro ys
    induction ys with
    | nil => exact fun q hq => ⟨rfl, hq⟩
    | cons y ys ih =>
      intro q hq
      rw [List.length_cons, takeUpTo]
      obtain ⟨hd, -⟩ | ⟨-, hn, -⟩ | ⟨x, ys', q', heq, ht, hq'⟩ := hq.take_cases
      · cases hq.destroyed hd
      · cases hn
      · obtain ⟨rfl, rfl⟩ := List.cons.inj heq
        rw [ht]
        exact ⟨congrArg (y :: ·) (ih q' hq').1, (ih q' hq').2⟩
  rw [Fifo.drain, h.length]
  exact hupTo xs q h

/-- An offer fails on a queue out of service and on a full one, and is appended otherwise. -/
theorem Holds.offer_cases (h : q.Holds xs) (x : α) :
    (q.ring.destroyed = true ∧ q.offer x = (q, .error ⟨.destroyed, x⟩)) ∨
    (q.ring.destroyed = false ∧ q.ring.capacity ≤ xs.length ∧
      q.offer x = (q, .error ⟨.queueFull, x⟩)) ∨
    (q.ring.destroyed = false ∧ xs.length < q.ring.capacity ∧
      ∃ q', q.offer x = (q', .ok ()) ∧ Holds q' (xs ++ [x])) := by
  unfold offer
  cases hd : q.ring.destroyed with
  | true => exact .inl ⟨rfl, rfl⟩
  | false =>
    right
    rw [if_neg (by simp)]
    by_cases hfull : q.ring.isFull = true
    · rw [if_pos hfull]
      exact .inl ⟨rfl, h.isFull_iff.1 hfull, rfl⟩
    · have hroom : xs.length < q.ring.capacity := by
        rw [h.isFull_iff] at hfull
        omega
      rw [if_neg hfull]
      exact .inr ⟨rfl, hroom, _, rfl, h.enqueue hd hroom x⟩

/-- Only taking a queue out of service takes it out of service. -/
theorem destroyed_offer (q : Fifo α) (x : α) :
    (q.offer x).1.ring.destroyed = q.ring.destroyed := by
  unfold offer
  split
  · rfl
  · split <;> rfl

theorem destroyed_take (q : Fifo α) : q.take.1.ring.destroyed = q.ring.destroyed := by
  unfold take
  split
  · rfl
  · split
    · rfl
    · change (q.dequeue ()).1.ring.destroyed = _
      unfold Queue.dequeue
      split <;> rfl

/-- A push that may wait is an offer, but for a full queue, where it may wait for room. -/
theorem Holds.beginPush_cases (h : q.Holds xs) (x : α) (waits : Bool) :
    (q.ring.destroyed = true ∧ q.beginPush x waits = (q, .done (.error ⟨.destroyed, x⟩))) ∨
    (q.ring.destroyed = false ∧ q.ring.capacity ≤ xs.length ∧
      ((waits = false ∧ q.beginPush x waits = (q, .done (.error ⟨.queueFull, x⟩))) ∨
        (waits = true ∧ ∃ q', q.beginPush x waits = (q', .parked x) ∧ Holds q' xs ∧
          q'.ring.destroyed = false ∧ q'.ring.capacity = q.ring.capacity))) ∨
    (q.ring.destroyed = false ∧ xs.length < q.ring.capacity ∧
      ∃ q', q.beginPush x waits = (q', .done (.ok ())) ∧ Holds q' (xs ++ [x])) := by
  unfold Queue.beginPush
  rw [show Storage.checkItem q.store x = .ok () from rfl]
  dsimp only
  cases hd : q.ring.destroyed with
  | true => exact .inl ⟨rfl, rfl⟩
  | false =>
    right
    rw [if_neg (by simp)]
    by_cases hfull : q.ring.isFull = true
    · left
      refine ⟨rfl, h.isFull_iff.1 hfull, ?_⟩
      rw [hfull, if_neg (by simp)]
      cases waits with
      | false => exact .inl ⟨rfl, rfl⟩
      | true => exact .inr ⟨rfl, _, rfl, h.mapRoom _, hd, rfl⟩
    · have hroom : xs.length < q.ring.capacity := by
        rw [h.isFull_iff] at hfull
        omega
      rw [Bool.not_eq_true] at hfull
      rw [hfull, if_pos (by simp)]
      exact .inr ⟨rfl, hroom, _, rfl, h.enqueue hd hroom x⟩

/-- A woken push waits on if the queue is full again. -/
theorem Holds.wakePush_cases (h : q.Holds xs) (x : α) :
    (∃ q', q.wakePush x = (q', .done (.error ⟨.destroyed, x⟩)) ∧ Holds q' xs) ∨
    (∃ q', q.wakePush x = (q', .parked x) ∧ Holds q' xs) ∨
    ∃ q', q.wakePush x = (q', .done (.ok ())) ∧ Holds q' (xs ++ [x]) := by
  have hwoken := h.mapRoom Gate.take
  unfold Queue.wakePush
  dsimp only
  cases hd : q.ring.destroyed with
  | true =>
    rw [if_pos (show (q.ring.mapRoom Gate.take).destroyed = true from hd)]
    exact .inl ⟨_, rfl, hwoken.mapRoom Gate.leave⟩
  | false =>
    right
    have hserves : ¬ (q.ring.mapRoom Gate.take).destroyed = true := by
      rw [show (q.ring.mapRoom Gate.take).destroyed = q.ring.destroyed from rfl, hd]
      simp
    rw [if_neg hserves]
    split
    · exact .inl ⟨_, rfl, hwoken.mapRoom Gate.doze⟩
    · next hfull =>
      have hroom : xs.length < q.ring.capacity := by
        rw [hwoken.isFull_iff] at hfull
        exact Nat.lt_of_not_le hfull
      exact .inr ⟨_, rfl, (hwoken.mapRoom Gate.leave).enqueue hd hroom x⟩

/-- A push that has given up looks for room once more. -/
theorem Holds.lastPush_cases (h : q.Holds xs) (x : α) :
    (q.ring.destroyed = true ∧ ∃ q', q.lastPush x = (q', .error ⟨.destroyed, x⟩) ∧
      Holds q' xs) ∨
    (q.ring.destroyed = false ∧ q.ring.capacity ≤ xs.length ∧
      ∃ q', q.lastPush x = (q', .error ⟨.timeout, x⟩) ∧ Holds q' xs) ∨
    (q.ring.destroyed = false ∧ xs.length < q.ring.capacity ∧
      ∃ q', q.lastPush x = (q', .ok ()) ∧ Holds q' (xs ++ [x])) := by
  unfold Queue.lastPush
  dsimp only
  cases hd : q.ring.destroyed with
  | true =>
    rw [if_pos rfl]
    exact .inl ⟨rfl, _, rfl, h.mapRoom Gate.leave⟩
  | false =>
    right
    rw [if_neg (by simp)]
    split
    · next hfull => exact .inl ⟨rfl, h.isFull_iff.1 hfull, _, rfl, h.mapRoom Gate.leave⟩
    · next hfull =>
      have hroom : xs.length < q.ring.capacity := by
        rw [h.isFull_iff] at hfull
        exact Nat.lt_of_not_le hfull
      exact .inr ⟨rfl, hroom, _, rfl, (h.mapRoom Gate.leave).enqueue hd hroom x⟩

/-- A push whose time is up looks for room once more. -/
theorem Holds.expirePush_cases (h : q.Holds xs) (x : α) :
    (q.ring.destroyed = true ∧ ∃ q', q.expirePush x = (q', .error ⟨.destroyed, x⟩) ∧
      Holds q' xs) ∨
    (q.ring.destroyed = false ∧ q.ring.capacity ≤ xs.length ∧
      ∃ q', q.expirePush x = (q', .error ⟨.timeout, x⟩) ∧ Holds q' xs) ∨
    (q.ring.destroyed = false ∧ xs.length < q.ring.capacity ∧
      ∃ q', q.expirePush x = (q', .ok ()) ∧ Holds q' (xs ++ [x])) :=
  (h.mapRoom Gate.giveUp).lastPush_cases x

/-- Somebody who is alone with the queue waits in vain: a full queue is full or times out. -/
theorem Holds.push_cases (h : q.Holds xs) (x : α) (timeout : Timeout) :
    (q.ring.destroyed = true ∧ q.push x timeout = (q, .error ⟨.destroyed, x⟩)) ∨
    (q.ring.destroyed = false ∧ q.ring.capacity ≤ xs.length ∧
      ∃ q', q.push x timeout =
        (q', .error ⟨if timeout.waits then .timeout else .queueFull, x⟩) ∧ Holds q' xs) ∨
    (q.ring.destroyed = false ∧ xs.length < q.ring.capacity ∧
      ∃ q', q.push x timeout = (q', .ok ()) ∧ Holds q' (xs ++ [x])) := by
  unfold Queue.push
  obtain ⟨hd, hb⟩ | ⟨hd, hfull, ⟨hw, hb⟩ | ⟨hw, q', hb, hq', hd', hcap⟩⟩ |
    ⟨hd, hroom, q', hb, hq'⟩ := h.beginPush_cases x timeout.waits
  · rw [hb]
    exact .inl ⟨hd, rfl⟩
  · rw [hb, hw]
    exact .inr (.inl ⟨hd, hfull, q, rfl, h⟩)
  · rw [hb, hw]
    -- nobody came in between: the queue is in service and full, as it was
    obtain ⟨hdead, -⟩ | ⟨-, -, q'', he, hq''⟩ | ⟨-, hroom, -⟩ := hq'.expirePush_cases x
    · rw [hd'] at hdead
      cases hdead
    · exact .inr (.inl ⟨hd, hfull, q'', he, hq''⟩)
    · rw [hcap] at hroom
      omega
  · rw [hb]
    exact .inr (.inr ⟨hd, hroom, q', rfl, hq'⟩)

/-- Somebody who is alone with the queue waits in vain for an item. -/
theorem Holds.pop_cases (h : q.Holds xs) (timeout : Timeout) :
    (q.ring.destroyed = true ∧ q.pop () timeout = (q, .error .destroyed)) ∨
    (q.ring.destroyed = false ∧ xs = [] ∧
      ∃ q', q.pop () timeout = (q', .error (if timeout.waits then .timeout else .queueEmpty)) ∧
        Holds q' []) ∨
    ∃ x ys q', xs = x :: ys ∧ q.pop () timeout = (q', .ok x) ∧ Holds q' ys := by
  unfold Queue.pop Queue.beginPop
  rw [show Storage.checkDestination q.store () = .ok () from rfl]
  dsimp only
  cases hd : q.ring.destroyed with
  | true => exact .inl ⟨rfl, rfl⟩
  | false =>
    right
    rw [if_neg (by simp)]
    cases xs with
    | nil =>
      left
      have hempty := h.isEmpty_iff.2 rfl
      refine ⟨rfl, rfl, ?_⟩
      rw [hempty, if_neg (by simp)]
      cases timeout.waits with
      | false => exact ⟨q, rfl, h⟩
      | true =>
        -- it enters the gate, looks for the last time and finds the queue as it was
        let late := (q.ring.mapItems Gate.enter).mapItems Gate.giveUp
        refine ⟨_, ?_, (h.mapItems fun g => g.enter.giveUp).mapItems Gate.leave⟩
        show Queue.lastPop { q with ring := late } () = _
        have hserves : late.destroyed = false := hd
        have hnone : late.isEmpty = true := hempty
        simp only [Queue.lastPop, hserves, hnone, Bool.false_eq_true, if_false, if_true]
        rfl
    | cons x ys =>
      right
      obtain ⟨q', hq, hys⟩ := h.dequeue
      refine ⟨x, ys, q', rfl, ?_, hys⟩
      have hitem : q.ring.isEmpty = false := by
        rw [← Bool.not_eq_true, h.isEmpty_iff]
        simp
      rw [hitem, if_pos (by simp), hq]

/-- A queue that is emptied at a stroke starts again at the first slot. -/
theorem Holds.cleared (h : q.Holds xs) :
    Holds { ring := q.ring.cleared, store := Storage.clear q.store } [] := by
  refine ⟨h.capacity, h.capacity, ?_, rfl, rfl, Nat.zero_le _, ?_, ?_, fun _ => rfl⟩
  · show q.store.clear.cells.size = q.ring.capacity
    rw [Cells.size_clear]
    exact h.size
  · intro _
    exact (Nat.zero_mod _).symm
  · intro i hi
    exact absurd hi (Nat.not_lt_zero i)

/-- A queue taken out of service is empty. -/
theorem Holds.retired (h : q.Holds xs) :
    Holds { ring := q.ring.retired, store := Storage.clear q.store } [] := by
  refine ⟨h.head, h.tail, ?_, rfl, rfl, Nat.zero_le _, ?_, ?_, fun _ => rfl⟩
  · show q.store.clear.cells.size = q.ring.capacity
    rw [Cells.size_clear]
    exact h.size
  · rintro ⟨⟩
  · intro i hi
    exact absurd hi (Nat.not_lt_zero i)

theorem Holds.destroy (h : q.Holds xs) {n : Nat} (hok : q.destroy.2 = .ok n) :
    n = xs.length ∧ Holds q.destroy.1 [] := by
  unfold Queue.destroy at hok ⊢
  cases hi : q.ring.checkIdle with
  | error e =>
    rw [hi] at hok
    cases hok
  | ok u =>
    rw [hi] at hok
    obtain rfl := Except.ok.inj hok
    exact ⟨h.length, h.retired⟩

/-! ## Room for one more -/

/-- The queue is in service and not full. -/
def HasRoom (q : Fifo α) : Prop := q.ring.destroyed = false ∧ q.ring.isFull = false

instance (q : Fifo α) : Decidable q.HasRoom := inferInstanceAs (Decidable (_ ∧ _))

theorem Holds.hasRoom_iff (h : q.Holds xs) :
    q.HasRoom ↔ q.ring.destroyed = false ∧ xs.length < q.ring.capacity := by
  rw [HasRoom, ← Bool.not_eq_true q.ring.isFull, h.isFull_iff, Nat.not_le]

section Pieces

variable {q' : Fifo α} {r : Except (Rejected α) Unit}

/-- Whichever piece of a push is its last one, it ends well exactly if there is room then. -/
theorem ok_iff_of_beginPush {waits : Bool} (h : q.beginPush x waits = (q', .done r)) :
    r = .ok () ↔ q.HasRoom := by
  unfold Queue.beginPush at h
  rw [show Storage.checkItem q.store x = .ok () from rfl] at h
  unfold HasRoom
  cases hd : q.ring.destroyed <;> cases hfull : q.ring.isFull <;> cases waits <;>
    simp_all <;> simp [← h.2]

theorem ok_iff_of_wakePush (h : q.wakePush x = (q', .done r)) : r = .ok () ↔ q.HasRoom := by
  have hd' : (q.ring.mapRoom Gate.take).destroyed = q.ring.destroyed := rfl
  have hfull' : (q.ring.mapRoom Gate.take).isFull = q.ring.isFull := rfl
  unfold Queue.wakePush at h
  unfold HasRoom
  dsimp only at h
  rw [hd', hfull'] at h
  cases hd : q.ring.destroyed <;> cases hfull : q.ring.isFull <;> simp_all <;> simp [← h.2]

theorem ok_iff_of_lastPush (q : Fifo α) (x : α) : (q.lastPush x).2 = .ok () ↔ q.HasRoom := by
  unfold Queue.lastPush HasRoom
  cases hd : q.ring.destroyed <;> cases hfull : q.ring.isFull <;> simp_all

theorem ok_iff_of_expirePush (q : Fifo α) (x : α) : (q.expirePush x).2 = .ok () ↔ q.HasRoom :=
  ok_iff_of_lastPush { q with ring := q.ring.mapRoom Gate.giveUp } x

theorem offer_eq_ok_iff (q : Fifo α) (x : α) : (q.offer x).2 = .ok () ↔ q.HasRoom := by
  unfold offer HasRoom
  cases hd : q.ring.destroyed <;> cases hfull : q.ring.isFull <;> simp_all

/-- Who goes to sleep has found no room, and has only entered the gate. -/
theorem parked_of_beginPush {waits : Bool} {x' : α} (h : q.beginPush x waits = (q', .parked x')) :
    ¬ q.HasRoom ∧ q' = { q with ring := q.ring.mapRoom Gate.enter } ∧ x' = x := by
  unfold Queue.beginPush at h
  rw [show Storage.checkItem q.store x = .ok () from rfl] at h
  unfold HasRoom
  cases hd : q.ring.destroyed <;> cases hfull : q.ring.isFull <;> cases waits <;> simp_all

/-- Somebody who is alone waits for room in vain. -/
theorem push_eq_ok_iff (q : Fifo α) (x : α) (timeout : Timeout) :
    (q.push x timeout).2 = .ok () ↔ q.HasRoom := by
  unfold Queue.push
  split
  · next hbegin => exact ok_iff_of_beginPush hbegin
  · next q' x' hbegin =>
    obtain ⟨hfull, rfl, -⟩ := parked_of_beginPush hbegin
    rw [ok_iff_of_expirePush]
    exact iff_of_false hfull hfull

end Pieces

end Fifo

end Netstack
