import Netstack.Queue.Basic

/-
Queues that own their items.

An item pushed belongs to the queue until it is popped; a push that fails gives it
back. Besides the calls that may wait there are `offer` and `take`, which do not
wait for room or items and so tell a full queue from a destroyed one, and an empty
one from both.

`toList` is what a queue holds, oldest first: the cells of the ring from the head on.
-/

set_option autoImplicit false

namespace Netstack

/-- A queue of items of type `α`. -/
abbrev Fifo (α : Type) := Queue (Cells α)

namespace Fifo

variable {α : Type}

/-- Refuse a queue without slots, or with more than can be allocated. -/
def checkCapacity (capacity : Nat) : Except Error Unit :=
  if capacity = 0 then .error (.invalidArgument (.zero "queue capacity"))
  else Memory.reserve capacity

/-- An empty queue for `capacity` items. -/
def new (capacity : Nat) : Except Error (Fifo α) := do
  checkCapacity capacity
  return { ring := { capacity := capacity }, store := .new capacity }

/-- What the queue holds, oldest first. -/
def toList (q : Fifo α) : List α :=
  (List.range q.ring.length).filterMap fun i =>
    q.store.item? ((q.ring.head + i) % q.ring.capacity)

/-- Push `item` if there is room now. -/
def offer (q : Fifo α) (item : α) : Fifo α × Except (Rejected α) Unit :=
  if q.ring.destroyed then (q, .error ⟨.destroyed, item⟩)
  else if q.ring.isFull then (q, .error ⟨.queueFull, item⟩)
  else (q.enqueue item, .ok ())

/-- Pop the oldest item if there is one now. -/
def take (q : Fifo α) : Fifo α × Except Error (Option α) :=
  if q.ring.destroyed then (q, .error .destroyed)
  else if q.ring.isEmpty then (q, .ok none)
  else
    let (q, answer) := q.dequeue ()
    (q, answer.map some)

/-- Take `n` items, or as many as there are. -/
def takeUpTo : Nat → Fifo α → Fifo α × List α
  | 0, q => (q, [])
  | n + 1, q =>
    match q.take with
    | (q, .ok (some item)) =>
      let (q, items) := takeUpTo n q
      (q, item :: items)
    | (q, _) => (q, [])

/-- Take every item that is there now. -/
def drain (q : Fifo α) : Fifo α × List α := takeUpTo q.ring.length q

/-- The diagnostic text of a queue. -/
def debug (q : Fifo α) : String :=
  Text.record "BoundedQueue"
    [Text.field "len" (toString q.length), Text.field "capacity" (toString q.capacity)]

end Fifo

end Netstack
