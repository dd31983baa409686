import Netstack.Queue.Ring
import Netstack.Queue.Storage
import Netstack.Wait.Progress

/-
Bounded queues, first in first out.

Producers wait while the queue is full and consumers while it is empty; a timeout
of zero never waits. One entry more wakes one consumer and one free slot more wakes
one producer. As long as anybody waits, the queue can neither be emptied at a stroke
nor be taken out of service.

A push or pop that waits is in pieces: `beginPush` and `beginPop` look once and may enter
a gate, `wakePush` and `wakePop` look again after a wake-up, and when the time of the
caller is up it sleeps no more, and `lastPush` and `lastPop` look for the last time.
`expirePush` and `expirePop` are both of these at once. `push` and `pop` are the calls of
somebody who is alone with the queue.
-/

set_option autoImplicit false

namespace Netstack

structure Queue (S : Type) where
  ring : Ring
  store : S
  /-- the number of entries as it was last announced, for those who ask without the lock -/
  announced : Nat := 0

namespace Queue

variable {S ι δ ρ : Type} [Storage S ι δ ρ]

def length (q : Queue S) : Nat := q.announced

def isEmpty (q : Queue S) : Bool := q.length == 0

def capacity (q : Queue S) : Nat := q.ring.capacity

/-- Callers that wait in `push` or `pop`. -/
def waiters (q : Queue S) : Nat := q.ring.waiters

/-! ## One entry in, one entry out -/

/-- Write `item` into the free slot at the tail. -/
def enqueue (q : Queue S) (item : ι) : Queue S :=
  { ring := q.ring.pushed
    store := Storage.put q.store q.ring.tail item
    announced := q.ring.pushed.length }

/-- Read the oldest entry into `destination` and take it away. If it cannot be read,
it stays. -/
def dequeue (q : Queue S) (destination : δ) : Queue S × Except Error ρ :=
  match Storage.get q.store q.ring.head destination with
  | .error e => (q, .error e)
  | .ok result =>
    ({ ring := q.ring.popped
       store := Storage.release q.store q.ring.head
       announced := q.ring.popped.length }, .ok result)

/-! ## Waiting for room -/

/-- Look for room, and enter the gate if there is none and the caller waits. -/
def beginPush (q : Queue S) (item : ι) (waits : Bool) :
    Queue S × Progress ι (Except (Rejected ι) Unit) :=
  match Storage.checkItem q.store item with
  | .error e => (q, .done (.error ⟨e, item⟩))
  | .ok () =>
    if q.ring.destroyed then (q, .done (.error ⟨.destroyed, item⟩))
    else if !q.ring.isFull then (q.enqueue item, .done (.ok ()))
    else if waits then ({ q with ring := q.ring.mapRoom Gate.enter }, .parked item)
    else (q, .done (.error ⟨.queueFull, item⟩))

/-- Look for room again after a wake-up. -/
def wakePush (q : Queue S) (item : ι) : Queue S × Progress ι (Except (Rejected ι) Unit) :=
  let q := { q with ring := q.ring.mapRoom Gate.take }
  let left := { q with ring := q.ring.mapRoom Gate.leave }
  if q.ring.destroyed then (left, .done (.error ⟨.destroyed, item⟩))
  else if q.ring.isFull then ({ q with ring := q.ring.mapRoom Gate.doze }, .parked item)
  else (left.enqueue item, .done (.ok ()))

/-- Look for room for the last time, and leave the gate. -/
def lastPush (q : Queue S) (item : ι) : Queue S × Except (Rejected ι) Unit :=
  let left := { q with ring := q.ring.mapRoom Gate.leave }
  if q.ring.destroyed then (left, .error ⟨.destroyed, item⟩)
  else if q.ring.isFull then (left, .error ⟨.timeout, item⟩)
  else (left.enqueue item, .ok ())

/-- The time of a push is up. -/
def expirePush (q : Queue S) (item : ι) : Queue S × Except (Rejected ι) Unit :=
  lastPush { q with ring := q.ring.mapRoom Gate.giveUp } item

/-- Push `item`. A failure gives it back. -/
def push (q : Queue S) (item : ι) (timeout : Timeout) : Queue S × Except (Rejected ι) Unit :=
  match q.beginPush item timeout.waits with
  | (q, .done answer) => (q, answer)
  | (q, .parked item) => q.expirePush item

/-! ## Waiting for an entry -/

/-- Look for an entry, and enter the gate if there is none and the caller waits. -/
def beginPop (q : Queue S) (destination : δ) (waits : Bool) :
    Queue S × Progress δ (Except Error ρ) :=
  match Storage.checkDestination q.store destination with
  | .error e => (q, .done (.error e))
  | .ok () =>
    if q.ring.destroyed then (q, .done (.error .destroyed))
    else if !q.ring.isEmpty then
      let (q, answer) := q.dequeue destination
      (q, .done answer)
    else if waits then ({ q with ring := q.ring.mapItems Gate.enter }, .parked destination)
    else (q, .done (.error .queueEmpty))

/-- Look for an entry again after a wake-up. -/
def wakePop (q : Queue S) (destination : δ) : Queue S × Progress δ (Except Error ρ) :=
  let q := { q with ring := q.ring.mapItems Gate.take }
  let left := { q with ring := q.ring.mapItems Gate.leave }
  if q.ring.destroyed then (left, .done (.error .destroyed))
  else if q.ring.isEmpty then
    ({ q with ring := q.ring.mapItems Gate.doze }, .parked destination)
  else
    let (q, answer) := left.dequeue destination
    (q, .done answer)

/-- Look for an entry for the last time, and leave the gate. -/
def lastPop (q : Queue S) (destination : δ) : Queue S × Except Error ρ :=
  let left := { q with ring := q.ring.mapItems Gate.leave }
  if q.ring.destroyed then (left, .error .destroyed)
  else if q.ring.isEmpty then (left, .error .timeout)
  else left.dequeue destination

/-- The time of a pop is up. -/
def expirePop (q : Queue S) (destination : δ) : Queue S × Except Error ρ :=
  lastPop { q with ring := q.ring.mapItems Gate.giveUp } destination

/-- Pop the oldest entry into `destination`. -/
def pop (q : Queue S) (destination : δ) (timeout : Timeout) : Queue S × Except Error ρ :=
  match q.beginPop destination timeout.waits with
  | (q, .done answer) => (q, answer)
  | (q, .parked destination) => q.expirePop destination

/-! ## All entries at once -/

/-- Drop every entry. -/
def clear (q : Queue S) : Queue S × Except Error Unit :=
  match q.ring.checkIdle with
  | .error e => (q, .error e)
  | .ok () =>
    ({ ring := q.ring.cleared, store := Storage.clear q.store, announced := 0 }, .ok ())

/-- Drop every entry and take the queue out of service: the number of entries dropped. -/
def destroy (q : Queue S) : Queue S × Except Error Nat :=
  match q.ring.checkIdle with
  | .error e => (q, .error e)
  | .ok () =>
    ({ ring := q.ring.retired, store := Storage.clear q.store, announced := 0 },
      .ok q.ring.length)

/-! ## Callers behind the gates -/

/-- A push or a pop that waits. -/
inductive Call (ι δ : Type)
  | push (item : ι)
  | pop (destination : δ)

/-- What a push or a pop answers. -/
inductive Answer (ι ρ : Type)
  | pushed (result : Except (Rejected ι) Unit)
  | popped (result : Except Error ρ)

/-- Whether there is a wake-up for a call. -/
def ready (q : Queue S) : Call ι δ → Bool
  | .push _ => 0 < q.ring.room.woken
  | .pop _ => 0 < q.ring.items.woken

instance : Blocking (Queue S) (Call ι δ) (Answer ι ρ) where
  ready := ready
  wake q
    | .push item => (q.wakePush item).map id (·.map .push .pushed)
    | .pop destination => (q.wakePop destination).map id (·.map .pop .popped)
  expire q
    | .push item => (q.expirePush item).map id .pushed
    | .pop destination => (q.expirePop destination).map id .popped

end Queue

end Netstack
