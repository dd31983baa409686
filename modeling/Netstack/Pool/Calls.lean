import Netstack.Pool.Attach
import Netstack.Pool.Children

/-
The calls of a pool that may wait: queueing a packet for a connection, taking one, and
accepting a child; and the waits on a connection's queue and event group themselves.

A producer waits behind the gate of the receive queue. A consumer does not: it waits for
event bits, since what ends its wait is a packet or the end of the connection, and after
every wake-up it looks at the connection from the start. Whoever waits keeps the queue or
the event group from being given up, so a slot number is enough to find the gate again.
-/

set_option autoImplicit false

namespace Netstack.Pool

/-- A call that waits. -/
inductive Call
  /-- a packet waits for room in a connection's receive queue -/
  | push (h : Handle) (packet : Buffer)
  /-- an item waits for room in the queue of a slot, for somebody who has the queue -/
  | pushRaw (slot : Nat) (packet : Buffer)
  /-- a packet is waited for -/
  | pop (h : Handle)
  /-- a child is waited for -/
  | accept (h : Handle)
  /-- bits of the event group of a slot are waited for -/
  | bits (slot : Nat) (call : EventGroup.Call)

/-- What such a call answers. -/
inductive Answer
  | pushed (result : Except (Rejected Buffer) Unit)
  | popped (result : Except Error Buffer)
  | accepted (result : Except Error Handle)
  | bits (bits : EventBits)
  /-- the connection has no queue or no event group to call -/
  | missing (error : Error)

/-- The state of the pool and what a call has come to. -/
abbrev Outcome := Pool × Progress Call Answer

/-! ## Queueing a packet -/

/-- What follows a push: the connection is told of a packet, the monitor of a drop. -/
def afterPush (p : Pool) (h : Handle) (result : Except (Rejected Buffer) Unit) : Pool :=
  match result with
  | .ok () => p.modify h.index (Slot.signal ConnBits.receive)
  | .error _ => p.emit (.dropped h)

/-- The receive queue of a connection that takes packets. -/
def inlet (p : Pool) (h : Handle) : Except Error (Fifo Buffer) := do
  let s ← p.slot h
  if !s.phase.isActive then throw s.phase.refusal
  match s.rxQueue, s.events with
  | some queue, some _ => return queue
  | _, _ => throw .destroyed

/-- Queue a packet for a connection, waiting for room as long as the pool allows. -/
def beginPush (p : Pool) (h : Handle) (packet : Buffer) : Outcome :=
  match p.inlet h with
  | .error e => (p, .done (.pushed (.error ⟨e, packet⟩)))
  | .ok queue =>
    match queue.beginPush packet (Timeout.waits (some p.limits.queueTimeout)) with
    | (queue, .done result) =>
      ((p.setQueue h.index queue).afterPush h result, .done (.pushed result))
    | (queue, .parked packet) => (p.setQueue h.index queue, .parked (.push h packet))

/-- Push into the queue of a connection without regard to the connection. -/
def beginPushRaw (p : Pool) (h : Handle) (packet : Buffer) (waits : Bool) : Outcome :=
  match p.rxQueue h with
  | .error e => (p, .done (.missing e))
  | .ok queue =>
    match queue.beginPush packet waits with
    | (queue, .done result) => (p.setQueue h.index queue, .done (.pushed result))
    | (queue, .parked packet) => (p.setQueue h.index queue, .parked (.pushRaw h.index packet))

/-! ## Taking a packet or a child -/

/-- The bits that end the wait for a packet. -/
def packetBits : EventBits := ConnBits.receive ||| ConnBits.closed

/-- The bits that end the wait for a child. -/
def childBits : EventBits := ConnBits.accept ||| ConnBits.closed

/-- A wait that leaves every bit set, so that all who wait on a connection see it. -/
def watching (mask : EventBits) : EventGroup.Call := ⟨mask, { keepBits := true }⟩

/-- Look for a packet. An empty queue takes the receive bit back, and is an error once the
connection is closed. -/
def lookPacket (p : Pool) (h : Handle) : Pool × Except Error (Option Buffer) :=
  match p.slot h with
  | .error e => (p, .error e)
  | .ok s =>
    match s.rxQueue, s.events with
    | some queue, some _ =>
      match Fifo.take queue with
      | (queue, .error e) => (p.setQueue h.index queue, .error e)
      | (queue, .ok (some packet)) => (p.setQueue h.index queue, .ok (some packet))
      | (queue, .ok none) =>
        let p := (p.setQueue h.index queue).modify h.index (Slot.unsignal ConnBits.receive)
        if s.phase.isActive then (p, .ok none) else (p, .error s.phase.refusal)
    | _, _ => (p, .error .destroyed)

/-- Go to sleep behind the gate of a slot's event group. -/
def sleep (p : Pool) (slot : Nat) : Pool :=
  p.modify slot fun s =>
    { s with events := s.events.map fun g => { g with gate := g.gate.enter } }

/-- Get up from behind the gate of a slot's event group, since time is up. -/
def rise (p : Pool) (slot : Nat) : Pool :=
  p.modify slot fun s =>
    { s with events := s.events.map fun g => { g with gate := g.gate.giveUp.leave } }

/-- Take a packet of a connection. -/
def beginPop (p : Pool) (h : Handle) (waits : Bool) : Outcome :=
  match p.lookPacket h with
  | (p, .error e) => (p, .done (.popped (.error e)))
  | (p, .ok (some packet)) => (p, .done (.popped (.ok packet)))
  | (p, .ok none) =>
    if waits then (p.sleep h.index, .parked (.pop h))
    else (p, .done (.popped (.error .queueEmpty)))

/-- Accept a child of a connection. -/
def beginAccept (p : Pool) (h : Handle) (waits : Bool) : Outcome :=
  match p.lookChild h with
  | (p, .error e) => (p, .done (.accepted (.error e)))
  | (p, .ok (some child)) => (p, .done (.accepted (.ok child)))
  | (p, .ok none) =>
    if waits then (p.sleep h.index, .parked (.accept h))
    else (p, .done (.accepted (.error .queueEmpty)))

/-- Wait for event bits of a connection. -/
def beginWait (p : Pool) (h : Handle) (call : EventGroup.Call) (waits : Bool) : Outcome :=
  match p.events h with
  | .error e => (p, .done (.missing e))
  | .ok group =>
    let (group, progress) := group.beginWait call waits
    (p.setEvents h.index group, progress.map (.bits h.index) .bits)

/-! ## Resuming -/

/-- Whether a producer behind the gate of a slot's queue was woken. -/
def roomReady (p : Pool) (slot : Nat) : Bool :=
  match (p.slotAt slot).rxQueue with
  | some queue => 0 < queue.ring.room.woken
  | none => false

/-- Whether a caller behind the gate of a slot's event group was woken, or has nothing to
wait for since its bits are set already. -/
def bitsReady (p : Pool) (slot : Nat) (call : EventGroup.Call) : Bool :=
  match (p.slotAt slot).events with
  | some group => 0 < group.gate.woken || group.satisfies call
  | none => false

/-- Whether a call can be resumed. -/
def ready (p : Pool) : Call → Bool
  | .push h _ => p.roomReady h.index
  | .pushRaw slot _ => p.roomReady slot
  | .pop h => p.bitsReady h.index (watching packetBits)
  | .accept h => p.bitsReady h.index (watching childBits)
  | .bits slot call => p.bitsReady slot call

/-- Resume a wait for event bits with a wake-up: whether the bits satisfy it now. -/
def wakeBits (p : Pool) (slot : Nat) (call : EventGroup.Call) : Pool × Option EventBits :=
  match (p.slotAt slot).events with
  | none => (p, none)
  | some group =>
    match group.wakeWait call with
    | (group, .done bits) => (p.setEvents slot group, some bits)
    | (group, .parked _) => (p.setEvents slot group, none)

/-- Resume a call with a wake-up. -/
def wake (p : Pool) (call : Call) : Outcome :=
  match call with
  | .push h packet =>
    match (p.slotAt h.index).rxQueue with
    | none => (p, .done (.pushed (.error ⟨.destroyed, packet⟩)))
    | some queue =>
      match queue.wakePush packet with
      | (queue, .done result) =>
        ((p.setQueue h.index queue).afterPush h result, .done (.pushed result))
      | (queue, .parked packet) => (p.setQueue h.index queue, .parked (.push h packet))
  | .pushRaw slot packet =>
    match (p.slotAt slot).rxQueue with
    | none => (p, .done (.pushed (.error ⟨.destroyed, packet⟩)))
    | some queue =>
      match queue.wakePush packet with
      | (queue, .done result) => (p.setQueue slot queue, .done (.pushed result))
      | (queue, .parked packet) => (p.setQueue slot queue, .parked (.pushRaw slot packet))
  | .pop h =>
    match p.wakeBits h.index (watching packetBits) with
    | (p, some _) => p.beginPop h true
    | (p, none) => (p, .parked (.pop h))
  | .accept h =>
    match p.wakeBits h.index (watching childBits) with
    | (p, some _) => p.beginAccept h true
    | (p, none) => (p, .parked (.accept h))
  | .bits slot call =>
    match p.wakeBits slot call with
    | (p, some bits) => (p, .done (.bits bits))
    | (p, none) => (p, .parked (.bits slot call))

/-- Resume a call because its time is up. Everybody looks for a last time. -/
def expire (p : Pool) (call : Call) : Pool × Answer :=
  match call with
  | .push h packet =>
    match (p.slotAt h.index).rxQueue with
    | none => (p, .pushed (.error ⟨.destroyed, packet⟩))
    | some queue =>
      let (queue, result) := queue.expirePush packet
      ((p.setQueue h.index queue).afterPush h result, .pushed result)
  | .pushRaw slot packet =>
    match (p.slotAt slot).rxQueue with
    | none => (p, .pushed (.error ⟨.destroyed, packet⟩))
    | some queue =>
      let (queue, result) := queue.expirePush packet
      (p.setQueue slot queue, .pushed result)
  | .pop h =>
    match (p.rise h.index).lookPacket h with
    | (p, .error e) => (p, .popped (.error e))
    | (p, .ok (some packet)) => (p, .popped (.ok packet))
    | (p, .ok none) => (p, .popped (.error .timeout))
  | .accept h =>
    match (p.rise h.index).lookChild h with
    | (p, .error e) => (p, .accepted (.error e))
    | (p, .ok (some child)) => (p, .accepted (.ok child))
    | (p, .ok none) => (p, .accepted (.error .timeout))
  | .bits slot call =>
    match (p.slotAt slot).events with
    | none => (p, .missing .destroyed)
    | some group =>
      let (group, bits) := group.expireWait call
      (p.setEvents slot group, .bits bits)

instance : Blocking Pool Call Answer where
  ready := ready
  wake := wake
  expire := expire

end Netstack.Pool
