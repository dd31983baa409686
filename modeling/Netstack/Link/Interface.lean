import Netstack.Link.Driver
import Netstack.Queue.Fifo

/-
Link-layer interfaces.

An interface joins a driver to two queues of frames, one for each direction, and counts
what passes. Frames to be sent wait in the transmit queue until they are flushed to the
driver; received frames wait in the receive queue until the core takes them. A frame that
is received and does not fit is counted as dropped. The counters are machine words and go
round.
-/

set_option autoImplicit false

namespace Netstack

/-- What an interface is known by: its number in the registry and its name. -/
structure LinkId where
  index : Nat
  name : String
  deriving DecidableEq, Repr, Inhabited

/-- What an interface has counted. -/
structure LinkCounters where
  txCount : UInt32 := 0
  rxCount : UInt32 := 0
  txBytes : UInt32 := 0
  rxBytes : UInt32 := 0
  dropped : UInt32 := 0
  txError : UInt32 := 0
  rxError : UInt32 := 0
  deriving DecidableEq, Repr, Inhabited

structure Interface (δ : Type) where
  index : Nat
  name : String
  /-- the longest frame that the link carries -/
  mtu : UInt32
  /-- room that the link needs in front of a payload -/
  minHeaderLen : Nat
  /-- the device address that the interface answers to -/
  address : Address
  up : Bool := false
  driver : δ
  tx : Fifo Buffer
  rx : Fifo Buffer
  counters : LinkCounters := {}

/-- What an interface is built from. -/
structure InterfaceSpec where
  name : String
  mtu : UInt32 := 1024
  minHeaderLen : Nat := headerLen
  address : Address := anyAddress
  txQueueLen : Nat := 8
  rxQueueLen : Nat := 8
  deriving DecidableEq, Repr

namespace Interface

/-- The longest name of an interface in bytes. -/
def nameMax : Nat := 31

/-- The number of an interface that was not registered yet. -/
def unregistered : Nat := Nat.pow 2 64 - 1

variable {δ : Type}

/-- An interface that is down and counted nothing. -/
def build (spec : InterfaceSpec) (driver : δ) : Except Error (Interface δ) := do
  if spec.name.isEmpty ∨ nameMax < spec.name.utf8ByteSize then
    throw (.invalidArgument (.interfaceName nameMax spec.name))
  let tx ← Fifo.new spec.txQueueLen
  let rx ← Fifo.new spec.rxQueueLen
  return { index := unregistered, name := spec.name, mtu := spec.mtu
           minHeaderLen := spec.minHeaderLen, address := spec.address
           driver := driver, tx := tx, rx := rx }

def id (i : Interface δ) : LinkId := ⟨i.index, i.name⟩

/-- The flag bits of an interface, of which there is one: it is up. -/
def flags (i : Interface δ) : UInt32 := if i.up then 1 else 0

/-- An empty buffer for a payload to be sent here, with the room in front that the link
needs. -/
def allocBuffer (i : Interface δ) (payload : Nat) : Except Error Buffer := do
  return (← Buffer.new i.minHeaderLen payload).setInterface (some i.index)

/-- A frame with these bytes, in such a buffer. -/
def frame (i : Interface δ) (bytes : List UInt8) : Except Error Buffer := do
  return (← i.allocBuffer bytes.length).append bytes

/-! ## Counting -/

def count (i : Interface δ) (f : LinkCounters → LinkCounters) : Interface δ :=
  { i with counters := f i.counters }

/-- A frame for somebody here was lost. -/
def recordDrop (i : Interface δ) : Interface δ :=
  i.count fun c => { c with dropped := c.dropped + 1 }

/-- A frame was received that is no packet. -/
def recordRxError (i : Interface δ) : Interface δ :=
  i.count fun c => { c with rxError := c.rxError + 1 }

/-- A frame was received and queued. -/
def recordRx (i : Interface δ) (bytes : Nat) : Interface δ :=
  i.count fun c =>
    { c with rxCount := c.rxCount + 1, rxBytes := c.rxBytes + UInt32.ofNat bytes }

/-- The driver took a frame, or failed to. -/
def recordTx (i : Interface δ) (bytes : Nat) : Except Error Unit → Interface δ
  | .ok () =>
    i.count fun c =>
      { c with txCount := c.txCount + 1, txBytes := c.txBytes + UInt32.ofNat bytes }
  | .error _ => i.count fun c => { c with txError := c.txError + 1 }

/-! ## Queueing frames -/

/-- The way a frame goes. -/
inductive Direction
  | tx
  | rx
  deriving DecidableEq, Repr

def queue (i : Interface δ) : Direction → Fifo Buffer
  | .tx => i.tx
  | .rx => i.rx

def setQueue (i : Interface δ) (queue : Fifo Buffer) : Direction → Interface δ
  | .tx => { i with tx := queue }
  | .rx => { i with rx := queue }

/-- What a push comes to is counted on the way in only. -/
def recordPush (i : Interface δ) (d : Direction) (frame : Buffer)
    (result : Except (Rejected Buffer) Unit) : Interface δ :=
  match d, result with
  | .tx, _ => i
  | .rx, .ok () => i.recordRx frame.length
  | .rx, .error _ => i.recordDrop

/-- Queue a frame, or start to wait for room. -/
def beginPush (i : Interface δ) (d : Direction) (frame : Buffer) (waits : Bool) :
    Interface δ × Progress Buffer (Except (Rejected Buffer) Unit) :=
  match (i.queue d).beginPush frame waits with
  | (queue, .done result) => ((i.setQueue queue d).recordPush d frame result, .done result)
  | (queue, .parked frame) => (i.setQueue queue d, .parked frame)

/-- Whether somebody who waits for room was woken. -/
def roomReady (i : Interface δ) (d : Direction) : Bool := 0 < (i.queue d).ring.room.woken

/-- Look for room again after a wake-up. -/
def wakePush (i : Interface δ) (d : Direction) (frame : Buffer) :
    Interface δ × Progress Buffer (Except (Rejected Buffer) Unit) :=
  match (i.queue d).wakePush frame with
  | (queue, .done result) => ((i.setQueue queue d).recordPush d frame result, .done result)
  | (queue, .parked frame) => (i.setQueue queue d, .parked frame)

/-- Look for room for the last time. -/
def expirePush (i : Interface δ) (d : Direction) (frame : Buffer) :
    Interface δ × Except (Rejected Buffer) Unit :=
  let (queue, result) := (i.queue d).expirePush frame
  ((i.setQueue queue d).recordPush d frame result, result)

/-- Queue a frame, alone with the interface. -/
def push (i : Interface δ) (d : Direction) (frame : Buffer) (timeout : Timeout) :
    Interface δ × Except (Rejected Buffer) Unit :=
  match i.beginPush d frame timeout.waits with
  | (i, .done result) => (i, result)
  | (i, .parked frame) => i.expirePush d frame

/-- Queue a frame to be sent. A failure gives it back. -/
def enqueueTx (i : Interface δ) (frame : Buffer) (timeout : Timeout) :
    Interface δ × Except (Rejected Buffer) Unit :=
  i.push .tx frame timeout

/-- Queue a received frame. One that does not fit is lost, and counted. -/
def enqueueRx (i : Interface δ) (frame : Buffer) (timeout : Timeout) :
    Interface δ × Except Error Unit :=
  let (i, result) := i.push .rx frame timeout
  (i, result.mapError Rejected.error)

/-- The oldest received frame. -/
def popRx (i : Interface δ) (timeout : Timeout) : Interface δ × Except Error Buffer :=
  let (rx, result) := i.rx.pop () timeout
  ({ i with rx := rx }, result)

/-- The oldest received frame, if there is one now. -/
def takeRx (i : Interface δ) : Interface δ × Except Error (Option Buffer) :=
  let (rx, result) := Fifo.take i.rx
  ({ i with rx := rx }, result)

/-! ## The driver -/

variable [LinkDriver δ]

/-- Bring the interface up, unless the driver fails. -/
def bringUp (i : Interface δ) : Interface δ × Except Error Unit :=
  match LinkDriver.bringUp i.driver with
  | (driver, .ok ()) => ({ i with driver := driver, up := true }, .ok ())
  | (driver, .error e) => ({ i with driver := driver }, .error e)

/-- Take the interface down and drop every queued frame. The interface is down also if the
driver fails. -/
def takeDown (i : Interface δ) : Interface δ × Except Error Unit :=
  let (driver, result) := LinkDriver.takeDown i.driver
  ({ i with
     up := false
     tx := (Fifo.drain i.tx).1
     rx := (Fifo.drain i.rx).1
     driver := driver }, result)

/-- Give one frame to the driver: whether it took it. -/
def transmit (i : Interface δ) (frame : Buffer) : Interface δ × Bool :=
  let (driver, result) := LinkDriver.transmit i.driver frame.used
  ({ i with driver := driver }.recordTx frame.length result, result.toBool)

/-- Give every queued frame to the driver, oldest first: how many it took. A frame that it
does not take is lost. -/
def flushTx (i : Interface δ) : Interface δ × Nat :=
  let (tx, frames) := Fifo.drain i.tx
  frames.foldl (fun (i, sent) frame =>
    match i.transmit frame with
    | (i, true) => (i, sent + 1)
    | (i, false) => (i, sent)) ({ i with tx := tx }, 0)

/-! ## Diagnostics -/

def debug (i : Interface δ) : String :=
  Text.recordPart "Interface"
    [ Text.field "index" (toString i.index),
      Text.field "name" (Text.quoted i.name),
      Text.field "address" ("0x" ++ Text.hex 4 i.address.toNat),
      Text.field "up" (Text.bool i.up) ]

end Interface

end Netstack
