import Netstack.Stack.Basic

/-
Inbound packets: from the frame that a driver hands over to the connection it is for.

A frame is queued on its interface and the core is told. Dispatching a packet has one of
three outcomes. What is no packet counts as a receive error: it is shorter than a header,
or than its header says. A packet that nobody here takes counts as dropped. Any other goes
unchanged into the receive queue of one connection. A packet that came in through an
interface and is for this system also shows the way back to its sender.

Packets that a stack sends to itself are dispatched without an interface, and then there
is nothing to count and no way to learn.
-/

set_option autoImplicit false

namespace Netstack.Stack

variable {δ : Type}

/-! ## Frames from a driver -/

/-- The buffer of a frame received on an interface. -/
def frameBuffer (index : Nat) (frame : List UInt8) : Except Error Buffer := do
  return (← Buffer.ofBytes 0 frame).setInterface (some index)

/-- A push into a receive queue ended: the core is told of a frame. -/
def afterInput (s : Stack δ) (index : Nat) (result : Except (Rejected Buffer) Unit) :
    Stack δ × Except Error Unit :=
  match result with
  | .ok () => s.post (.rx index)
  | .error rejected => (s, .error rejected.error)

/-- Hand over a frame received on an interface, or start to wait for room there, no longer
than the configuration says. If the core cannot be told, that is an error, but the frame
stays queued. Nothing is received on an interface that does not exist. -/
def beginInput (s : Stack δ) (index : Nat) (frame : List UInt8) :
    Stack δ × Progress Buffer (Except Error Unit) :=
  match frameBuffer index frame with
  | .error e => (s, .done (.error e))
  | .ok buffer =>
    let waits := Timeout.waits (some s.config.queueTimeout)
    match s.onLink index fun i => i.beginPush .rx buffer waits with
    | (s, some (.done result)) => (s.afterInput index result).map id .done
    | (s, some (.parked buffer)) => (s, .parked buffer)
    | (s, none) => (s, .done (.ok ()))

/-- Look for room for a received frame again after a wake-up. -/
def wakeInput (s : Stack δ) (index : Nat) (buffer : Buffer) :
    Stack δ × Progress Buffer (Except Error Unit) :=
  match s.onLink index fun i => i.wakePush .rx buffer with
  | (s, some (.done result)) => (s.afterInput index result).map id .done
  | (s, some (.parked buffer)) => (s, .parked buffer)
  | (s, none) => (s, .done (.ok ()))

/-- Look for room for a received frame for the last time. -/
def expireInput (s : Stack δ) (index : Nat) (buffer : Buffer) : Stack δ × Except Error Unit :=
  match s.onLink index fun i => i.expirePush .rx buffer with
  | (s, some result) => s.afterInput index result
  | (s, none) => (s, .ok ())

/-- Hand over a frame received on an interface, alone with the stack. -/
def input (s : Stack δ) (index : Nat) (frame : List UInt8) : Stack δ × Except Error Unit :=
  match s.beginInput index frame with
  | (s, .done result) => (s, result)
  | (s, .parked buffer) => s.expireInput index buffer

/-! ## Dispatching -/

/-- A packet from this interface was lost. -/
def countDrop (s : Stack δ) (via : Option LinkId) : Stack δ :=
  match via with
  | some link => s.modifyLink link.index Interface.recordDrop
  | none => s

/-- What came from this interface is no packet. -/
def countRxError (s : Stack δ) (via : Option LinkId) : Stack δ :=
  match via with
  | some link => s.modifyLink link.index Interface.recordRxError
  | none => s

/-- The header of a packet whose payload is as long as it says. -/
def wellFormed? (packet : Buffer) : Option Header :=
  packet.parseHeader.filter fun h => h.payloadLen.toNat ≤ packet.length - headerLen

/-- Whether a packet is for this system. -/
def isAddressed (s : Stack δ) (h : Header) : Bool :=
  h.dstAddr == s.addr || h.dstAddr == anyAddress

/-- Learn the way back to the sender of a packet. Nothing is known of the speed of the
link, so this never changes a route that is there. -/
def learn (s : Stack δ) (via : Option LinkId) (sender : Address) : Stack δ :=
  match via with
  | some link =>
    if sender = anyAddress then s
    else (s.addRoute ⟨link, sender, LinkSpeed.unknown⟩).1
  | none => s

/-- The connection that takes a packet, if there is one. Otherwise the packet has been
counted. -/
def addressee (s : Stack δ) (via : Option LinkId) (packet : Buffer) : Stack δ × Option Handle :=
  match wellFormed? packet with
  | none => (s.countRxError via, none)
  | some h =>
    if !s.isAddressed h then (s.countDrop via, none)
    else
      match (s.learn via h.srcAddr).onPool (·.resolveInbound h.dstPort ⟨h.srcAddr, h.srcPort⟩) with
      | (s, .ok (some conn)) => (s, some conn)
      | (s, _) => (s.countDrop via, none)

/-- Deliver a packet to the connection it is for. -/
def dispatch (s : Stack δ) (via : Option LinkId) (packet : Buffer) : Stack δ :=
  match s.addressee via packet with
  | (s, none) => s
  | (s, some conn) =>
    match s.onPool (·.rxPush conn packet) with
    | (s, .ok ()) => s
    | (s, .error _) => s.countDrop via

end Netstack.Stack
