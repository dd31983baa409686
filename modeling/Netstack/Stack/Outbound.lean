import Netstack.Stack.Inbound

/-
Outbound packets: from a payload to a queued packet.

Everything that can be wrong with a packet is found out before anything changes. Then a
packet for this system itself is dispatched on the spot, and any other is queued on the
interface that the route table names, with an event for the core. If the core cannot be
told the frame stays queued, for the core looks at every interface in the end.

Sending may have to wait for room, in the receiver's queue or in the interface's. What is
sent in the end is announced on the sender's event group.
-/

set_option autoImplicit false

namespace Netstack.Stack

variable {δ : Type}

/-! ## Making the packet -/

/-- A packet that is ready to go, and where. -/
inductive Outbound
  /-- to this system itself -/
  | loop (packet : Buffer)
  /-- through an interface, waiting for room in its queue no longer than this -/
  | link (index : Nat) (frame : Buffer) (timeout : Timeout)

/-- The header of a packet from a connection. -/
def headerTo (s : Stack δ) (o : Options) (dst : Peer) (payload : Nat) : Header :=
  { dstAddr := dst.addr
    srcAddr := s.addr
    payloadLen := UInt16.ofNat payload
    srcPort := Port.wirePort o.lport
    dstPort := dst.port }

/-- A packet in a buffer for this interface, or for none. -/
def packet (s : Stack δ) (link : Option (Interface δ)) (h : Header) (data : List UInt8) :
    Except Error Buffer := do
  ((← s.allocBuffer link data.length).append data).pushHeader h

/-- The interface through which an address is reached: the one that is registered under the number
in the route. This is the interface that was offered only if that was one of the stack's own. -/
def linkTo (s : Stack δ) (addr : Address) : Except Error (Interface δ) :=
  match (s.routes.find addr).bind fun link => s.interfaces.byIndex link.index with
  | some i => .ok i
  | none => .error (.noRoute addr)

/-- Make the packet that carries `data` from a connection to `dst`. -/
def outbound (s : Stack δ) (h : Handle) (data : List UInt8) (dst : Peer) :
    Except Error Outbound := do
  if payloadMax < data.length then
    throw (.invalidArgument (.payloadLength data.length payloadMax))
  if portMax < dst.port then throw (.portInvalid dst.port)
  let options ← s.pool.options h
  let header := s.headerTo options dst data.length
  if dst.addr = s.addr then
    return .loop (← s.packet none header data)
  else
    let i ← s.linkTo dst.addr
    let frameLen := headerLen + data.length
    if i.mtu.toNat < frameLen then
      throw (.invalidArgument (.frameLength frameLen i.mtu.toNat i.name))
    return .link i.index (← s.packet (some i) header data) options.sendTimeout

/-! ## Queueing it -/

/-- A packet that waits for room. -/
inductive SendCall
  /-- in the receive queue of a connection of this system -/
  | loop (sender receiver : Handle) (packet : Buffer) (size : Nat)
  /-- in the transmit queue of an interface -/
  | link (sender : Handle) (index : Nat) (frame : Buffer) (size : Nat)

/-- How long sending from a connection to an address waits for room. -/
def sendTimeout (s : Stack δ) (h : Handle) (addr : Address) : Timeout :=
  if addr = s.addr then some s.pool.limits.queueTimeout
  else ((s.pool.options h).toOption.getD {}).sendTimeout

/-- A packet was sent: the number of payload bytes. -/
def sent (s : Stack δ) (h : Handle) (size : Nat) : Stack δ × Except Error Nat :=
  match s.onPool (·.onEvents h fun g => (g.set ConnBits.send, ())) with
  | (s, .ok ()) => (s, .ok size)
  | (s, .error e) => (s, .error e)

/-- A push into a transmit queue ended. -/
def afterTx (s : Stack δ) (h : Handle) (index size : Nat)
    (result : Except (Rejected Buffer) Unit) : Stack δ × Except Error Nat :=
  match result with
  | .ok () => (s.post (.tx index)).1.sent h size
  | .error rejected => (s, .error rejected.error)

/-- Send `data` to `dst`, or start to wait for room. -/
def beginSendTo (s : Stack δ) (h : Handle) (data : List UInt8) (dst : Peer) :
    Stack δ × Progress SendCall (Except Error Nat) :=
  match s.outbound h data dst with
  | .error e => (s, .done (.error e))
  | .ok (.loop packet) =>
    match s.addressee none packet with
    | (s, none) => (s.sent h data.length).map id .done
    | (s, some receiver) =>
      match s.onPool (·.beginPush receiver packet) with
      | (s, .done _) => (s.sent h data.length).map id .done
      | (s, .parked _) => (s, .parked (.loop h receiver packet data.length))
  | .ok (.link index frame timeout) =>
    match s.onLink index fun i => i.beginPush .tx frame timeout.waits with
    | (s, some (.done result)) => (s.afterTx h index data.length result).map id .done
    | (s, some (.parked frame)) => (s, .parked (.link h index frame data.length))
    | (s, none) => (s, .done (.error (.noRoute dst.addr)))

/-- Look for room again after a wake-up. -/
def wakeSend (s : Stack δ) (call : SendCall) :
    Stack δ × Progress SendCall (Except Error Nat) :=
  match call with
  | .loop h receiver packet size =>
    match s.onPool (·.wake (.push receiver packet)) with
    | (s, .done _) => (s.sent h size).map id .done
    | (s, .parked _) => (s, .parked call)
  | .link h index frame size =>
    match s.onLink index fun i => i.wakePush .tx frame with
    | (s, some (.done result)) => (s.afterTx h index size result).map id .done
    | (s, _) => (s, .parked call)

/-- Look for room for the last time. A packet to this system itself that finds none is
lost like any other inbound packet, so it has been sent nevertheless. -/
def expireSend (s : Stack δ) (call : SendCall) : Stack δ × Except Error Nat :=
  match call with
  | .loop h receiver packet size => (s.onPool (·.expire (.push receiver packet))).1.sent h size
  | .link h index frame size =>
    match s.onLink index fun i => i.expirePush .tx frame with
    | (s, some result) => s.afterTx h index size result
    | (s, none) => (s, .error .timeout)

/-- Send `data` to `dst`, alone with the stack: the number of payload bytes. -/
def sendTo (s : Stack δ) (h : Handle) (data : List UInt8) (dst : Peer) :
    Stack δ × Except Error Nat :=
  match s.beginSendTo h data dst with
  | (s, .done result) => (s, result)
  | (s, .parked call) => s.expireSend call

/-- The peer that a connected connection sends to. -/
def peerOf (s : Stack δ) (h : Handle) : Except Error Peer := do
  let info ← s.pool.info h
  if info.phase ≠ .connected then throw info.phase.refusal
  return ⟨info.options.raddr, info.options.rport⟩

/-- Send `data` to the connected peer, or start to wait for room. -/
def beginSend (s : Stack δ) (h : Handle) (data : List UInt8) :
    Stack δ × Progress SendCall (Except Error Nat) :=
  match s.peerOf h with
  | .error e => (s, .done (.error e))
  | .ok dst => s.beginSendTo h data dst

/-- Send `data` to the connected peer, alone with the stack. -/
def send (s : Stack δ) (h : Handle) (data : List UInt8) : Stack δ × Except Error Nat :=
  match s.peerOf h with
  | .error e => (s, .error e)
  | .ok dst => s.sendTo h data dst

end Netstack.Stack
