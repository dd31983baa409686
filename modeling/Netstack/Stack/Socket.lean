import Netstack.Stack.Outbound

/-
The socket interface of a stack.

A socket is a connection of the stack's pool. What is added here is the way to other
systems: a socket is only connected to a peer that can be reached, and the bytes that are
received come without the header, together with the address and the port of the sender.
-/

set_option autoImplicit false

namespace Netstack.Stack

variable {δ : Type}

/-- A new socket. -/
def socket (s : Stack δ) : Stack δ × Except Error Handle := s.onPool (·.alloc)

def bind (s : Stack δ) (h : Handle) (port : UInt8) : Stack δ × Except Error Unit :=
  s.onPool (·.bind h port)

def listen (s : Stack δ) (h : Handle) (backlog : Nat) : Stack δ × Except Error Unit :=
  s.onPool (·.listen h backlog)

/-- Accept a child of a listening socket, alone with the stack. -/
def accept (s : Stack δ) (h : Handle) (timeout : Timeout) : Stack δ × Except Error Handle :=
  s.onPool (·.accept h timeout)

/-- Fix the peer of a socket. The peer is this system, or there is a route to it. -/
def connect (s : Stack δ) (h : Handle) (peer : Peer) : Stack δ × Except Error Unit :=
  if peer.addr ≠ s.addr ∧ (s.routes.find peer.addr).isNone then (s, .error (.noRoute peer.addr))
  else s.onPool (·.connect h peer)

/-- Close a socket and give it back. -/
def close (s : Stack δ) (h : Handle) : Stack δ × Except Error Unit := s.onPool (·.free h)

/-! ## Receiving -/

/-- A payload and who sent it. -/
structure Received where
  payload : List UInt8
  sender : Peer
  deriving DecidableEq, Repr

/-- What a queued packet carries. Bytes behind the payload that its header announces are
left out. -/
def Received.ofPacket (packet : Buffer) : Except Error Received :=
  match packet.pullHeader with
  | none => .error (.invalidArgument .noHeader)
  | some (h, rest) => .ok ⟨rest.used.take h.payloadLen.toNat, ⟨h.srcAddr, h.srcPort⟩⟩

/-- A payload copied to the front of a caller's buffer, which cuts it off if it is longer. -/
def Received.into (r : Received) (buffer : List UInt8) : Copied :=
  let n := min r.payload.length buffer.length
  ⟨n, overwrite buffer 0 (r.payload.take n)⟩

/-- Receive one packet, alone with the stack, waiting as long as the socket's options say. -/
def receive (s : Stack δ) (h : Handle) : Stack δ × Except Error Received :=
  match s.pool.options h with
  | .error e => (s, .error e)
  | .ok o =>
    let (s, result) := s.onPool (·.rxPop h o.recvTimeout)
    (s, result.bind Received.ofPacket)

/-! ## Options -/

/-- The options of a socket that can be changed. -/
inductive SocketOption
  | recvTimeout (timeout : Timeout)
  | sendTimeout (timeout : Timeout)
  | priority (priority : UInt8)
  deriving DecidableEq, Repr

def setOption (s : Stack δ) (h : Handle) : SocketOption → Stack δ × Except Error Unit
  | .recvTimeout timeout => s.onPool (·.setRecvTimeout h timeout)
  | .sendTimeout timeout => s.onPool (·.setSendTimeout h timeout)
  | .priority priority => s.onPool (·.setPriority h priority)

/-- How a poll waits: it leaves the bits set, so nobody else misses them. -/
def pollOptions (all : Bool) : WaitOptions := { all := all, keepBits := true }

end Netstack.Stack
