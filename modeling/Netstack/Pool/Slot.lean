import Netstack.Config
import Netstack.Conn.Bits
import Netstack.Conn.Handle
import Netstack.Conn.Options
import Netstack.Conn.Phase
import Netstack.Packet.Buffer
import Netstack.Queue.Fifo

/-
The slots of a connection pool.

A slot is used again and again. What belongs to one use, its role, options and
phase, is set when the slot is handed out; its receive queue and event group are made
on first use and stay with the slot, unless the pool is told to give them up whenever
a connection is closed.
-/

set_option autoImplicit false

namespace Netstack

/-- The other end of a connection. -/
structure Peer where
  addr : Address
  port : UInt8
  deriving DecidableEq, Repr, Inhabited

/-- What a connection is for. -/
inductive Role
  | client
  /-- gets a child for every peer that sends to it; the children that nobody has
  accepted wait in the backlog -/
  | server (backlog : Fifo Handle) (children : List (Peer × Handle))
  | child (parent : Handle)

namespace Role

def name : Role → String
  | client => "Client"
  | server _ _ => "Server"
  | child _ => "Child"

/-- The connection that a child belongs to. -/
def parent? : Role → Option Handle
  | child parent => some parent
  | _ => none

/-- The children that wait to be accepted, oldest first. -/
def pending : Role → List Handle
  | server backlog _ => backlog.drain.2
  | _ => []

/-- A server without its child for a peer. -/
def forget (peer : Peer) : Role → Role
  | server backlog children => server backlog (children.filter fun c => c.1 ≠ peer)
  | role => role

/-- A server with a child for a peer. -/
def adopt (peer : Peer) (handle : Handle) : Role → Role
  | server backlog children => server backlog ((peer, handle) :: children)
  | role => role

/-- A server with another backlog. -/
def withBacklog (backlog : Fifo Handle) : Role → Role
  | server _ children => server backlog children
  | role => role

end Role

/-- What a pool allows its connections. -/
structure Limits where
  connQueueLen : Nat
  queueTimeout : Duration
  lockTimeout : Duration
  releaseOnClose : Bool
  deriving DecidableEq, Repr

namespace Limits

def ofConfig (c : Config) : Limits :=
  { connQueueLen := c.connQueueLen
    queueTimeout := c.queueTimeout
    lockTimeout := c.lockTimeout
    releaseOnClose := c.releaseOnClose }

def debug (l : Limits) : String :=
  Text.record "PoolLimits"
    [ Text.field "conn_queue_len" (toString l.connQueueLen),
      Text.field "queue_timeout" l.queueTimeout.text,
      Text.field "mutex_timeout" l.lockTimeout.text,
      Text.field "release_on_close" (Text.bool l.releaseOnClose) ]

end Limits

structure Slot where
  /-- counts the uses of the slot -/
  generation : UInt32 := 0
  phase : Phase := .free
  role : Role := .client
  options : Options := {}
  /-- whether the connection is a member of its local port -/
  registered : Bool := false
  /-- whether the connection was opened in this use of the slot -/
  opened : Bool := false
  rxQueue : Option (Fifo Buffer) := none
  events : Option EventGroup := none

namespace Slot

/-- A slot that was never used. -/
def vacant : Slot := {}

instance : Inhabited Slot := ⟨vacant⟩

/-- The peer that the options fix. -/
def peer (s : Slot) : Peer := ⟨s.options.raddr, s.options.rport⟩

/-- Set event bits, if the slot has an event group. -/
def signal (bits : EventBits) (s : Slot) : Slot :=
  { s with events := s.events.map (·.set bits) }

/-- Clear event bits, if the slot has an event group. -/
def unsignal (bits : EventBits) (s : Slot) : Slot :=
  { s with events := s.events.map (·.clear bits) }

/-- The slot handed out anew: closed, with default options, an event group without
connection bits and a receive queue. Both are kept from earlier uses. -/
def prepared (limits : Limits) (s : Slot) : Except Error Slot := do
  let queue ← match s.rxQueue with
    | some queue => pure queue
    | none => Fifo.new limits.connQueueLen
  return { s with
    phase := .closed
    role := .client
    options := {}
    registered := false
    opened := false
    rxQueue := some queue
    events := some ((s.events.getD {}).clear ConnBits.all) }

/-- The connection is no longer active: its packets are dropped and its waiting callers
are woken. -/
def shut (s : Slot) : Slot :=
  let s := { s with
    phase := .closed
    registered := false
    rxQueue := s.rxQueue.map fun queue => (Fifo.drain queue).1 }
  s.signal (ConnBits.closed ||| ConnBits.interrupt)

/-- Give up the receive queue and the event group, each unless somebody waits on it. A
queue that was destroyed already stays with the slot. -/
def released (s : Slot) : Slot :=
  let rxQueue := s.rxQueue.bind fun queue =>
    match queue.destroy with
    | (_, .ok _) => none
    | (queue, .error _) => some queue
  let events := s.events.bind fun group =>
    match group.ensureIdle with
    | .ok () => none
    | .error _ => some group
  { s with rxQueue := rxQueue, events := events }

/-- The slot given back: its generation is over. -/
def vacated (s : Slot) : Slot :=
  { s with
    generation := s.generation + 1
    phase := .free
    role := .client
    options := {}
    opened := false }

end Slot

end Netstack
