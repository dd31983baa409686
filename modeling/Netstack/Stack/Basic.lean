import Netstack.Link.Registry
import Netstack.Pool.Receive
import Netstack.Route

/-
A stack: one node of the network.

It owns a connection pool, the registry of its interfaces, a route table, and a queue of
events that tell the core where frames are waiting. Nothing of it is shared with other
stacks. Interfaces are registered before the stack is started; starting brings them up, and a
stack that was shut down has taken them down.
-/

set_option autoImplicit false

namespace Netstack

/-- Work for the core of a stack. -/
inductive CoreEvent
  /-- frames were received on the interface with this number -/
  | rx (index : Nat)
  /-- frames are to be sent on it -/
  | tx (index : Nat)
  deriving DecidableEq, Repr

structure Stack (δ : Type) where
  config : Config
  /-- the address of this system -/
  addr : Address
  pool : Pool
  interfaces : Registry δ
  routes : RouteTable
  /-- the events that the core did not take yet -/
  events : Fifo CoreEvent
  /-- whether the core is at work -/
  running : Bool := false
  /-- the interface whose received frames the core is taking -/
  draining : Option Nat := none

namespace Stack

variable {δ : Type}

/-- A stack with a valid configuration, without interfaces and routes. -/
def new (c : Config) : Except Error (Stack δ) := do
  let config ← c.normalized
  let addr ← config.address
  let pool ← Pool.new config
  let events ← Fifo.new config.coreEventQueueLen
  return { config := config, addr := addr, pool := pool, interfaces := {}
           routes := {}, events := events }

/-! ## The parts of a stack -/

/-- Work on the connection pool. -/
def onPool {α : Type} (s : Stack δ) (f : Pool → Pool × α) : Stack δ × α :=
  let (pool, answer) := f s.pool
  ({ s with pool := pool }, answer)

/-- Change an interface. -/
def modifyLink (s : Stack δ) (index : Nat) (f : Interface δ → Interface δ) : Stack δ :=
  { s with interfaces := s.interfaces.modify index f }

/-- Work on an interface, if there is one with this number. -/
def onLink {α : Type} (s : Stack δ) (index : Nat) (f : Interface δ → Interface δ × α) :
    Stack δ × Option α :=
  let (interfaces, answer) := s.interfaces.on index f
  ({ s with interfaces := interfaces }, answer)

/-- Tell the core of waiting frames. The event is refused when the core is behind. -/
def post (s : Stack δ) (event : CoreEvent) : Stack δ × Except Error Unit :=
  let (events, result) := Fifo.offer s.events event
  ({ s with events := events }, result.mapError Rejected.error)

/-- Offer a route through an interface that is registered here: whether the table changed. -/
def addRoute (s : Stack δ) (offer : Route) : Stack δ × Bool :=
  let (routes, changed) := s.routes.add offer
  ({ s with routes := routes }, changed)

/-- An empty buffer for a payload to be sent. The room in front is what the configuration
says, or what the interface needs if that is more. -/
def allocBuffer (s : Stack δ) (link : Option (Interface δ)) (payload : Nat) :
    Except Error Buffer := do
  let headroom := (link.map fun i => max i.minHeaderLen s.config.bufferHeaderLen).getD
    s.config.bufferHeaderLen
  return (← Buffer.new headroom payload).setInterface (link.map (·.index))

/-- Tell a monitor about the connections from now on. -/
def attachMonitor (s : Stack δ) : Stack δ := { s with pool := s.pool.attachMonitor }

/-! ## Starting and stopping -/

/-- The error of what can only be done before a stack runs. -/
def alreadyRunning : Error := .wrongState "running"

/-- Register an interface. -/
def registerInterface (s : Stack δ) (i : Interface δ) : Stack δ × Except Error (Interface δ) :=
  if s.running then (s, .error alreadyRunning)
  else
    let (interfaces, result) := s.interfaces.register i
    ({ s with interfaces := interfaces }, result)

variable [LinkDriver δ]

/-- Bring every interface up and set the core to work on a thread of its own, which the system
may refuse (`thread`). If an interface does not come up, or there is no thread, the stack does
not run, and the interfaces that came up before stay up. -/
def startOn (s : Stack δ) (thread : Except Error Unit) : Stack δ × Except Error Unit :=
  if s.running then (s, .error alreadyRunning)
  else
    match s.interfaces.bringUpAll with
    | (interfaces, .error e) => ({ s with interfaces := interfaces }, .error e)
    | (interfaces, .ok ()) =>
      match thread with
      | .error e => ({ s with interfaces := interfaces }, .error e)
      | .ok () => ({ s with interfaces := interfaces, running := true }, .ok ())

/-- Start where there are threads enough. -/
def start (s : Stack δ) : Stack δ × Except Error Unit := s.startOn (.ok ())

/-- Stop the core and take every interface down. There is nothing to do if the stack does
not run. -/
def shutdown (s : Stack δ) : Stack δ :=
  if s.running then
    { s with interfaces := s.interfaces.takeDownAll, running := false, draining := none }
  else s

omit [LinkDriver δ] in
def debug (s : Stack δ) : String :=
  Text.recordPart "Stack"
    [ Text.field "addr" (Text.hexUpper 4 s.addr.toNat),
      Text.field "running" (Text.bool s.running),
      Text.field "interfaces" (toString s.interfaces.length),
      Text.field "routes" (toString s.routes.length) ]

end Stack

end Netstack
