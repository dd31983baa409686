import Netstack.Link.Interface

/-
The route table: through which interface an address is reached.

There is one route for an address, and routing is a single hop. Routes are compared by
the speed of the link, of which lower is better: a new offer replaces a route only if it is
strictly better, so among equal offers the first one stays. An offer of unknown speed
replaces nothing.

A route knows its interface by number and name, which is all that the table asks for. A stack
that sends along a route looks for the interface in its own registry, so its routes have to go
through interfaces that are registered there (`Stack.linkTo`).
-/

set_option autoImplicit false

namespace Netstack

/-- A measure of how slow a link is. -/
abbrev LinkSpeed := UInt32

/-- The speed of a link of which nothing is known. -/
def LinkSpeed.unknown : LinkSpeed := 0xFFFFFFFF

structure Route where
  via : LinkId
  addr : Address
  speed : LinkSpeed
  deriving DecidableEq, Repr

structure RouteTable where
  routes : List Route := []
  deriving DecidableEq, Repr

namespace RouteTable

/-- The route for an address. -/
def get (t : RouteTable) (addr : Address) : Option Route :=
  t.routes.find? fun r => r.addr == addr

/-- The interface through which an address is reached. -/
def find (t : RouteTable) (addr : Address) : Option LinkId :=
  (t.get addr).map (·.via)

/-- Number of addresses with a route. -/
def length (t : RouteTable) : Nat := t.routes.length

def isEmpty (t : RouteTable) : Bool := t.routes.isEmpty

/-- Offer a route: whether the table changed. -/
def add (t : RouteTable) (offer : Route) : RouteTable × Bool :=
  match t.get offer.addr with
  | none => (⟨t.routes ++ [offer]⟩, true)
  | some r =>
    if offer.speed < r.speed then
      (⟨t.routes.map fun r => if r.addr == offer.addr then offer else r⟩, true)
    else (t, false)

/-- Drop every route through the interface with this number: how many there were.
Interfaces that were never registered share one number. -/
def removeInterface (t : RouteTable) (index : Nat) : RouteTable × Nat :=
  let (dropped, kept) := t.routes.partition fun r => r.via.index == index
  (⟨kept⟩, dropped.length)

end RouteTable

end Netstack
