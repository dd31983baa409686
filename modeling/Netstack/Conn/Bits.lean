import Netstack.EventGroup

/-
The event bits of a connection.
-/

set_option autoImplicit false

namespace Netstack.ConnBits

/-- a packet is in the receive queue -/
def receive : EventBits := 0x01
/-- a packet was sent -/
def send : EventBits := 0x02
def bound : EventBits := 0x04
def listen : EventBits := 0x08
/-- a child is in the backlog -/
def accept : EventBits := 0x10
def connect : EventBits := 0x20
def closed : EventBits := 0x40
/-- waiting callers were interrupted -/
def interrupt : EventBits := 0x80
/-- every bit above -/
def all : EventBits := 0xFF

end Netstack.ConnBits
