import Netstack.Conn.Handle
import Netstack.Packet.Address
import Netstack.Text.Digits

/-
What a monitor is told about the connections of a pool.
-/

set_option autoImplicit false

namespace Netstack

inductive ConnEvent
  /-- a slot was handed out -/
  | allocated (conn : Handle)
  | bound (conn : Handle) (port : UInt8)
  | listening (conn : Handle) (port : UInt8)
  | connected (conn : Handle) (addr : Address) (port : UInt8)
  /-- a listening connection got a child for a new peer -/
  | accepted (parent child : Handle)
  | closed (conn : Handle)
  /-- a slot was given back -/
  | freed (conn : Handle)
  /-- a packet could not be queued -/
  | dropped (conn : Handle)
  deriving DecidableEq, Repr

namespace ConnEvent

/-- One line for a log. -/
def text : ConnEvent → String
  | allocated conn => s!"Allocated {conn.name}"
  | bound conn port => s!"{conn.name} bound to port {port}"
  | listening conn port => s!"{conn.name} listening on port {port}"
  | connected conn addr port =>
    s!"{conn.name} connected to " ++ Text.hexUpper 4 addr.toNat ++ s!":{port}"
  | accepted parent child => s!"{parent.name} accepted {child.name}"
  | closed conn => s!"Closed {conn.name}"
  | freed conn => s!"Freed {conn.name}"
  | dropped conn => s!"Dropped packet for {conn.name}"

def debug : ConnEvent → String
  | allocated conn => Text.applied "Allocated" conn.debug
  | bound conn port =>
    Text.record "Bound" [Text.field "conn" conn.debug, Text.field "port" (toString port)]
  | listening conn port =>
    Text.record "Listening" [Text.field "conn" conn.debug, Text.field "port" (toString port)]
  | connected conn addr port =>
    Text.record "Connected"
      [Text.field "conn" conn.debug, Text.field "addr" (toString addr),
        Text.field "port" (toString port)]
  | accepted parent child =>
    Text.record "Accepted" [Text.field "parent" parent.debug, Text.field "child" child.debug]
  | closed conn => Text.applied "Closed" conn.debug
  | freed conn => Text.applied "Freed" conn.debug
  | dropped conn => Text.applied "Dropped" conn.debug

end ConnEvent

end Netstack
