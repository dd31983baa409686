import Netstack.Text.Quoted

/-
What can be wrong with an argument.

Each fault is a cause with the sizes and names that belong to it; its wording is
fixed in `Fault.message` alone.
-/

set_option autoImplicit false

namespace Netstack

/-- A reason for which an argument is refused. -/
inductive Fault
  /-- a header field holds more than its bits can carry -/
  | fieldExceeds (field : String) (value max : Nat)
  /-- a size that has to be positive is zero -/
  | zero (what : String)
  /-- a size leaves the range of machine words -/
  | overflow (what : String)
  /-- less room than a header needs at the destination of an encoding -/
  | shortDestination
  /-- less room than a header needs in front of a buffer's used span -/
  | shortHeadroom
  /-- buffers would not have room for a header -/
  | headerReserve (least : Nat)
  /-- a pool without slots or without receive queues -/
  | emptyPool
  /-- an item does not have the size of a queue's slots -/
  | itemSize (given slot : Nat)
  /-- a destination is smaller than a queue's slots -/
  | slotDestination (given slot : Nat)
  /-- a destination is smaller than the entry it is to receive -/
  | entryDestination (given entry : Nat)
  | interfaceName (longest : Nat) (name : String)
  | interfaceTaken (name : String)
  | payloadLength (given max : Nat)
  | frameLength (given mtu : Nat) (interface : String)
  /-- a received packet is shorter than a header -/
  | noHeader
  /-- a fault reported by somebody else, in their words -/
  | reported (text : String)
  deriving DecidableEq, Repr

/-- The wording of a fault. -/
def Fault.message : Fault → String
  | fieldExceeds field value max => s!"{field} {value} exceeds {max}"
  | zero what => s!"{what} must be non-zero"
  | overflow what => s!"{what} overflows"
  | shortDestination => "buffer too small for packet header"
  | shortHeadroom => "insufficient headroom for packet header"
  | headerReserve least => s!"buffer_header_len must be at least {least}"
  | emptyPool => "connection pool needs non-zero max_connections and conn_queue_len"
  | itemSize given slot => s!"item is {given} bytes, queue slots are {slot}"
  | slotDestination given slot => s!"destination holds {given} bytes, queue slots are {slot}"
  | entryDestination given entry => s!"destination holds {given} bytes, entry has {entry}"
  | interfaceName longest name =>
    s!"interface name must be 1-{longest} bytes, got " ++ Text.quoted name
  | interfaceTaken name => s!"interface '{name}' is already registered"
  | payloadLength given max => s!"payload of {given} bytes exceeds {max}"
  | frameLength given mtu interface => s!"frame of {given} bytes exceeds mtu {mtu} of {interface}"
  | noHeader => "queued packet without header"
  | reported text => text

end Netstack
