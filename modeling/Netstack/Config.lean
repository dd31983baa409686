import Netstack.Memory
import Netstack.Packet.Header
import Netstack.Time.Duration

/-
The configuration of a stack.

Every field has a default. The address is kept wider than an address field, so
that a value which does not fit is reported and not cut off; `validate` names the
first field that the stack cannot honour, and `normalized` is what a stack runs
with: a valid configuration in which no name is empty.
-/

set_option autoImplicit false

namespace Netstack

structure Config where
  addr : UInt32 := 0xAE55
  hostname : String := "LSP Hostname"
  machineName : String := "LSP Machinename"
  revision : String := "LSP Revision"
  /-- number of connection slots -/
  maxConnections : Nat := 32
  /-- length of each connection's receive queue -/
  connQueueLen : Nat := 4
  /-- how long a packet may wait for room in a receive queue -/
  queueTimeout : Duration := Duration.ofMillis 100
  /-- how long short critical sections may take -/
  lockTimeout : Duration := Duration.ofMillis 100
  /-- room in front of outbound payloads, one header at least -/
  bufferHeaderLen : Nat := headerLen
  /-- length of the queue of core events -/
  coreEventQueueLen : Nat := 16
  /-- how long the core waits for an event before it looks around -/
  corePollInterval : Duration := Duration.ofMillis 500
  /-- whether a closed connection gives up its receive queue and event group -/
  releaseOnClose : Bool := false
  deriving DecidableEq, Repr, Inhabited

namespace Config

/-- The address of the system. Zero means any address and is no system's own. -/
def address (c : Config) : Except Error Address :=
  if c.addr = 0 then .error (.addressInvalid c.addr) else Address.ofRaw c.addr

/-- Refuse a zero size. -/
def checkPositive (field : String) (n : Nat) : Except Error Unit :=
  if n = 0 then .error (.invalidArgument (.zero field)) else .ok ()

/-- Whether a stack can honour the configuration; the first field that it cannot
honour is reported. -/
def validate (c : Config) : Except Error Unit := do
  let _ ← c.address
  checkPositive "max_connections" c.maxConnections
  checkPositive "conn_queue_len" c.connQueueLen
  if c.bufferHeaderLen < headerLen then throw (.invalidArgument (.headerReserve headerLen))
  checkPositive "core_event_queue_len" c.coreEventQueueLen

/-- `name`, or the default if it is empty. -/
def nameOr (default name : String) : String :=
  if name.isEmpty then default else name

/-- The valid configuration that a stack runs with. -/
def normalized (c : Config) : Except Error Config := do
  c.validate
  let standard : Config := {}
  return { c with
    hostname := nameOr standard.hostname c.hostname
    machineName := nameOr standard.machineName c.machineName
    revision := nameOr standard.revision c.revision }

end Config

end Netstack
