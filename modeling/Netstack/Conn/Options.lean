import Netstack.Packet.Address
import Netstack.Time.Deadline

/-
The attributes of a connection: its two ends, its priority among the connections on
the same port, and how long its calls wait. A slot starts from the defaults below
whenever it is handed out.
-/

set_option autoImplicit false

namespace Netstack

structure Options where
  /-- connections of higher priority are offered packets first -/
  priority : UInt8 := 127
  /-- local port slot, `anyPort` until the connection is bound -/
  lport : UInt8 := anyPort
  laddr : Address := anyAddress
  /-- remote port, `anyPort` until the connection is connected -/
  rport : UInt8 := anyPort
  raddr : Address := anyAddress
  flags : UInt32 := 0
  recvTimeout : Timeout := none
  sendTimeout : Timeout := none
  deriving DecidableEq, Repr, Inhabited

/-- Whether a packet from this address and port is from the connection's peer. A part
of the peer that is not fixed matches anything. -/
def Options.acceptsPeer (o : Options) (addr : Address) (port : UInt8) : Bool :=
  (o.raddr == anyAddress || o.raddr == addr) && (o.rport == anyPort || o.rport == port)

end Netstack
