import Netstack.Text.Record

/-
Handles of connections.

Connections live in numbered slots that are used again. A handle names a slot and
the generation of its use, so a handle that outlives its connection does not name
the next one in the same slot.
-/

set_option autoImplicit false

namespace Netstack

structure Handle where
  index : Nat
  generation : UInt32
  deriving DecidableEq, Repr, Inhabited

namespace Handle

/-- The short name of a connection. -/
def name (h : Handle) : String := s!"conn#{h.index}.{h.generation}"

def debug (h : Handle) : String :=
  Text.record "ConnHandle"
    [Text.field "index" (toString h.index), Text.field "generation" (toString h.generation)]

end Handle

end Netstack
