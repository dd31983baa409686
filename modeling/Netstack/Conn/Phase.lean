import Netstack.Error

/-
The phases of a connection, in the order of how far it got.
-/

set_option autoImplicit false

namespace Netstack

inductive Phase
  /-- the slot is not in use -/
  | free
  | closed
  /-- bound to a local port -/
  | bound
  | listen
  | connected
  deriving DecidableEq, Repr, Inhabited

namespace Phase

def name : Phase → String
  | free => "Free"
  | closed => "Closed"
  | bound => "Open"
  | listen => "Listen"
  | connected => "Connected"

/-- Whether a connection in this phase is bound, listens or is connected. -/
def isActive : Phase → Bool
  | free | closed => false
  | bound | listen | connected => true

/-- The error of an operation that is not for connections in this phase. -/
def refusal (p : Phase) : Error := .wrongState p.name

end Phase

end Netstack
