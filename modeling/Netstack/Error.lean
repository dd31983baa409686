import Netstack.Fault
import Netstack.Text.Record

/-
Why an operation fails.

Every operation of the library reports its failures as one of these causes. The
operations never try again by themselves: whether a second attempt makes sense is
for the caller to decide, and `isRecoverable` tells which causes leave it open.
-/

set_option autoImplicit false

namespace Netstack

inductive Error
  /-- a bounded wait ended before its condition held -/
  | timeout
  /-- a push that does not wait met a full queue -/
  | queueFull
  /-- a pop that does not wait met an empty queue -/
  | queueEmpty
  /-- a resource cannot be taken away from those who wait on it -/
  | resourceInUse
  | outOfMemory
  | invalidArgument (fault : Fault)
  | lockFailure
  /-- an address that no header can carry, or that means any address -/
  | addressInvalid (raw : UInt32)
  | portInvalid (port : UInt8)
  | portInUse (port : UInt8)
  /-- the handle's connection was given back -/
  | staleHandle
  /-- the queue was taken out of service -/
  | destroyed
  /-- the operation is not for something in this state -/
  | wrongState (state : String)
  | noRoute (address : UInt16)
  | thread (reason : String)
  deriving DecidableEq, Repr

namespace Error

/-- The wording of an error. -/
def message : Error → String
  | timeout => "Operation timed out"
  | queueFull => "Queue full"
  | queueEmpty => "Queue empty"
  | resourceInUse => "Resource in use"
  | outOfMemory => "Out of memory"
  | invalidArgument fault => "Invalid argument: " ++ fault.message
  | lockFailure => "Lock failure"
  | addressInvalid raw => "Invalid address: 0x" ++ Text.hex 4 raw.toNat
  | portInvalid port => s!"Invalid port: {port}"
  | portInUse port => s!"Port {port} already in use"
  | staleHandle => "Stale connection handle"
  | destroyed => "Resource destroyed"
  | wrongState state => s!"Operation not valid in state {state}"
  | noRoute address => "No route to 0x" ++ Text.hex 4 address.toNat
  | thread reason => s!"Thread error: {reason}"

/-- The name of the kind of an error, without its particulars. -/
def kind : Error → String
  | timeout => "Timeout"
  | queueFull => "QueueFull"
  | queueEmpty => "QueueEmpty"
  | resourceInUse => "ResourceInUse"
  | outOfMemory => "OutOfMemory"
  | invalidArgument _ => "InvalidArgument"
  | lockFailure => "LockFailure"
  | addressInvalid _ => "AddressInvalid"
  | portInvalid _ => "PortInvalid"
  | portInUse _ => "PortInUse"
  | staleHandle => "StaleHandle"
  | destroyed => "Destroyed"
  | wrongState _ => "WrongState"
  | noRoute _ => "NoRoute"
  | thread _ => "Thread"

/-- The diagnostic text of an error: its kind, with the particulars in
parentheses. -/
def debug (e : Error) : String :=
  match e with
  | invalidArgument fault => Text.applied e.kind (Text.quoted fault.message)
  | addressInvalid raw => Text.applied e.kind (toString raw)
  | portInvalid port | portInUse port => Text.applied e.kind (toString port)
  | wrongState state => Text.applied e.kind (Text.quoted state)
  | noRoute address => Text.applied e.kind (toString address)
  | thread reason => Text.applied e.kind (Text.quoted reason)
  | _ => e.kind

def isTimeout (e : Error) : Bool := e = timeout

/-- Whether the same call may succeed later although the caller changes nothing. -/
def isRecoverable : Error → Bool
  | timeout | queueFull | queueEmpty | resourceInUse => true
  | _ => false

end Error

/-- A push that failed. The item goes back to the caller, so that nothing is lost
on the way. -/
structure Rejected (α : Type) where
  error : Error
  item : α

namespace Rejected

variable {α : Type}

def message (r : Rejected α) : String :=
  "push rejected: " ++ r.error.message

/-- The diagnostic text of a failed push, which leaves the item out. -/
def debug (r : Rejected α) : String :=
  Text.recordPart "Rejected" [Text.field "error" r.error.debug]

end Rejected

/-- Two steps give a result if the first one does and the second one does with it. -/
theorem bind_eq_ok_iff {α β : Type} {x : Except Error α} {f : α → Except Error β} {b : β} :
    (x >>= f) = .ok b ↔ ∃ a, x = .ok a ∧ f a = .ok b := by
  cases x with
  | error e => simp [bind, Except.bind]
  | ok a => simp [bind, Except.bind]

end Netstack
