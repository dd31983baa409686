import Netstack.Link.Interface

/-
The registry of interfaces.

Interfaces are numbered in the order in which they are registered and are never taken out
again. No two of them have names that differ in nothing but the case of ASCII letters.
-/

set_option autoImplicit false

namespace Netstack

structure Registry (δ : Type) where
  /-- the interfaces in the order in which they were registered -/
  interfaces : List (Interface δ) := []
  /-- the number of the next interface -/
  nextIndex : Nat := 0

namespace Registry

variable {δ : Type}

/-- What a name is compared by: the name with its ASCII letters in lower case. -/
def key (name : String) : String := name.map Char.toLower

/-- The interface with a name, in whatever case. -/
def byName (r : Registry δ) (name : String) : Option (Interface δ) :=
  r.interfaces.find? fun i => key i.name == key name

/-- The first interface with a device address. -/
def byAddress (r : Registry δ) (address : Address) : Option (Interface δ) :=
  r.interfaces.find? fun i => i.address == address

/-- The interface with a number. -/
def byIndex (r : Registry δ) (index : Nat) : Option (Interface δ) :=
  r.interfaces.find? fun i => i.index == index

def length (r : Registry δ) : Nat := r.interfaces.length

def isEmpty (r : Registry δ) : Bool := r.interfaces.isEmpty

/-- Every interface, in the order of the numbers. -/
def all (r : Registry δ) : List (Interface δ) := r.interfaces

/-- Register an interface under the next number: the interface with that number. A name
that is taken is refused, and uses no number. -/
def register (r : Registry δ) (i : Interface δ) : Registry δ × Except Error (Interface δ) :=
  if (r.byName i.name).isSome then (r, .error (.invalidArgument (.interfaceTaken i.name)))
  else
    let i := { i with index := r.nextIndex }
    ({ interfaces := r.interfaces ++ [i], nextIndex := r.nextIndex + 1 }, .ok i)

/-! ## Working on registered interfaces -/

/-- Change the interface with a number, if there is one. -/
def modify (r : Registry δ) (index : Nat) (f : Interface δ → Interface δ) : Registry δ :=
  { r with interfaces := r.interfaces.map fun i => if i.index == index then f i else i }

/-- Work on the interface with a number, if there is one. -/
def on {α : Type} (r : Registry δ) (index : Nat) (f : Interface δ → Interface δ × α) :
    Registry δ × Option α :=
  match r.byIndex index with
  | none => (r, none)
  | some i =>
    let (i', answer) := f i
    (r.modify index fun _ => i', some answer)

/-- Number of received frames that wait on an interface. -/
def received (r : Registry δ) (index : Nat) : Nat :=
  ((r.byIndex index).map fun i => i.rx.length).getD 0

variable [LinkDriver δ]

/-- Bring interfaces up one after the other, up to the first that fails. Those before it
stay up. -/
def bringUpEach : List (Interface δ) → List (Interface δ) × Except Error Unit
  | [] => ([], .ok ())
  | i :: rest =>
    match i.bringUp with
    | (i, .error e) => (i :: rest, .error e)
    | (i, .ok ()) =>
      let (rest, result) := bringUpEach rest
      (i :: rest, result)

/-- Bring every interface up, in the order of the numbers. -/
def bringUpAll (r : Registry δ) : Registry δ × Except Error Unit :=
  let (interfaces, result) := bringUpEach r.interfaces
  ({ r with interfaces := interfaces }, result)

/-- Take every interface down, whatever the drivers say. -/
def takeDownAll (r : Registry δ) : Registry δ :=
  { r with interfaces := r.interfaces.map fun i => i.takeDown.1 }

end Registry

end Netstack
