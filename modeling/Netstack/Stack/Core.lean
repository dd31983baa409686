import Netstack.Stack.Inbound

/-
The core of a stack: what it does by itself.

The core takes one event after the other. An event that frames were received makes it
dispatch all frames that wait on the interface, and an event that frames are to be sent
makes it give all of them to the driver; events for interfaces that do not exist are
ignored. If no event comes for a while, the core looks at every interface, so frames whose
event was refused still move on.
-/

set_option autoImplicit false

namespace Netstack.Stack

variable {δ : Type}

/-- Take the oldest frame received on an interface and dispatch it, if there is one. -/
def receive? (s : Stack δ) (index : Nat) : Option (Stack δ) :=
  match s.interfaces.byIndex index with
  | none => none
  | some i =>
    match i.takeRx with
    | (i', .ok (some frame)) => some ((s.modifyLink index fun _ => i').dispatch (some i.id) frame)
    | (_, _) => none

/-- Take and dispatch `n` frames, or as many as there are. -/
def receiveUpTo : Nat → Stack δ → Nat → Stack δ
  | 0, s, _ => s
  | n + 1, s, index =>
    match s.receive? index with
    | some s => receiveUpTo n s index
    | none => s

/-- Dispatch every frame that was received on an interface. -/
def processRx (s : Stack δ) (index : Nat) : Stack δ :=
  receiveUpTo (s.interfaces.received index) s index

/-- Take the oldest event, if there is one. -/
def nextEvent (s : Stack δ) : Stack δ × Option CoreEvent :=
  match Fifo.take s.events with
  | (events, .ok event) => ({ s with events := events }, event)
  | (events, .error _) => ({ s with events := events }, none)

variable [LinkDriver δ]

/-- Give every frame that waits on an interface to its driver. -/
def processTx (s : Stack δ) (index : Nat) : Stack δ :=
  s.modifyLink index fun i => i.flushTx.1

/-- Do the work that an event asks for. -/
def process (s : Stack δ) : CoreEvent → Stack δ
  | .rx index => s.processRx index
  | .tx index => s.processTx index

/-- Look at every interface, in the order of their numbers. -/
def serviceAll (s : Stack δ) : Stack δ :=
  s.interfaces.all.foldl (fun s i => (s.processRx i.index).processTx i.index) s

/-- One round of the core: the work of an event, or a look around if there is none. -/
def coreStep (s : Stack δ) : Stack δ :=
  match s.nextEvent with
  | (s, some event) => s.process event
  | (s, none) => s.serviceAll

/-! ## Piece by piece

Others may be at work while the core is, so the core also works one frame at a time. -/

/-- One piece of the work that events ask for, if there is any. -/
def advance? (s : Stack δ) : Option (Stack δ) :=
  if !s.running then none
  else
    match s.draining with
    | some index => some ((s.receive? index).getD { s with draining := none })
    | none =>
      match s.nextEvent with
      | (s, some (.rx index)) => some { s with draining := some index }
      | (s, some (.tx index)) => some (s.processTx index)
      | (_, none) => none

omit [LinkDriver δ] in
/-- A bound on the number of such pieces: two for every event, to take it and to end it, one
for every frame, and one to end the work at hand. -/
def pieces (s : Stack δ) : Nat :=
  2 * s.events.length + s.interfaces.all.foldl (fun sum i => sum + i.rx.length) 0 + 1

end Netstack.Stack
