import Netstack.Stack.Calls

/-
Several stacks side by side, each under a name of its own.

The stacks share nothing: a frame gets from one to another only because somebody takes it
from one driver and hands it to another stack. They do share the clock, and each core is
at work whenever there is work for it.
-/

set_option autoImplicit false

namespace Netstack

structure Network (δ : Type) where
  nodes : List (String × Stack δ) := []

namespace Network

variable {δ : Type}

/-- The stack with a name. -/
def find? (n : Network δ) (name : String) : Option (Stack δ) := n.nodes.lookup name

/-- Add a stack under a name that no other stack has. -/
def insert (n : Network δ) (name : String) (s : Stack δ) : Network δ :=
  ⟨n.nodes ++ [(name, s)]⟩

/-- Put another stack in the place of the one with a name. -/
def replace (n : Network δ) (name : String) (s : Stack δ) : Network δ :=
  ⟨n.nodes.map fun (x, old) => if x == name then (x, s) else (x, old)⟩

/-- Work on the stack with a name, if there is one. -/
def on {α : Type} (n : Network δ) (name : String) (f : Stack δ → Stack δ × α) :
    Network δ × Option α :=
  match n.find? name with
  | none => (n, none)
  | some s =>
    let (s, answer) := f s
    (n.replace name s, some answer)

/-! ## Calls that may wait -/

/-- A call on the stack with a name. -/
structure Call where
  stack : String
  call : Stack.Call

/-- What a call answers: nothing if its stack does not exist. -/
abbrev Answer := Option Stack.Answer

/-- The state of the network and what a call has come to. -/
abbrev Outcome (δ : Type) := Network δ × Progress Call Answer

/-- Start or resume a call on the stack with a name. -/
def progressOn (n : Network δ) (name : String) (f : Stack δ → Stack.Outcome δ) : Outcome δ :=
  match n.on name f with
  | (n, some progress) => (n, progress.map (Call.mk name) some)
  | (n, none) => (n, .done none)

variable [LinkDriver δ]

/-- One piece of the work of the first core that has any. -/
def advanceEach : List (String × Stack δ) → Option (List (String × Stack δ))
  | [] => none
  | (name, s) :: rest =>
    match s.advance? with
    | some s => some ((name, s) :: rest)
    | none => (advanceEach rest).map ((name, s) :: ·)

instance : Blocking (Network δ) Call Answer where
  ready n c := ((n.find? c.stack).map (·.ready c.call)).getD false
  wake n c := n.progressOn c.stack (·.wake c.call)
  expire n c := n.on c.stack (·.expire c.call)
  advance n := (advanceEach n.nodes).map Network.mk
  pieces n := n.nodes.foldl (fun sum (_, s) => sum + s.pieces) 0
  elapse n left := ⟨n.nodes.map fun (name, s) => (name, Blocking.elapse s left)⟩

omit [LinkDriver δ] in
/-- A step on the stack with a name. It answers `missing` if there is none. -/
def stackStep {ω : Type} (name : String) (missing : ω) :
    Step (Stack δ) Stack.Call Stack.Answer ω → Step (Network δ) Call Answer ω
  | .act work => .act fun n => (n.on name work).map id (·.getD missing)
  | .call timeout begun finish =>
    .call (fun n => (n.find? name).bind timeout) (·.progressOn name begun) fun answer =>
      (answer.map finish).getD missing

end Network

end Netstack
