import Netstack.Wait.WaitingRoom

/-
Steps: what is done on a state, as a value.

A step is a piece of work that never waits, or a call that may. In a waiting room it is
made by somebody who waits for its end, or by a task of its own, which may still be waiting
when others go on. A step on a part of a state is a step on the whole.
-/

set_option autoImplicit false

namespace Netstack

/-- A step on a state of type `σ` that answers an `ω`. -/
inductive Step (σ π ρ ω : Type)
  | act (work : σ → σ × ω)
  /-- a call, and how long it waits in the state in which it starts -/
  | call (timeout : σ → Timeout) (begun : σ → σ × Progress π ρ) (finish : ρ → ω)

namespace Step

variable {σ π ρ ω : Type}

/-- Look at the state and leave it. -/
def look (f : σ → ω) : Step σ π ρ ω := act fun s => (s, f s)

/-- Work on the state, and make an answer of what comes out. -/
def change {α : Type} (f : σ → σ × α) (answer : α → ω) : Step σ π ρ ω :=
  act fun s => (f s).map id answer

end Step

namespace WaitingRoom

variable {σ π ρ ω : Type} [Blocking σ π ρ]

/-- Make a step in a task of its own. The answer can be collected when there is one. -/
def spawn (r : WaitingRoom σ π ρ ω) (task : String) : Step σ π ρ ω → WaitingRoom σ π ρ ω
  | .act work =>
    let (r, answer) := r.act work
    { r with finished := r.finished ++ [(task, answer)] }
  | .call timeout begun finish => r.enter task (timeout r.state) begun finish

/-- Make a step and wait for its end: no answer if it never ends. The name is one that no
task has. -/
def perform (r : WaitingRoom σ π ρ ω) (name : String) (step : Step σ π ρ ω) :
    WaitingRoom σ π ρ ω × Option ω :=
  (r.spawn name step).collect name

end WaitingRoom

end Netstack
