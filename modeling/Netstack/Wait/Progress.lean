import Netstack.Time.Deadline

/-
Calls that may have to wait.

Such a call is run in pieces. Its beginning either answers at once or leaves
behind a description of what it waits for; later it is resumed with a wake-up, and
may wait again, or it is resumed because its time is up, and then it answers. No
piece waits by itself, so all of them are plain functions on a state, and any order
in which callers come to resume is a composition of them.
-/

set_option autoImplicit false

namespace Netstack

/-- What a call has come to: its answer, or what it now waits for. -/
inductive Progress (π ρ : Type)
  | done (answer : ρ)
  | parked (call : π)

namespace Progress

variable {π ρ : Type}

/-- Apply `f` to the answer and `g` to a description of what is waited for. -/
def map {π' ρ' : Type} (g : π → π') (f : ρ → ρ') : Progress π ρ → Progress π' ρ'
  | done answer => done (f answer)
  | parked call => parked (g call)

end Progress

/-- States on which calls of type `π` may wait for answers of type `ρ`. -/
class Blocking (σ : Type) (π ρ : outParam Type) where
  /-- whether a wake-up is there for the call -/
  ready : σ → π → Bool
  /-- resume the call with a wake-up -/
  wake : σ → π → σ × Progress π ρ
  /-- resume the call because its time is up -/
  expire : σ → π → σ × ρ
  /-- one piece of the work that the state does by itself, if there is any to do -/
  advance : σ → Option σ := fun _ => none
  /-- a bound on the number of such pieces -/
  pieces : σ → Nat := fun _ => 0
  /-- what the state does by itself in a length of time, or in the end if nothing
  else happens -/
  elapse : σ → Timeout → σ := fun s _ => s

end Netstack
