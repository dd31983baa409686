import Netstack.Wait.Progress

/-
A waiting room: a state, and the callers that wait on it.

Callers are resumed in the order in which they fell asleep, as soon as there is a wake-up
for them, and in turns with the work that the state does by itself, until all are at rest.
Time passes only when somebody waits for an answer and everything is at rest: the clock
then jumps to the earliest deadline, and the caller whose time is up is resumed.

Whoever resumes may finish and thereby wake others or leave work for the state, so one
round is not enough. But a round in which nobody finishes ends at rest where calls wait behind
gates, so there is a use for one round more than there are callers, and for no further one.
Every deadline that passes takes a caller away, too, which bounds the wait for an answer.
`Netstack.Proofs.Wait.Rest` proves both.
-/

set_option autoImplicit false

namespace Netstack

/-- A caller that waits, and what it makes of the answer. -/
structure Waiter (π ρ ω : Type) where
  name : String
  call : π
  deadline : Deadline
  finish : ρ → ω

structure WaitingRoom (σ π ρ ω : Type) where
  state : σ
  /-- the clock, in nanoseconds -/
  now : Nat := 0
  /-- the callers that wait, in the order in which they fell asleep -/
  waiters : List (Waiter π ρ ω) := []
  /-- what callers that no longer wait came back with -/
  finished : List (String × ω) := []

namespace WaitingRoom

variable {σ π ρ ω : Type} [Blocking σ π ρ]

/-- Resume the callers that can be, once each. Those that have to wait again go behind
those that did not resume. -/
def sweep (r : WaitingRoom σ π ρ ω) : WaitingRoom σ π ρ ω :=
  let (r, again) := r.waiters.foldl resume ({ r with waiters := [] }, [])
  { r with waiters := r.waiters ++ again }
where
  resume (acc : WaitingRoom σ π ρ ω × List (Waiter π ρ ω)) (w : Waiter π ρ ω) :
      WaitingRoom σ π ρ ω × List (Waiter π ρ ω) :=
    let (r, again) := acc
    if Blocking.ready r.state w.call then
      match Blocking.wake r.state w.call with
      | (s, .done answer) =>
        ({ r with state := s, finished := r.finished ++ [(w.name, w.finish answer)] }, again)
      | (s, .parked call) => ({ r with state := s }, again ++ [{ w with call := call }])
    else ({ r with waiters := r.waiters ++ [w] }, again)

/-- Resume callers in turns with at most `n` pieces of the state's own work. -/
def turns : Nat → WaitingRoom σ π ρ ω → WaitingRoom σ π ρ ω
  | 0, r => r.sweep
  | n + 1, r =>
    let r := r.sweep
    match Blocking.advance r.state with
    | none => r
    | some s => turns n { r with state := s }

/-- Let the state and its callers come to rest, in at most `n` rounds. -/
def settleIn : Nat → WaitingRoom σ π ρ ω → WaitingRoom σ π ρ ω
  | 0, r => r
  | n + 1, r =>
    let r' := r.turns (Blocking.pieces r.state)
    if r'.waiters.length < r.waiters.length then settleIn n r' else r'

/-- Let the state and its callers come to rest. -/
def settle (r : WaitingRoom σ π ρ ω) : WaitingRoom σ π ρ ω :=
  settleIn (r.waiters.length + 1) r

/-- Start a call. -/
def enter (r : WaitingRoom σ π ρ ω) (name : String) (timeout : Timeout)
    (begun : σ → σ × Progress π ρ) (finish : ρ → ω) : WaitingRoom σ π ρ ω :=
  match begun r.state with
  | (s, .done answer) =>
    settle { r with state := s, finished := r.finished ++ [(name, finish answer)] }
  | (s, .parked call) =>
    let waiter := { name := name, call := call, deadline := .after r.now timeout, finish := finish }
    settle { r with state := s, waiters := r.waiters ++ [waiter] }

/-- Work on the state without waiting. -/
def act {α : Type} (r : WaitingRoom σ π ρ ω) (f : σ → σ × α) : WaitingRoom σ π ρ ω × α :=
  let (s, answer) := f r.state
  (settle { r with state := s }, answer)

/-! ## Time -/

/-- The instant at which a caller gives up, if it ever does. -/
def Waiter.instant? (w : Waiter π ρ ω) : Option Nat :=
  match w.deadline with
  | .never => none
  | .immediate => some 0
  | .at instant => some instant

/-- The first of the callers whose time is up next, and the instant. -/
def next? (r : WaitingRoom σ π ρ ω) : Option (Nat × Waiter π ρ ω) :=
  r.waiters.foldl (fun best w =>
    match best, Waiter.instant? w with
    | none, some t => some (t, w)
    | some (t', w'), some t => if t < t' then some (t, w) else some (t', w')
    | best, none => best) none

/-- The time of a caller is up. -/
def giveUp (r : WaitingRoom σ π ρ ω) (instant : Nat) (w : Waiter π ρ ω) :
    WaitingRoom σ π ρ ω :=
  let (s, answer) := Blocking.expire r.state w.call
  settle
    { state := s
      now := max r.now instant
      waiters := r.waiters.eraseP fun x => x.name == w.name
      finished := r.finished ++ [(w.name, w.finish answer)] }

/-- Whether a caller has finished. -/
def isFinished (r : WaitingRoom σ π ρ ω) (name : String) : Bool :=
  r.finished.any fun f => f.1 == name

/-- Let time pass until a caller has finished, for at most `n` deadlines. -/
def awaitIn : Nat → WaitingRoom σ π ρ ω → String → WaitingRoom σ π ρ ω
  | 0, r, _ => r
  | n + 1, r, name =>
    if r.isFinished name then r
    else
      let left := r.next?.map fun x => (⟨x.1 - r.now⟩ : Duration)
      let r := settle { r with state := Blocking.elapse r.state left }
      if r.isFinished name then r
      else
        match r.next? with
        | none => r
        | some (instant, w) => awaitIn n (r.giveUp instant w) name

/-- Let time pass until a caller has finished, and collect what it came back with: nothing
if it never does. -/
def collect (r : WaitingRoom σ π ρ ω) (name : String) : WaitingRoom σ π ρ ω × Option ω :=
  let r := awaitIn (r.waiters.length + 1) r name
  ({ r with finished := r.finished.eraseP fun f => f.1 == name }, r.finished.lookup name)

/-- Everybody who waits or has finished. -/
def names (r : WaitingRoom σ π ρ ω) : List String :=
  r.finished.map (·.1) ++ r.waiters.map (·.name)

/-- Let time pass until everybody has finished, and collect what they came back with. -/
def collectAll (r : WaitingRoom σ π ρ ω) : WaitingRoom σ π ρ ω × List ω :=
  r.names.foldl (fun (r, answers) name =>
    match r.collect name with
    | (r, some answer) => (r, answers ++ [answer])
    | (r, none) => (r, answers)) (r, [])

end WaitingRoom

end Netstack
