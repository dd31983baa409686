import Netstack.Link.Driver

/-
A link on which callbacks fail by arrangement.

It notes which callbacks were called and keeps the frames that it was given and took. It is
what applications are tried out with, since every failure of a real link can be brought
about on it at will.
-/

set_option autoImplicit false

namespace Netstack

/-- A callback of a driver. -/
inductive LinkCall
  | bringUp
  | takeDown
  | transmit
  deriving DecidableEq, Repr

structure ScriptedLink where
  /-- whether the link takes part in being brought up and taken down -/
  passive : Bool := false
  /-- the callbacks that fail, and how -/
  failures : List (LinkCall × Error) := []
  /-- the callbacks that were called, oldest first -/
  calls : List LinkCall := []
  /-- the frames that were sent, oldest first -/
  frames : List (List UInt8) := []
  deriving DecidableEq, Repr

namespace ScriptedLink

/-- From now on a callback fails, or succeeds. -/
def arrange (l : ScriptedLink) (call : LinkCall) (failure : Option Error) : ScriptedLink :=
  let others := l.failures.filter fun f => f.1 ≠ call
  { l with failures := (failure.map (call, ·)).toList ++ others }

/-- A callback was called: how it ends. -/
def called (l : ScriptedLink) (call : LinkCall) : ScriptedLink × Except Error Unit :=
  let result := match l.failures.lookup call with
    | some e => .error e
    | none => .ok ()
  ({ l with calls := l.calls ++ [call] }, result)

/-- A passive link is not asked when it is brought up or taken down. -/
def prepare (l : ScriptedLink) (call : LinkCall) : ScriptedLink × Except Error Unit :=
  if l.passive then (l, .ok ()) else l.called call

/-- A frame was sent unless the callback fails. -/
def send (l : ScriptedLink) (frame : List UInt8) : ScriptedLink × Except Error Unit :=
  match l.called .transmit with
  | (l, .ok ()) => ({ l with frames := l.frames ++ [frame] }, .ok ())
  | (l, .error e) => (l, .error e)

/-- The callbacks since they were last asked for. -/
def takeCalls (l : ScriptedLink) : ScriptedLink × List LinkCall := ({ l with calls := [] }, l.calls)

/-- The frames since they were last asked for. -/
def takeFrames (l : ScriptedLink) : ScriptedLink × List (List UInt8) :=
  ({ l with frames := [] }, l.frames)

instance : LinkDriver ScriptedLink where
  bringUp l := l.prepare .bringUp
  takeDown l := l.prepare .takeDown
  transmit := send

end ScriptedLink

end Netstack
