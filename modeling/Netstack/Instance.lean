import Netstack.Stack.Core

/-
The installed stack: one stack that a whole program can reach without passing it around.

A program installs a stack once, at its start. To install another one over it is a mistake
of the program and no condition to recover from, so it is told apart from the errors of the
stack itself. The stack is started when it is installed, and only a stack that could be
started is installed.
-/

set_option autoImplicit false

namespace Netstack

/-- Why a stack was not installed. -/
inductive InstallFailure
  /-- one is installed already -/
  | twice
  /-- the stack could not be made or started -/
  | failed (error : Error)
  deriving DecidableEq, Repr

/-- The wording of a failure to install. -/
def InstallFailure.message : InstallFailure → String
  | twice => "lsp stack initialized twice"
  | failed error => error.message

/-- The installed stack, if there is one. -/
structure Installed (δ : Type) where
  stack? : Option (Stack δ) := none

namespace Installed

variable {δ : Type}

/-- Work on the installed stack, if there is one. -/
def on {α : Type} (i : Installed δ) (f : Stack δ → Stack δ × α) : Installed δ × Option α :=
  match i.stack? with
  | none => (i, none)
  | some s =>
    let (s, answer) := f s
    (⟨some s⟩, some answer)

variable [LinkDriver δ]

/-- Start a stack and install it. -/
def install (i : Installed δ) (s : Stack δ) : Installed δ × Except InstallFailure (Stack δ) :=
  match i.stack? with
  | some _ => (i, .error .twice)
  | none =>
    match s.start with
    | (_, .error e) => (i, .error (.failed e))
    | (s, .ok ()) => (⟨some s⟩, .ok s)

/-- Make a stack, start it and install it. A configuration that cannot be honoured is
reported before anything else. -/
def init (i : Installed δ) (c : Config) : Installed δ × Except InstallFailure (Stack δ) :=
  match Stack.new c with
  | .error e => (i, .error (.failed e))
  | .ok s => i.install s

/-- Take the installed stack out, if there is one, and stop it. -/
def shutdown (i : Installed δ) : Installed δ × Option (Stack δ) :=
  ({}, i.stack?.map Stack.shutdown)

end Installed

end Netstack
