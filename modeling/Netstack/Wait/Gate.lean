/-
Gates: where callers wait for a condition that others bring about.

A gate is a counter beside a condition variable. The counter is kept by the callers: each
counts itself in when it starts to wait and out when it is done, whatever it came to. The
condition variable knows only who sleeps. A wake-up is sent to the gate and not to a named
caller: it goes to one that sleeps, which from then on sleeps no more, and is lost where nobody
does. So a wake-up is never saved for a caller that comes later.

A caller that was woken takes its wake-up when it resumes, looks at the condition, and leaves
or goes back to sleep. One whose time is up sleeps no more either; it still counts until it has
looked for the last time.
-/

set_option autoImplicit false

namespace Netstack

structure Gate where
  /-- callers behind the gate, as they count themselves -/
  waiting : Nat := 0
  /-- callers that sleep until they are woken -/
  asleep : Nat := 0
  /-- wake-ups that were sent and not yet taken -/
  woken : Nat := 0
  deriving DecidableEq, Repr, Inhabited

namespace Gate

/-- A caller goes to sleep. -/
def doze (g : Gate) : Gate := { g with asleep := g.asleep + 1 }

/-- A caller comes to the gate and goes to sleep. -/
def enter (g : Gate) : Gate := { g.doze with waiting := g.waiting + 1 }

/-- Wake one of the callers that sleep. -/
def notifyOne (g : Gate) : Gate :=
  if 0 < g.asleep then { g with asleep := g.asleep - 1, woken := g.woken + 1 } else g

/-- Wake every caller that sleeps. -/
def notifyAll (g : Gate) : Gate := { g with asleep := 0, woken := g.woken + g.asleep }

/-- A caller resumes with a wake-up, or without one if it no longer needs any. It is still
behind the gate. -/
def take (g : Gate) : Gate :=
  if 0 < g.woken then { g with woken := g.woken - 1 } else { g with asleep := g.asleep - 1 }

/-- The time of a caller is up: it sleeps no more. If none sleeps it is one that was woken,
and its wake-up goes with it. -/
def giveUp (g : Gate) : Gate :=
  if 0 < g.asleep then { g with asleep := g.asleep - 1 } else { g with woken := g.woken - 1 }

/-- A caller that no longer sleeps leaves. -/
def leave (g : Gate) : Gate := { g with waiting := g.waiting - 1 }

/-! ## Who is counted

Only who comes and who leaves counts: wake-ups leave the counter alone. -/

section Waiting

variable (g : Gate)

@[simp] theorem waiting_doze : g.doze.waiting = g.waiting := rfl

@[simp] theorem waiting_enter : g.enter.waiting = g.waiting + 1 := rfl

@[simp] theorem waiting_leave : g.leave.waiting = g.waiting - 1 := rfl

@[simp] theorem waiting_notifyAll : g.notifyAll.waiting = g.waiting := rfl

@[simp] theorem waiting_notifyOne : g.notifyOne.waiting = g.waiting := by
  unfold notifyOne
  split <;> rfl

@[simp] theorem waiting_take : g.take.waiting = g.waiting := by
  unfold take
  split <;> rfl

@[simp] theorem waiting_giveUp : g.giveUp.waiting = g.waiting := by
  unfold giveUp
  split <;> rfl

end Waiting

/-! ## Where somebody is found

A wake-up that finds a sleeper, and a caller that finds its wake-up. -/

section Found

variable {g : Gate}

theorem notifyOne_of_pos (h : 0 < g.asleep) :
    g.notifyOne = { g with asleep := g.asleep - 1, woken := g.woken + 1 } := if_pos h

theorem notifyOne_of_eq_zero (h : g.asleep = 0) : g.notifyOne = g :=
  if_neg (Nat.not_lt.mpr (Nat.le_of_eq h))

theorem take_of_pos (h : 0 < g.woken) : g.take = { g with woken := g.woken - 1 } := if_pos h

theorem giveUp_of_pos (h : 0 < g.asleep) : g.giveUp = { g with asleep := g.asleep - 1 } :=
  if_pos h

end Found

end Gate

end Netstack
