import Netstack.EventGroup
import Netstack.Proofs.Queue.Tasks

/-
Tasks that share an event group.

Any number of tasks set and clear bits of one group and wait for them. A step is what a task
does between getting hold of the group and letting go of it, so steps do not overlap; a call
that gives up before it got hold of the group leaves no trace and is no step. Every wait keeps
the place where it was entered, also when it is over, and its result stands there. A wait that
is not over is asleep, or it was woken, or its time is up; in the last two cases it will
resume, sooner or later, and only then looks at the bits again. A task is woken only by a
wake-up that the group sends to its gate: as many sleepers are woken as the gate has wake-ups
more. Where the gate knows who sleeps, setting bits wakes all of them.
-/

set_option autoImplicit false

namespace Netstack

namespace EventGroup

/-- What has become of a wait. -/
inductive Stage
  | asleep
  | woken
  | late
  | ended (bits : EventBits)
  deriving DecidableEq

/-- A task that waits, or has waited, for bits. -/
structure Task where
  call : Call
  timeout : Timeout
  stage : Stage := .asleep
  deriving DecidableEq

/-- An event group and the waits on it, in the order in which they began. -/
structure Shared where
  group : EventGroup := {}
  tasks : List Task := []

/-- What may happen next. A wait is named by its place. -/
inductive Event
  | set (mask : EventBits)
  | clear (mask : EventBits)
  | wait (call : Call) (timeout : Timeout)
  /-- the time of a sleeping task is up -/
  | timeUp (place : Nat)
  /-- a task that no longer sleeps gets hold of the group again -/
  | resume (place : Nat)

namespace Task

/-- What a wait that is over returned. -/
def result (t : Task) : Option EventBits :=
  match t.stage with
  | .ended bits => some bits
  | _ => none

/-- Whether a task is still blocked in its wait. -/
def blocked (t : Task) : Bool := t.result.isNone

def wake (t : Task) : Task := if t.stage = .asleep then { t with stage := .woken } else t

/-- What a piece of its wait makes of a task. -/
def comeTo (t : Task) : Progress Call EventBits → Task
  | .done bits => { t with stage := .ended bits }
  | .parked call => { t with call := call, stage := .asleep }

/-- A task gets hold of the group again. One that sleeps, or is gone, does not. -/
def resume (g : EventGroup) (t : Task) : EventGroup × Task :=
  match t.stage with
  | .asleep | .ended _ => (g, t)
  | .woken => (Blocking.wake g t.call).map id t.comeTo
  | .late => (g.lastWait t.call).map id (t.comeTo ∘ .done)

end Task

/-- The wake-ups that were sent go to tasks that sleep. -/
def deliver : Nat → List Task → List Task
  | _, [] => []
  | n, t :: tasks =>
    if t.stage = .asleep ∧ 0 < n then t.wake :: deliver (n - 1) tasks else t :: deliver n tasks

namespace Shared

def step (s : Shared) : Event → Shared
  | .set mask =>
    let g := s.group.set mask
    ⟨g, deliver (g.gate.woken - s.group.gate.woken) s.tasks⟩
  | .clear mask => { s with group := s.group.clear mask }
  | .wait call timeout =>
    let (g, progress) := s.group.beginWait call timeout.waits
    ⟨g, s.tasks ++ [Task.comeTo { call, timeout } progress]⟩
  | .timeUp place =>
    match s.tasks[place]? with
    | none => s
    | some t =>
      -- it matters only to one that sleeps, and not for ever
      if t.stage = .asleep ∧ t.timeout ≠ none then
        ⟨{ s.group with gate := s.group.gate.giveUp }, s.tasks.set place { t with stage := .late }⟩
      else s
  | .resume place =>
    match s.tasks[place]? with
    | none => s
    | some t =>
      let (g, t) := t.resume s.group
      ⟨g, s.tasks.set place t⟩

/-- The state after a run. -/
def run (s : Shared) (events : List Event) : Shared := events.foldl step s

theorem run_append (s : Shared) (events later : List Event) :
    s.run (events ++ later) = (s.run events).run later :=
  List.foldl_append

theorem run_snoc (s : Shared) (events : List Event) (e : Event) :
    s.run (events ++ [e]) = (s.run events).step e :=
  s.run_append events [e]

/-- What the wait at a place returned, if it is over. -/
def result (s : Shared) (place : Nat) : Option EventBits := s.tasks[place]?.bind Task.result

end Shared

/-! ## What a step can do -/

variable {s s' : Shared} {e : Event}

/-- What a step may come to. -/
inductive Move (s : Shared) : Event → Shared → Prop
  | set (mask : EventBits) : Move s (.set mask) ⟨s.group.set mask, s.tasks.map Task.wake⟩
  | clear (mask : EventBits) : Move s (.clear mask) { s with group := s.group.clear mask }
  /-- a task goes to sleep -/
  | slept (c : Call) (timeout : Timeout) (hnot : s.group.satisfies c = false) :
      Move s (.wait c timeout)
        ⟨{ s.group with gate := s.group.gate.enter }, s.tasks ++ [{ call := c, timeout }]⟩
  /-- a wait is over as soon as it has begun -/
  | ended (c : Call) (timeout : Timeout) (hwhy : timeout = none → s.group.satisfies c = true) :
      Move s (.wait c timeout)
        ⟨(s.group.finish c).1, s.tasks ++ [⟨c, timeout, .ended s.group.bits⟩]⟩
  /-- nobody is there to give up -/
  | inTime (place : Nat) : Move s (.timeUp place) s
  | late {place : Nat} {t : Task} (ht : s.tasks[place]? = some t) (hasleep : t.stage = .asleep)
      (htimeout : t.timeout ≠ none) :
      Move s (.timeUp place) ⟨{ s.group with gate := s.group.gate.giveUp },
        s.tasks.set place { t with stage := .late }⟩
  /-- nobody is there to resume -/
  | absent (place : Nat) : Move s (.resume place) s
  /-- a task that was woken is not satisfied and goes back to sleep -/
  | again {place : Nat} {t : Task} (ht : s.tasks[place]? = some t) (hwoken : t.stage = .woken)
      (hnot : s.group.satisfies t.call = false) :
      Move s (.resume place) ⟨{ s.group with gate := s.group.gate.take.doze },
        s.tasks.set place { t with stage := .asleep }⟩
  /-- a wait is over -/
  | left {place : Nat} {t : Task} (ht : s.tasks[place]? = some t) (gate : Gate)
      (hwhy : (t.stage = .woken ∧ s.group.satisfies t.call = true ∧
          gate = s.group.gate.take.leave) ∨
        (t.stage = .late ∧ gate = s.group.gate.leave)) :
      Move s (.resume place) ⟨{ (s.group.finish t.call).1 with gate := gate },
        s.tasks.set place { t with stage := .ended s.group.bits }⟩

theorem move_wait (c : Call) (timeout : Timeout) :
    Move s (.wait c timeout) (s.step (.wait c timeout)) := by
  unfold Shared.step beginWait
  by_cases hwaits : (timeout.waits && !s.group.satisfies c) = true
  · simp only [hwaits, if_true]
    have ⟨_, hnot⟩ := Bool.and_eq_true_iff.mp hwaits
    exact .slept c timeout (by simpa using hnot)
  · simp only [hwaits]
    refine .ended c timeout fun hnone => ?_
    subst hnone
    simpa [Timeout.waits] using hwaits

theorem move_timeUp (place : Nat) : Move s (.timeUp place) (s.step (.timeUp place)) := by
  simp only [Shared.step]
  cases ht : s.tasks[place]? with
  | none => exact .inTime place
  | some t =>
    dsimp only
    split
    · next h => exact .late ht h.1 h.2
    · exact .inTime place

/-- Enough wake-ups wake everybody. -/
theorem deliver_of_le {n : Nat} {tasks : List Task}
    (h : tasks.countP (·.stage = .asleep) ≤ n) : deliver n tasks = tasks.map Task.wake := by
  induction tasks generalizing n with
  | nil => rfl
  | cons t tasks ih =>
    rw [List.countP_cons] at h
    rw [deliver, List.map_cons]
    by_cases hasleep : t.stage = .asleep
    · rw [if_pos (by simpa using hasleep)] at h
      rw [if_pos ⟨hasleep, Nat.lt_of_lt_of_le (Nat.succ_pos _) h⟩, ih (Nat.le_sub_of_add_le h)]
    · rw [if_neg (by simpa using hasleep)] at h
      rw [if_neg fun hboth => hasleep hboth.1, ih h, Task.wake, if_neg hasleep]

/-- Where the gate knows who sleeps, setting bits wakes all of them. -/
theorem step_set (hasleep : s.group.gate.asleep = s.tasks.countP (·.stage = .asleep))
    (mask : EventBits) :
    s.step (.set mask) = ⟨s.group.set mask, s.tasks.map Task.wake⟩ := by
  have hsent : (s.group.set mask).gate.woken - s.group.gate.woken = s.group.gate.asleep :=
    Nat.add_sub_cancel_left _ _
  simp only [Shared.step, hsent]
  rw [deliver_of_le (Nat.le_of_eq hasleep.symm)]

theorem step_resume {place : Nat} {t : Task} (ht : s.tasks[place]? = some t) :
    s.step (.resume place) =
      ⟨(t.resume s.group).1, s.tasks.set place (t.resume s.group).2⟩ := by
  simp only [Shared.step, ht]

section Resume

variable {g : EventGroup} {t : Task}

theorem Task.resume_of_late (h : t.stage = .late) : t.resume g =
    ({ (g.finish t.call).1 with gate := g.gate.leave }, { t with stage := .ended g.bits }) := by
  simp only [resume, h]
  rfl

theorem Task.resume_of_satisfied (h : t.stage = .woken) (hsat : g.satisfies t.call = true) :
    t.resume g = ({ (g.finish t.call).1 with gate := g.gate.take.leave },
      { t with stage := .ended g.bits }) := by
  have hwake : g.wakeWait t.call =
      ({ (g.finish t.call).1 with gate := g.gate.take.leave }, .done g.bits) := if_pos hsat
  simp only [resume, h, Blocking.wake, hwake]
  rfl

theorem Task.resume_of_not (h : t.stage = .woken) (hnot : g.satisfies t.call = false) :
    t.resume g = ({ g with gate := g.gate.take.doze }, { t with stage := .asleep }) := by
  have hwake : g.wakeWait t.call = ({ g with gate := g.gate.take.doze }, .parked t.call) :=
    if_neg (Bool.not_eq_true _ ▸ hnot)
  simp only [resume, h, Blocking.wake, hwake]
  rfl

end Resume

theorem move_resume (place : Nat) : Move s (.resume place) (s.step (.resume place)) := by
  cases ht : s.tasks[place]? with
  | none =>
    have hsame : s.step (.resume place) = s := by simp only [Shared.step, ht]
    rw [hsame]
    exact .absent place
  | some t =>
    rw [step_resume ht]
    cases hstage : t.stage with
    | asleep | ended =>
      -- a task that stays what it is leaves everything as it is
      have hresume : t.resume s.group = (s.group, t) := by simp only [Task.resume, hstage]
      have hsame : s.tasks.set place t = s.tasks := by
        have ⟨pre, post, htasks, _, hset, _⟩ := Queue.split_at ht
        rw [hset, ← htasks]
      rw [hresume, hsame]
      exact .absent place
    | late =>
      rw [Task.resume_of_late hstage]
      exact .left ht _ (.inr ⟨hstage, rfl⟩)
    | woken =>
      cases hsat : s.group.satisfies t.call with
      | true =>
        rw [Task.resume_of_satisfied hstage hsat]
        exact .left ht _ (.inl ⟨hstage, hsat, rfl⟩)
      | false =>
        rw [Task.resume_of_not hstage hsat]
        exact .again ht hstage hsat

theorem move_step (hasleep : s.group.gate.asleep = s.tasks.countP (·.stage = .asleep))
    (e : Event) : Move s e (s.step e) := by
  cases e with
  | set mask =>
    rw [step_set hasleep]
    exact .set mask
  | clear mask => exact .clear mask
  | wait c timeout => exact move_wait c timeout
  | timeUp place => exact move_timeUp place
  | resume place => exact move_resume place

end EventGroup

end Netstack
