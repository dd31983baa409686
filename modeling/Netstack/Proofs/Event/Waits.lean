import Netstack.Proofs.Event.Tasks
import Netstack.Proofs.Histories

/-
Waits on an event group are exact.

A bit can be lost only in two ways: somebody clears it, or a wait ends that takes it along.
So a bit is set if somebody set it and neither happened since, whoever else waited in between
and in whatever order the tasks resumed. A wait that ends returns the bits as it finds them,
before it takes any along; all that it can take away is in what it returns. `Effect` says
which of this a step is, and what is said of runs follows from it event by event.

Nobody sleeps through the bits that would satisfy it: bits are only added where everybody who
sleeps is woken, and a task goes to sleep only if it is not satisfied. The gate counts the
waits that are not over, it knows who sleeps, so that a wake-up reaches everybody who does, and
it has one for each task that was woken.
-/

set_option autoImplicit false

namespace Netstack

namespace EventGroup

/-! ## Bits one by one -/

section Bits

variable {a b bits bits' mask : EventBits} {o : WaitOptions} {i : Nat}

/-- The bit with number `i` is set. -/
def IsSet (bits : EventBits) (i : Nat) : Prop := bits.toBitVec.getLsbD i = true

theorem isSet_or : IsSet (a ||| b) i ↔ IsSet a i ∨ IsSet b i := by
  simp [IsSet]

theorem isSet_and : IsSet (a &&& b) i ↔ IsSet a i ∧ IsSet b i := by
  simp [IsSet]

theorem isSet_and_not : IsSet (a &&& ~~~b) i ↔ IsSet a i ∧ ¬ IsSet b i := by
  have hlt : IsSet a i → i < 32 := BitVec.lt_of_getLsbD
  simp only [IsSet, UInt32.toBitVec_and, UInt32.toBitVec_not, BitVec.getLsbD_and,
    BitVec.getLsbD_not, Bool.and_eq_true, Bool.not_eq_true', decide_eq_true_eq,
    Bool.not_eq_true]
  constructor
  · rintro ⟨ha, -, hb⟩
    exact ⟨ha, hb⟩
  · rintro ⟨ha, hb⟩
    exact ⟨ha, hlt ha, hb⟩

theorem not_isSet_zero (i : Nat) : ¬ IsSet 0 i := by
  simp [IsSet]

theorem eq_of_isSet (h : ∀ i, IsSet a i ↔ IsSet b i) : a = b := by
  apply UInt32.eq_of_toBitVec_eq
  apply BitVec.eq_of_getLsbD_eq
  intro i _
  exact Bool.eq_iff_iff.mpr (h i)

theorem ne_zero_iff : bits ≠ 0 ↔ ∃ i, IsSet bits i := by
  constructor
  · intro hne
    by_contra hnone
    rw [not_exists] at hnone
    exact hne (eq_of_isSet fun i => iff_of_false (hnone i) (not_isSet_zero i))
  · rintro ⟨i, hi⟩ rfl
    exact not_isSet_zero i hi

theorem satisfiedBy_iff : o.satisfiedBy bits mask = true ↔
    if o.all then ∀ i, IsSet mask i → IsSet bits i else ∃ i, IsSet mask i ∧ IsSet bits i := by
  unfold WaitOptions.satisfiedBy
  split
  · rw [beq_iff_eq]
    constructor
    · intro heq i hi
      rw [← heq, isSet_and] at hi
      exact hi.1
    · intro hall
      refine eq_of_isSet fun i => ?_
      rw [isSet_and]
      exact ⟨And.right, fun hi => ⟨hall i hi, hi⟩⟩
  · rw [bne_iff_ne, ne_zero_iff]
    simp only [isSet_and, and_comm]

/-- More bits satisfy no less. -/
theorem satisfiedBy_of_imp (h : ∀ i, IsSet mask i → IsSet bits i → IsSet bits' i)
    (hs : o.satisfiedBy bits mask = true) : o.satisfiedBy bits' mask = true := by
  rw [satisfiedBy_iff] at hs ⊢
  split
  · next hall =>
    rw [if_pos hall] at hs
    intro i hi
    exact h i hi (hs i hi)
  · next hall =>
    rw [if_neg hall] at hs
    have ⟨i, hi, hbit⟩ := hs
    exact ⟨i, hi, h i hi hbit⟩

/-- The end of a wait for a mask takes a bit along. -/
def Takes (o : WaitOptions) (mask : EventBits) (i : Nat) : Prop :=
  o.keepBits = false ∧ (IsSet mask i ∨ o.clearOnExit = true)

theorem isSet_leaves : IsSet (o.leaves bits mask) i ↔ IsSet bits i ∧ ¬ Takes o mask i := by
  unfold WaitOptions.leaves Takes
  cases o.keepBits with
  | true => simp
  | false =>
    cases o.clearOnExit with
    | true => simp [not_isSet_zero]
    | false => simp [isSet_and_not]

end Bits

/-! ## The end of a wait -/

section Ends

variable {s s' : Shared} {e : Event} {place : Nat} {t x : Task} {bits : EventBits}

/-- Between two states a wait has come to its end, and has returned `bits`. -/
structure Ends (s s' : Shared) (place : Nat) (t : Task) (bits : EventBits) : Prop where
  before : s.result place = none
  after : s'.tasks[place]? = some t
  result : t.result = some bits

/-- One task was put at its place, and the others are what they were. -/
def Puts (s s' : Shared) (place : Nat) (x : Task) : Prop :=
  ∀ k t, s'.tasks[k]? = some t → s.tasks[k]? = some t ∨ (k = place ∧ t = x)

theorem puts_append (s : Shared) (g : EventGroup) (x : Task) :
    Puts s ⟨g, s.tasks ++ [x]⟩ s.tasks.length x := by
  intro k t ht
  rw [List.getElem?_append] at ht
  split at ht
  · exact .inl ht
  · right
    have hk : k - s.tasks.length = 0 := by
      have hlt := (List.getElem?_eq_some_iff.mp ht).1
      simpa using hlt
    rw [hk] at ht
    have hx : x = t := by simpa using ht
    exact ⟨by omega, hx.symm⟩

theorem puts_set (s : Shared) (g : EventGroup) (place : Nat) (x : Task) :
    Puts s ⟨g, s.tasks.set place x⟩ place x := by
  intro k t ht
  rw [List.getElem?_set] at ht
  split at ht
  · next hk =>
    split at ht
    · exact .inr ⟨hk.symm, (Option.some.inj ht).symm⟩
    · cases ht
  · exact .inl ht

theorem result_of_getElem? (h : s.tasks[place]? = some t) : s.result place = t.result := by
  simp [Shared.result, h]

/-- If one task was put at its place, no other wait has ended. -/
theorem Ends.eq_of_puts {k : Nat} (h : Ends s s' k t bits) (hputs : Puts s s' place x) :
    k = place ∧ t = x := by
  rcases hputs k t h.after with ht | heq
  · have hnone := h.before
    rw [result_of_getElem? ht, h.result] at hnone
    cases hnone
  · exact heq

theorem not_ends_of_tasks (h : s'.tasks = s.tasks) : ¬ Ends s s' place t bits := by
  intro hends
  have hnone := hends.before
  rw [result_of_getElem? (h ▸ hends.after), hends.result] at hnone
  cases hnone

theorem result_wake (t : Task) : t.wake.result = t.result := by
  unfold Task.wake
  split
  · next h => simp [Task.result, h]
  · rfl

/-- A wake-up ends no wait. -/
theorem not_ends_wake (g : EventGroup) : ¬ Ends s ⟨g, s.tasks.map Task.wake⟩ place t bits := by
  rintro ⟨hbefore, hafter, hresult⟩
  rw [List.getElem?_map, Option.map_eq_some_iff] at hafter
  have ⟨u, hu, hwake⟩ := hafter
  rw [result_of_getElem? hu, ← result_wake, hwake, hresult] at hbefore
  cases hbefore

/-- What a step does to the bits: they are set or cleared by name, or left alone, or a wait
ends. -/
inductive Effect (s s' : Shared) : Event → Prop
  | set (mask : EventBits) (hbits : s'.group.bits = s.group.bits ||| mask)
      (hnone : ∀ place t bits, ¬ Ends s s' place t bits) : Effect s s' (.set mask)
  | clear (mask : EventBits) (hbits : s'.group.bits = s.group.bits &&& ~~~mask)
      (hnone : ∀ place t bits, ¬ Ends s s' place t bits) : Effect s s' (.clear mask)
  | none {e : Event} (hset : ∀ mask, e ≠ .set mask) (hclear : ∀ mask, e ≠ .clear mask)
      (hbits : s'.group.bits = s.group.bits) (hnone : ∀ place t bits, ¬ Ends s s' place t bits) :
      Effect s s' e
  | ends {e : Event} (hset : ∀ mask, e ≠ .set mask) (hclear : ∀ mask, e ≠ .clear mask)
      (place : Nat) (t : Task) (hends : Ends s s' place t s.group.bits)
      (hbits : s'.group.bits = t.call.options.leaves s.group.bits t.call.mask)
      (honly : ∀ k u bits, Ends s s' k u bits → u = t ∧ bits = s.group.bits)
      (hwhy : t.timeout = .none → s.group.satisfies t.call = true) : Effect s s' e

/-- A step that puts a task at its place which still waits. -/
theorem effect_of_blocked (hset : ∀ mask, e ≠ .set mask) (hclear : ∀ mask, e ≠ .clear mask)
    (hbits : s'.group.bits = s.group.bits) (hx : x.result = none) (hputs : Puts s s' place x) :
    Effect s s' e := by
  refine .none hset hclear hbits fun k t bits hends => ?_
  have ⟨_, ht⟩ := hends.eq_of_puts hputs
  have hresult := hends.result
  rw [ht, hx] at hresult
  cases hresult

/-- A step that puts a task at its place whose wait is over. -/
theorem effect_of_ended (hset : ∀ mask, e ≠ .set mask) (hclear : ∀ mask, e ≠ .clear mask)
    (hbits : s'.group.bits = x.call.options.leaves s.group.bits x.call.mask)
    (hends : Ends s s' place x s.group.bits)
    (hwhy : x.timeout = none → s.group.satisfies x.call = true) (hputs : Puts s s' place x) :
    Effect s s' e := by
  refine .ends hset hclear place x hends hbits (fun k u bits hends' => ?_) hwhy
  have ⟨_, hu⟩ := hends'.eq_of_puts hputs
  have hresult := hends'.result
  rw [hu, hends.result] at hresult
  exact ⟨hu, (Option.some.inj hresult).symm⟩

/-- A gate knows the tasks: it counts all that are blocked, those that sleep among them, and
has a wake-up for each that was woken. -/
structure Tally (g : Gate) (tasks : List Task) : Prop where
  waiting : g.waiting = tasks.countP Task.blocked
  asleep : g.asleep = tasks.countP (·.stage = .asleep)
  woken : g.woken = tasks.countP (·.stage = .woken)

/-- What everyone who waits can count on. -/
structure Sound (s : Shared) : Prop where
  /-- nobody sleeps who would be satisfied -/
  unsatisfied : ∀ t ∈ s.tasks, t.stage = .asleep → s.group.satisfies t.call = false
  /-- nobody's time is up who has no end of it -/
  timed : ∀ t ∈ s.tasks, t.stage = .late → t.timeout ≠ none
  tally : Tally s.group.gate s.tasks

theorem Move.effect (hm : Move s e s') (hs : Sound s) : Effect s s' e := by
  cases hm with
  | set mask => exact .set mask rfl fun _ _ _ => not_ends_wake _
  | clear mask => exact .clear mask rfl fun _ _ _ => not_ends_of_tasks rfl
  | inTime place | absent place =>
    exact .none (by simp) (by simp) rfl fun _ _ _ => not_ends_of_tasks rfl
  | slept c timeout hnot =>
    exact effect_of_blocked (by simp) (by simp) rfl rfl (puts_append s _ _)
  | late ht hasleep htimeout =>
    exact effect_of_blocked (by simp) (by simp) rfl rfl (puts_set s _ _ _)
  | again ht hwoken hnot =>
    exact effect_of_blocked (by simp) (by simp) rfl rfl (puts_set s _ _ _)
  | ended c timeout hwhy =>
    refine effect_of_ended (by simp) (by simp) rfl ?_ hwhy (puts_append s _ _)
    exact ⟨by simp [Shared.result], by simp, rfl⟩
  | @left place t ht gate hwhy =>
    have ⟨hlt, _⟩ := List.getElem?_eq_some_iff.mp ht
    refine effect_of_ended (x := { t with stage := .ended s.group.bits }) (by simp) (by simp) rfl
      ⟨?_, ?_, rfl⟩ (fun hnone => ?_) (puts_set s _ _ _)
    · rw [result_of_getElem? ht]
      rcases hwhy with ⟨hstage, _⟩ | ⟨hstage, _⟩ <;> simp [Task.result, hstage]
    · simp [List.getElem?_set_self hlt]
    · rcases hwhy with ⟨_, hsat, _⟩ | ⟨hlate, _⟩
      · exact hsat
      · exact absurd hnone (hs.timed t (List.mem_of_getElem? ht) hlate)

end Ends

/-! ## Sleepers and the gate -/

section Tally

variable {g : Gate} {tasks pre post : List Task} {t x : Task} {bits : EventBits}

theorem stage_wake_ne (t : Task) : t.wake.stage ≠ .asleep := by
  unfold Task.wake
  split
  · simp
  · next hnot => exact hnot

/-- What a task adds to the counts. -/
theorem tally_split : Tally g (pre ++ t :: post) ↔
    g.waiting = (pre ++ post).countP Task.blocked + (if t.blocked then 1 else 0) ∧
    g.asleep = (pre ++ post).countP (·.stage = .asleep) + (if t.stage = .asleep then 1 else 0) ∧
    g.woken = (pre ++ post).countP (·.stage = .woken) + (if t.stage = .woken then 1 else 0) := by
  have hsplit : Tally g (pre ++ t :: post) ↔
      g.waiting = (pre ++ t :: post).countP Task.blocked ∧
      g.asleep = (pre ++ t :: post).countP (·.stage = .asleep) ∧
      g.woken = (pre ++ t :: post).countP (·.stage = .woken) :=
    ⟨fun ⟨h1, h2, h3⟩ => ⟨h1, h2, h3⟩, fun ⟨h1, h2, h3⟩ => ⟨h1, h2, h3⟩⟩
  simp only [hsplit, Queue.countP_split, decide_eq_true_eq]

/-- A task comes and sleeps. -/
theorem Tally.slept (h : Tally g tasks) (hx : x.stage = .asleep) :
    Tally g.enter (tasks ++ [x]) := by
  obtain ⟨hwaiting, hsleeping, hwakeups⟩ := h
  refine tally_split.mpr ?_
  simp [Gate.enter, Gate.doze, Task.blocked, Task.result, hx, hwaiting, hsleeping, hwakeups]

/-- A task whose wait is over at once never comes behind the gate. -/
theorem Tally.passed (h : Tally g tasks) (hx : x.stage = .ended bits) :
    Tally g (tasks ++ [x]) := by
  obtain ⟨hwaiting, hsleeping, hwakeups⟩ := h
  refine tally_split.mpr ?_
  simp [Task.blocked, Task.result, hx, hwaiting, hsleeping, hwakeups]

/-- A sleeper whose time is up sleeps no more, and stays behind the gate until it resumes. -/
theorem Tally.late (h : Tally g (pre ++ t :: post)) (hasleep : t.stage = .asleep) :
    Tally g.giveUp (pre ++ { t with stage := .late } :: post) := by
  obtain ⟨hwaiting, hsleeping, hwakeups⟩ := tally_split.mp h
  simp [Task.blocked, Task.result, hasleep] at hwaiting hsleeping hwakeups
  refine tally_split.mpr ?_
  simp [Gate.giveUp, Task.blocked, Task.result, hwaiting, hsleeping, hwakeups]

/-- A woken task that is not satisfied has taken its wake-up. -/
theorem Tally.again (h : Tally g (pre ++ t :: post)) (hwoken : t.stage = .woken) :
    Tally g.take.doze (pre ++ { t with stage := .asleep } :: post) := by
  obtain ⟨hwaiting, hsleeping, hwakeups⟩ := tally_split.mp h
  simp [Task.blocked, Task.result, hwoken] at hwaiting hsleeping hwakeups
  refine tally_split.mpr ?_
  simp [Gate.take, Gate.doze, Task.blocked, Task.result, hwaiting, hsleeping, hwakeups]

/-- A woken task whose wait is over takes its wake-up along. -/
theorem Tally.left (h : Tally g (pre ++ t :: post)) (hwoken : t.stage = .woken)
    (hx : x.stage = .ended bits) : Tally g.take.leave (pre ++ x :: post) := by
  obtain ⟨hwaiting, hsleeping, hwakeups⟩ := tally_split.mp h
  simp [Task.blocked, Task.result, hwoken] at hwaiting hsleeping hwakeups
  refine tally_split.mpr ?_
  simp [Gate.take, Gate.leave, Task.blocked, Task.result, hx, hwaiting, hsleeping, hwakeups]

theorem Tally.leftLate (h : Tally g (pre ++ t :: post)) (hlate : t.stage = .late)
    (hx : x.stage = .ended bits) : Tally g.leave (pre ++ x :: post) := by
  obtain ⟨hwaiting, hsleeping, hwakeups⟩ := tally_split.mp h
  simp [Task.blocked, Task.result, hlate] at hwaiting hsleeping hwakeups
  refine tally_split.mpr ?_
  simp [Gate.leave, Task.blocked, Task.result, hx, hwaiting, hsleeping, hwakeups]

/-- Everybody who sleeps is woken, and each finds a wake-up at the gate. -/
theorem Tally.wake (h : Tally g tasks) : Tally g.notifyAll (tasks.map Task.wake) := by
  have hwoken : ∀ tasks : List Task, (tasks.map Task.wake).countP (·.stage = .woken) =
      tasks.countP (·.stage = .woken) + tasks.countP (·.stage = .asleep) := by
    intro tasks
    induction tasks with
    | nil => rfl
    | cons t tasks ih =>
      rw [List.map_cons, List.countP_cons, List.countP_cons, List.countP_cons, ih]
      cases hstage : t.stage <;> simp [Task.wake, hstage] <;> omega
  refine ⟨?_, ?_, ?_⟩
  · rw [List.countP_map]
    refine h.waiting.trans (congrArg (tasks.countP ·) ?_)
    funext t
    simp [Task.blocked, result_wake]
  · refine (List.countP_eq_zero.mpr fun t ht => ?_).symm
    obtain ⟨u, -, hwake⟩ := List.mem_map.mp ht
    simpa [← hwake] using stage_wake_ne u
  · rw [hwoken, ← h.woken, ← h.asleep]
    rfl

end Tally

section Sound

variable {s s' : Shared} {e : Event} {place : Nat} {t x : Task}

theorem sound_new : Sound {} := ⟨by simp, by simp, rfl, rfl, rfl⟩

/-- Whoever is not satisfied is not satisfied by less. -/
theorem not_satisfies_of_imp {g g' : EventGroup} {c : Call}
    (h : ∀ i, IsSet g'.bits i → IsSet g.bits i) (hnot : g.satisfies c = false) :
    g'.satisfies c = false := by
  by_contra hsat
  rw [Bool.not_eq_false] at hsat
  have hmore : g.satisfies c = true := satisfiedBy_of_imp (fun i _ => h i) hsat
  rw [hnot] at hmore
  cases hmore

theorem Sound.set (h : Sound s) (mask : EventBits) :
    Sound ⟨s.group.set mask, s.tasks.map Task.wake⟩ := by
  refine ⟨fun t ht hasleep => ?_, fun t ht hlate => ?_, h.tally.wake⟩
  · -- nobody sleeps any more
    have ⟨u, _, hwake⟩ := List.mem_map.mp ht
    exact absurd (hwake ▸ hasleep) (stage_wake_ne u)
  · have ⟨u, hu, hwake⟩ := List.mem_map.mp ht
    rw [← hwake, Task.wake] at hlate ⊢
    split at hlate
    · cases hlate
    · next hnot =>
      rw [if_neg hnot]
      exact h.timed u hu hlate

theorem Sound.clear (h : Sound s) (mask : EventBits) :
    Sound { s with group := s.group.clear mask } := by
  refine ⟨fun t ht hasleep => ?_, h.timed, h.tally⟩
  refine not_satisfies_of_imp (fun i hi => ?_) (h.unsatisfied t ht hasleep)
  exact (isSet_and_not.mp hi).1

/-- One more task waits, or has waited, and the bits are no more than they were. -/
theorem Sound.append {g : EventGroup} (h : Sound s)
    (hbits : ∀ i, IsSet g.bits i → IsSet s.group.bits i)
    (hasleep : x.stage = .asleep → g.satisfies x.call = false) (hlate : x.stage ≠ .late)
    (htally : Tally g.gate (s.tasks ++ [x])) : Sound ⟨g, s.tasks ++ [x]⟩ := by
  refine ⟨fun u hu hu' => ?_, fun u hu hu' => ?_, htally⟩
  · rcases List.mem_append.mp hu with hu | hu
    · exact not_satisfies_of_imp hbits (h.unsatisfied u hu hu')
    · rw [List.mem_singleton.mp hu] at hu' ⊢
      exact hasleep hu'
  · rcases List.mem_append.mp hu with hu | hu
    · exact h.timed u hu hu'
    · exact absurd (List.mem_singleton.mp hu ▸ hu') hlate

/-- A task has changed at its place, and the bits are no more than they were. -/
theorem Sound.put {g : EventGroup} (h : Sound s) (ht : s.tasks[place]? = some t)
    (hbits : ∀ i, IsSet g.bits i → IsSet s.group.bits i)
    (hasleep : x.stage = .asleep → g.satisfies x.call = false)
    (hlate : x.stage = .late → x.timeout ≠ none)
    (htally : ∀ pre post, Tally s.group.gate (pre ++ t :: post) →
      Tally g.gate (pre ++ x :: post)) :
    Sound ⟨g, s.tasks.set place x⟩ := by
  refine ⟨fun u hu hu' => ?_, fun u hu hu' => ?_, ?_⟩
  · rcases List.mem_or_eq_of_mem_set hu with hu | rfl
    · exact not_satisfies_of_imp hbits (h.unsatisfied u hu hu')
    · exact hasleep hu'
  · rcases List.mem_or_eq_of_mem_set hu with hu | rfl
    · exact h.timed u hu hu'
    · exact hlate hu'
  · have ⟨pre, post, htasks, _, hset, _⟩ := Queue.split_at ht
    have hbefore := h.tally
    rw [htasks] at hbefore
    rw [hset]
    exact htally pre post hbefore

theorem Sound.move (h : Sound s) (hm : Move s e s') : Sound s' := by
  cases hm with
  | set mask => exact h.set mask
  | clear mask => exact h.clear mask
  | inTime | absent => exact h
  | slept c timeout hnot =>
    exact h.append (fun i hi => hi) (fun _ => hnot) (by simp) (h.tally.slept rfl)
  | ended c timeout hwhy =>
    -- it never came behind the gate
    exact h.append (fun i hi => (isSet_leaves.mp hi).1) (by simp) (by simp) (h.tally.passed rfl)
  | late ht hasleep htimeout =>
    exact h.put ht (fun i hi => hi) (by simp) (fun _ => htimeout) fun _ _ htally =>
      htally.late hasleep
  | again ht hwoken hnot =>
    exact h.put ht (fun i hi => hi) (fun _ => hnot) (by simp) fun _ _ htally =>
      htally.again hwoken
  | left ht gate hwhy =>
    refine h.put ht (fun i hi => (isSet_leaves.mp hi).1) (by simp) (by simp) fun _ _ htally => ?_
    rcases hwhy with ⟨hwoken, _, hgate⟩ | ⟨hlate, hgate⟩ <;> rw [hgate]
    · exact htally.left hwoken rfl
    · exact htally.leftLate hlate rfl

theorem Sound.move_step (h : Sound s) (e : Event) : Move s e (s.step e) :=
  EventGroup.move_step h.tally.asleep e

theorem Sound.run (h : Sound s) (events : List Event) : Sound (s.run events) := by
  induction events generalizing s with
  | nil => exact h
  | cons e events ih => exact ih (h.move (h.move_step e))

theorem sound_run (events : List Event) : Sound (Shared.run {} events) := sound_new.run events

end Sound

/-! ## Runs -/

section Runs

variable {s s' : Shared} {e : Event} {place i : Nat} {t : Task} {bits : EventBits}

/-- The wait that an event begins. -/
def Event.asks : Event → Option (Call × Timeout)
  | .wait call timeout => some (call, timeout)
  | _ => none

/-- What a task waits for, and how long. -/
def Task.asked (t : Task) : Call × Timeout := (t.call, t.timeout)

theorem asked_wake (t : Task) : t.wake.asked = t.asked := by
  unfold Task.wake
  split <;> rfl

theorem map_asked_set {x : Task} (ht : s.tasks[place]? = some t) (hx : x.asked = t.asked) :
    (s.tasks.set place x).map Task.asked = s.tasks.map Task.asked := by
  have ⟨pre, post, htasks, _, hset, _⟩ := Queue.split_at ht
  rw [hset, htasks]
  simp [hx]

/-- No step changes what a task waits for. -/
theorem Move.asked (hm : Move s e s') :
    s'.tasks.map Task.asked = s.tasks.map Task.asked ++ e.asks.toList := by
  cases hm with
  | set mask => simp [Event.asks, asked_wake]
  | clear | inTime | absent => simp [Event.asks]
  | slept | ended => simp [Event.asks, Task.asked]
  | late ht | again ht | left ht =>
    refine (map_asked_set ht ?_).trans (List.append_nil _).symm
    rfl

/-- A wait that is over stays over, with what it has returned. -/
theorem Move.stays_ended (hm : Move s e s') (ht : s.tasks[place]? = some t)
    (hresult : t.result = some bits) : s'.tasks[place]? = some t := by
  have hlt := (List.getElem?_eq_some_iff.mp ht).1
  have hstays : ∀ {k u x}, s.tasks[k]? = some u → u.result = none →
      (s.tasks.set k x)[place]? = some t := by
    intro k u x hu hnone
    rw [List.getElem?_set_ne, ht]
    rintro rfl
    rw [ht] at hu
    rw [← Option.some.inj hu, hresult] at hnone
    cases hnone
  cases hm with
  | set mask =>
    have hwake : t.wake = t := by
      refine if_neg fun hasleep => ?_
      simp [Task.result, hasleep] at hresult
    simp [ht, hwake]
  | clear | inTime | absent => exact ht
  | slept | ended => simpa [List.getElem?_append_left hlt] using ht
  | late hu hasleep => exact hstays hu (by simp [Task.result, hasleep])
  | again hu hwoken => exact hstays hu (by simp [Task.result, hwoken])
  | left hu gate hwhy =>
    rcases hwhy with ⟨hstage, _⟩ | ⟨hstage, _⟩ <;>
      exact hstays hu (by simp [Task.result, hstage])

/-- An event sets a bit. -/
def Sets (i : Nat) (_ : List Event) (e : Event) : Prop := ∃ mask, e = .set mask ∧ IsSet mask i

/-- An event takes a bit away: it clears the bit by name, or it ends a wait that takes the bit
along. -/
def Removes (i : Nat) (before : List Event) (e : Event) : Prop :=
  (∃ mask, e = .clear mask ∧ IsSet mask i) ∨
  ∃ place t bits, Ends (Shared.run {} before) (Shared.run {} (before ++ [e])) place t bits ∧
    Takes t.call.options t.call.mask i

theorem isSet_snoc (i : Nat) (events : List Event) (e : Event) :
    IsSet (Shared.run {} (events ++ [e])).group.bits i ↔
      Sets i events e ∨ (IsSet (Shared.run {} events).group.bits i ∧ ¬ Removes i events e) := by
  have hs := sound_run events
  have heffect := (hs.move_step e).effect hs
  unfold Removes
  rw [Shared.run_snoc]
  generalize Shared.run {} events = s at heffect ⊢
  cases heffect with
  | set mask hbits hnone => simp [hbits, isSet_or, Sets, hnone, or_comm]
  | clear mask hbits hnone => simp [hbits, isSet_and_not, Sets, hnone]
  | none hset hclear hbits hnone => simp [hbits, Sets, hset, hclear, hnone]
  | ends hset hclear place t hends hbits honly hwhy =>
    have htakes : (∃ place u bits, Ends s (s.step e) place u bits ∧
        Takes u.call.options u.call.mask i) ↔ Takes t.call.options t.call.mask i := by
      constructor
      · rintro ⟨k, u, bits, hends', htakes⟩
        rwa [← (honly k u bits hends').1]
      · intro htakes
        exact ⟨place, t, _, hends, htakes⟩
    rw [htakes, hbits, isSet_leaves]
    simp [Sets, hset, hclear]

/-- A wait ends as it should: it returns the bits as it finds them, then takes some along, and
it is satisfied unless it had a timeout. -/
structure Returns (s s' : Shared) (place : Nat) (t : Task) (bits : EventBits) : Prop where
  ends : Ends s s' place t bits
  found : bits = s.group.bits
  leaves : s'.group.bits = t.call.options.leaves bits t.call.mask
  satisfied : t.timeout = none → t.call.options.satisfiedBy bits t.call.mask = true

theorem Effect.returns (heffect : Effect s s' e) (h : Ends s s' place t bits) :
    Returns s s' place t bits := by
  cases heffect with
  | set mask hbits hnone | clear mask hbits hnone | none hset hclear hbits hnone =>
    exact absurd h (hnone place t bits)
  | ends hset hclear k u hends hbits honly hwhy =>
    have ⟨ht, hfound⟩ := honly place t bits h
    refine ⟨h, hfound, ?_, ?_⟩
    · rw [ht, hfound, hbits]
    · rw [ht, hfound]
      exact hwhy

/-- A wait of a run ends at an event, after others. -/
def ReturnsAt (before : List Event) (e : Event) (place : Nat) (t : Task) (bits : EventBits) :
    Prop :=
  Returns (Shared.run {} before) (Shared.run {} (before ++ [e])) place t bits

/-- A wait that is over came to its end at some event. -/
theorem exists_returnsAt {events : List Event}
    (ht : (Shared.run {} events).tasks[place]? = some t) (hresult : t.result = some bits) :
    ∃ before e after, events = before ++ e :: after ∧ ReturnsAt before e place t bits := by
  let P events := (Shared.run {} events).tasks[place]? = some t
  have hsince : P events ↔ Since (fun before e => ReturnsAt before e place t bits)
      (fun _ _ => False) events := by
    refine iff_since (P := P) (by simp [P, Shared.run]) (fun events e => ?_) events
    have hmove := (sound_run events).move_step e
    unfold P ReturnsAt
    rw [Shared.run_snoc]
    constructor
    · intro hafter
      cases hbefore : (Shared.run {} events).result place with
      | none => exact .inl ((hmove.effect (sound_run events)).returns ⟨hbefore, hafter, hresult⟩)
      | some bits' =>
        -- it was over before, and it still is what it was
        have ⟨u, hu, hended⟩ := Option.bind_eq_some_iff.mp hbefore
        have hstays := hmove.stays_ended hu hended
        rw [hafter] at hstays
        rw [hu, hstays]
        exact .inr ⟨rfl, id⟩
    · rintro (hreturns | ⟨hended, _⟩)
      · exact hreturns.ends.after
      · exact hmove.stays_ended hended hresult
  have ⟨before, e, after, hevents, hreturns, _⟩ := hsince.mp ht
  exact ⟨before, e, after, hevents, hreturns⟩

theorem asked_run (events : List Event) :
    (Shared.run {} events).tasks.map Task.asked = events.filterMap Event.asks := by
  induction events using List.reverseRecOn with
  | nil => rfl
  | append_singleton events e ih =>
    rw [Shared.run_snoc, ((sound_run events).move_step e).asked, ih, List.filterMap_append]
    cases hasks : e.asks <;> simp [hasks]

/-- A woken task finds its wake-up at the gate, so it can resume. -/
theorem Sound.ready (h : Sound s) (ht : t ∈ s.tasks) (hwoken : t.stage = .woken) :
    Blocking.ready s.group t.call = true := by
  have hpos : 0 < s.tasks.countP (·.stage = .woken) :=
    List.countP_pos_iff.mpr ⟨t, ht, by simpa using hwoken⟩
  rw [← h.tally.woken] at hpos
  exact decide_eq_true hpos

/-- All that is said of the waits of a run. -/
structure Exact (events : List Event) : Prop where
  /-- every wait has a task, which waits for what it was to wait for -/
  asked : (Shared.run {} events).tasks.map Task.asked = events.filterMap Event.asks
  /-- a bit is set exactly since it was last set, if it was not taken away again -/
  bits : ∀ i, IsSet (Shared.run {} events).group.bits i ↔ Since (Sets i) (Removes i) events
  /-- every wait that is over has ended as it should -/
  returned : ∀ place t bits, (Shared.run {} events).tasks[place]? = some t →
    t.result = some bits →
    ∃ before e after, events = before ++ e :: after ∧ ReturnsAt before e place t bits
  /-- a bit that is lost was cleared by name, or a wait has returned it and taken it along -/
  lost : ∀ e i, IsSet (Shared.run {} events).group.bits i →
    ¬ IsSet (Shared.run {} (events ++ [e])).group.bits i →
    (∃ mask, e = .clear mask ∧ IsSet mask i) ∨
    ∃ place t bits, ReturnsAt events e place t bits ∧ IsSet bits i ∧
      Takes t.call.options t.call.mask i
  /-- if nobody is about to resume, nobody who waits is satisfied -/
  unsatisfied : (∀ t ∈ (Shared.run {} events).tasks, t.stage ≠ .woken ∧ t.stage ≠ .late) →
    ∀ t ∈ (Shared.run {} events).tasks, t.blocked = true →
      (Shared.run {} events).group.satisfies t.call = false
  /-- nobody sleeps who would be satisfied, whoever else is about to resume -/
  asleep : ∀ t ∈ (Shared.run {} events).tasks, t.stage = .asleep →
    (Shared.run {} events).group.satisfies t.call = false
  ready : ∀ t ∈ (Shared.run {} events).tasks, t.stage = .woken →
    Blocking.ready (Shared.run {} events).group t.call = true
  waiters : (Shared.run {} events).group.waiters = (Shared.run {} events).tasks.countP Task.blocked

/-- Whatever tasks set, clear and wait for, and in whatever order they resume, bits are lost
only to those who clear them or return them, and nobody waits for what is there. -/
theorem waits_are_exact (events : List Event) : Exact events := by
  have hs := sound_run events
  have hbits : ∀ i, IsSet (Shared.run {} events).group.bits i ↔ Since (Sets i) (Removes i) events :=
    fun i => iff_since (P := fun events => IsSet (Shared.run {} events).group.bits i)
      (not_isSet_zero i) (isSet_snoc i) events
  refine ⟨asked_run events, hbits, fun place t bits => exists_returnsAt, fun e i hset hnot => ?_,
    fun hrest t ht hblocked => ?_, hs.unsatisfied, fun t => hs.ready, hs.tally.waiting⟩
  · have hremoves : Removes i events e := by
      by_contra hkept
      exact hnot ((isSet_snoc i events e).mpr (.inr ⟨hset, hkept⟩))
    rcases hremoves with hclear | ⟨place, t, bits, hends, htakes⟩
    · exact .inl hclear
    · have heffect := (hs.move_step e).effect hs
      rw [← Shared.run_snoc] at heffect
      have hreturns := heffect.returns hends
      exact .inr ⟨place, t, bits, hreturns, hreturns.found ▸ hset, htakes⟩
  · have ⟨hwoken, hlate⟩ := hrest t ht
    refine hs.unsatisfied t ht ?_
    cases hstage : t.stage with
    | asleep => rfl
    | woken => exact absurd hstage hwoken
    | late => exact absurd hstage hlate
    | ended bits => simp [Task.blocked, Task.result, hstage] at hblocked

-- two tasks wait for one bit: both are woken, one takes it, and the other sleeps again
example :
    (Shared.run {} [.wait ⟨1, {}⟩ none, .wait ⟨1, {}⟩ none, .set 1, .resume 1,
      .resume 0]).tasks.map Task.stage = [.asleep, .ended 1] := by
  decide

end Runs

end EventGroup

end Netstack
