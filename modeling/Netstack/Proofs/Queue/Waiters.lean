import Netstack.Proofs.Queue.Copying
import Netstack.Proofs.Queue.Tasks

/-
The gates of a queue count the tasks that wait.

`Tally` ties a gate to the tasks on its side: it counts all of them, whether they sleep or are
about to resume, it knows how many sleep, and for each that was woken there is a wake-up.
Whatever a task does to its gate keeps the tally, and a task on one side does not show in the
tally of the other. So both gates stay right in every run, every wake-up that is sent reaches a
task, the queue knows how many tasks wait, and it is neither emptied nor retired under any of
them.
-/

set_option autoImplicit false

namespace Netstack

namespace Queue

section Tally

variable {ι δ : Type} {σ : Side} {g : Gate} {tasks pre post : List (Task ι δ)} {t : Task ι δ}

/-- A gate knows the tasks on a side: it counts all of them, those that sleep among them, and
has a wake-up for each that was woken. -/
structure Tally (σ : Side) (g : Gate) (tasks : List (Task ι δ)) : Prop where
  waiting : g.waiting = tasks.countP (·.waitsAt σ)
  asleep : g.asleep = tasks.countP (·.sleepsAt σ)
  woken : g.woken = tasks.countP (·.wokenAt σ)

theorem tally_nil (σ : Side) : Tally σ {} ([] : List (Task ι δ)) := ⟨rfl, rfl, rfl⟩

/-- A task on the other side does not show. -/
theorem tally_of_ne (h : t.side ≠ σ) : Tally σ g (pre ++ t :: post) ↔ Tally σ g (pre ++ post) := by
  have hcount : ∀ p : Task ι δ → Bool, p t = false →
      (pre ++ t :: post).countP p = (pre ++ post).countP p := by
    intro p hp
    rw [countP_split, hp, if_neg Bool.false_ne_true, Nat.add_zero]
  have hwaits := hcount (·.waitsAt σ) (decide_eq_false h)
  have hsleeps := hcount (·.sleepsAt σ) (decide_eq_false fun hside => h hside.1)
  have hwoken := hcount (·.wokenAt σ) (decide_eq_false fun hside => h hside.1)
  constructor
  · intro ⟨h1, h2, h3⟩
    exact ⟨h1.trans hwaits, h2.trans hsleeps, h3.trans hwoken⟩
  · intro ⟨h1, h2, h3⟩
    exact ⟨h1.trans hwaits.symm, h2.trans hsleeps.symm, h3.trans hwoken.symm⟩

/-- What a task adds to the counts of its own side. -/
theorem tally_split : Tally t.side g (pre ++ t :: post) ↔
    g.waiting = (pre ++ post).countP (·.waitsAt t.side) + 1 ∧
    g.asleep = (pre ++ post).countP (·.sleepsAt t.side) + (if t.mode = .asleep then 1 else 0) ∧
    g.woken = (pre ++ post).countP (·.wokenAt t.side) + (if t.mode = .woken then 1 else 0) := by
  have hsplit : Tally t.side g (pre ++ t :: post) ↔
      g.waiting = (pre ++ t :: post).countP (·.waitsAt t.side) ∧
      g.asleep = (pre ++ t :: post).countP (·.sleepsAt t.side) ∧
      g.woken = (pre ++ t :: post).countP (·.wokenAt t.side) :=
    ⟨fun ⟨h1, h2, h3⟩ => ⟨h1, h2, h3⟩, fun ⟨h1, h2, h3⟩ => ⟨h1, h2, h3⟩⟩
  simp only [hsplit, countP_split, Task.waitsAt_iff, Task.sleepsAt_iff, Task.wokenAt_iff, true_and,
    if_true]

/-- A task comes and sleeps. -/
theorem Tally.slept (h : Tally t.side g tasks) (hasleep : t.mode = .asleep) :
    Tally t.side g.enter (tasks ++ [t]) := by
  obtain ⟨hwaiting, hsleeping, hwoken⟩ := h
  refine tally_split.mpr ?_
  simp [Gate.enter, Gate.doze, hasleep, hwaiting, hsleeping, hwoken]

/-- A sleeper whose time is up sleeps no more, and keeps its place at the gate. -/
theorem Tally.late (h : Tally t.side g (pre ++ t :: post)) (hasleep : t.mode = .asleep) :
    Tally t.side g.giveUp (pre ++ { t with mode := .late } :: post) := by
  obtain ⟨hwaiting, hsleeping, hwoken⟩ := tally_split.mp h
  simp only [hasleep, if_true, reduceCtorEq, if_false, Nat.add_zero] at hsleeping hwoken
  rw [Gate.giveUp_of_pos (hsleeping ▸ Nat.succ_pos _)]
  exact (tally_split (t := { t with mode := .late })).mpr
    ⟨hwaiting, congrArg (· - 1) hsleeping, hwoken⟩

/-- A woken task has its wake-up at the gate, and the rest are for others. -/
theorem Tally.take (h : Tally t.side g (pre ++ t :: post)) (hwoken : t.mode = .woken) :
    g.take.waiting = (pre ++ post).countP (·.waitsAt t.side) + 1 ∧
    g.take.asleep = (pre ++ post).countP (·.sleepsAt t.side) ∧
    g.take.woken = (pre ++ post).countP (·.wokenAt t.side) := by
  obtain ⟨hwaiting, hsleeping, hwakeups⟩ := tally_split.mp h
  simp only [hwoken, if_true, reduceCtorEq, if_false, Nat.add_zero] at hsleeping hwakeups
  rw [Gate.take_of_pos (hwakeups ▸ Nat.succ_pos _)]
  exact ⟨hwaiting, hsleeping, congrArg (· - 1) hwakeups⟩

/-- A task that goes back to sleep has taken its wake-up. -/
theorem Tally.again (h : Tally t.side g (pre ++ t :: post)) (hwoken : t.mode = .woken) :
    Tally t.side g.take.doze (pre ++ { t with mode := .asleep } :: post) := by
  obtain ⟨hwaiting, hsleeping, hwakeups⟩ := h.take hwoken
  exact (tally_split (t := { t with mode := .asleep })).mpr
    ⟨hwaiting, congrArg (· + 1) hsleeping, hwakeups⟩

/-- A task that leaves is no longer counted, and takes its wake-up along if it has one. -/
theorem Tally.left (h : Tally t.side g (pre ++ t :: post)) (hup : t.mode ≠ .asleep) :
    Tally t.side (t.exit g) (pre ++ post) := by
  cases hmode : t.mode with
  | asleep => exact absurd hmode hup
  | woken =>
    obtain ⟨hwaiting, hsleeping, hwakeups⟩ := h.take hmode
    rw [Task.exit, if_pos hmode]
    exact ⟨congrArg (· - 1) hwaiting, hsleeping, hwakeups⟩
  | late =>
    obtain ⟨hwaiting, hsleeping, hwakeups⟩ := tally_split.mp h
    simp only [hmode, reduceCtorEq, if_false, Nat.add_zero] at hsleeping hwakeups
    rw [Task.exit, if_neg (by simp [hmode])]
    exact ⟨congrArg (· - 1) hwaiting, hsleeping, hwakeups⟩

/-- A wake-up that is sent to the gate goes to a sleeper, and is lost if there is none. -/
theorem Tally.wakeOne (h : Tally σ g tasks) (pick : Nat) :
    Tally σ g.notifyOne (wakeOne σ pick tasks) := by
  obtain ⟨pre, t, post, rfl, hsleeps, hwake⟩ | ⟨hnone, hwake⟩ := wakeOne_cases σ pick tasks <;>
    rw [hwake]
  · obtain ⟨rfl, hasleep⟩ := Task.sleepsAt_iff.mp hsleeps
    obtain ⟨hwaiting, hsleeping, hwakeups⟩ := tally_split.mp h
    simp only [hasleep, if_true, reduceCtorEq, if_false, Nat.add_zero] at hsleeping hwakeups
    rw [Gate.notifyOne_of_pos (hsleeping ▸ Nat.succ_pos _)]
    exact (tally_split (t := t.wake)).mpr
      ⟨hwaiting, congrArg (· - 1) hsleeping, congrArg (· + 1) hwakeups⟩
  · have hzero : tasks.countP (·.sleepsAt σ) = 0 := by
      refine List.countP_eq_zero.mpr fun t ht => ?_
      rw [hnone t ht]
      exact Bool.false_ne_true
    rw [Gate.notifyOne_of_eq_zero (h.asleep.trans hzero)]
    exact h

end Tally

/-! ## Steps and runs -/

section Runs

variable {S ι δ ρ : Type} [Storage S ι δ ρ] {s s' : Shared S ι δ} {e : Event ι δ}

/-- Both gates know their tasks, and there are none when the queue is out of service. -/
structure Accounted (s : Shared S ι δ) : Prop where
  tally : ∀ σ, Tally σ (s.queue.ring.gate σ) s.blocked
  destroyed : s.queue.ring.destroyed = true → s.blocked = []

theorem length_eq_waiting (tasks : List (Task ι δ)) :
    tasks.length = tasks.countP (·.waitsAt .room) + tasks.countP (·.waitsAt .items) := by
  rw [List.length_eq_countP_add_countP (·.waitsAt .room)]
  congr 1
  refine List.countP_congr fun t _ => ?_
  cases hside : t.side <;> simp [hside]

theorem Accounted.waiters (h : Accounted s) : s.queue.waiters = s.blocked.length := by
  rw [length_eq_waiting, ← (h.tally .room).waiting, ← (h.tally .items).waiting]
  rfl

omit [Storage S ι δ ρ] in
theorem Fresh.accounted {q : Queue S} (h : q.Fresh) :
    Accounted ({ queue := q } : Shared S ι δ) := by
  constructor
  · intro σ
    show Tally σ (q.ring.gate σ) []
    rw [h.ring]
    cases σ <;> exact tally_nil _
  · intro _
    rfl

/-- A step that changes one gate needs a new tally for both, since the tasks have changed. -/
theorem tally_mapGate {tasks : List (Task ι δ)} {r : Ring} {σ : Side} {f : Gate → Gate}
    (hown : Tally σ (f (r.gate σ)) tasks) (hother : Tally σ.opposite (r.gate σ.opposite) tasks)
    (τ : Side) : Tally τ ((r.mapGate σ f).gate τ) tasks := by
  obtain rfl | rfl := σ.eq_or_eq_opposite τ
  · rwa [Ring.gate_mapGate_self]
  · rwa [Ring.gate_mapGate_opposite]

/-- A task that has changed its own gate, or left it, shows nothing at the other. -/
theorem tally_elsewhere {g : Gate} {pre post : List (Task ι δ)} {t : Task ι δ}
    (h : Tally t.side.opposite g (pre ++ t :: post)) : Tally t.side.opposite g (pre ++ post) :=
  (tally_of_ne t.side.opposite_ne.symm).mp h

theorem tally_serves {tasks : List (Task ι δ)} {r r' : Ring} {σ : Side}
    (h : ∀ τ, Tally τ (r.gate τ) tasks) (hserves : r.Serves σ r') (pick : Nat) (τ : Side) :
    Tally τ (r'.gate τ) (wakeOne σ.opposite pick tasks) := by
  obtain rfl | rfl := σ.eq_or_eq_opposite τ
  · rw [hserves.own]
    exact wakeOne_elsewhere tally_of_ne (h _) pick
  · rw [hserves.other]
    exact (h _).wakeOne pick

/-- Where a task waits, the queue is in service. -/
theorem Accounted.in_service (h : Accounted s) {pre post : List (Task ι δ)} {t : Task ι δ}
    (hblocked : s.blocked = pre ++ t :: post) : s.queue.ring.destroyed = false := by
  cases hd : s.queue.ring.destroyed with
  | false => rfl
  | true =>
    rw [h.destroyed hd] at hblocked
    simp at hblocked

theorem Accounted.move (h : Accounted s) (hm : Move s e s') : Accounted s' := by
  cases hm with
  | idle => exact h
  | served σ pick hd hserves =>
    refine ⟨tally_serves h.tally hserves pick, fun hd' => ?_⟩
    rw [hserves.destroyed, hd] at hd'
    cases hd'
  | slept c hd hnone =>
    refine ⟨tally_mapGate ((h.tally _).slept (t := { call := c }) rfl) ?_, fun hd' => ?_⟩
    · rw [tally_of_ne (t := { call := c }) c.side.opposite_ne.symm, List.append_nil]
      exact h.tally _
    · rw [ring_mapGate, Ring.destroyed_mapGate, hd] at hd'
      cases hd'
  | @late pre post t hblocked hasleep =>
    have htally := hblocked ▸ h.tally
    refine ⟨tally_mapGate ((htally _).late hasleep) ?_, fun hd' => ?_⟩
    · rw [tally_of_ne (t := { t with mode := .late }) t.side.opposite_ne.symm]
      exact tally_elsewhere (htally _)
    · rw [ring_mapGate, Ring.destroyed_mapGate, h.in_service hblocked] at hd'
      cases hd'
  | @again pre post t hblocked hwoken hnone =>
    have htally := hblocked ▸ h.tally
    refine ⟨tally_mapGate ((htally _).again hwoken) ?_, fun hd' => ?_⟩
    · rw [tally_of_ne (t := { t with mode := .asleep }) t.side.opposite_ne.symm]
      exact tally_elsewhere (htally _)
    · rw [ring_mapGate, Ring.destroyed_mapGate, h.in_service hblocked] at hd'
      cases hd'
  | left hblocked hup hwhy =>
    have htally := hblocked ▸ h.tally
    refine ⟨tally_mapGate ((htally _).left hup) (tally_elsewhere (htally _)), fun hd' => ?_⟩
    rw [ring_mapGate, Ring.destroyed_mapGate, h.in_service hblocked] at hd'
    cases hd'
  | leftServed hblocked hup pick hd hserves =>
    have htally := hblocked ▸ h.tally
    have hleft := tally_mapGate ((htally _).left hup) (tally_elsewhere (htally _))
    refine ⟨tally_serves hleft hserves pick, fun hd' => ?_⟩
    rw [hserves.destroyed, Ring.destroyed_mapGate, hd] at hd'
    cases hd'
  | emptied hidle hgate =>
    refine ⟨fun τ => hgate τ ▸ h.tally τ, fun _ => ?_⟩
    rw [h.waiters] at hidle
    exact List.eq_nil_of_length_eq_zero hidle

/-- A woken task finds its wake-up at the gate, so it can resume. -/
theorem Accounted.ready (h : Accounted s) {t : Task ι δ} (ht : t ∈ s.blocked)
    (hwoken : t.mode = .woken) : Blocking.ready s.queue t.call = true := by
  have hpos : 0 < s.blocked.countP (·.wokenAt t.side) :=
    List.countP_pos_iff.mpr ⟨t, ht, Task.wokenAt_iff.mpr ⟨rfl, hwoken⟩⟩
  rw [← (h.tally t.side).woken] at hpos
  obtain ⟨call, mode⟩ := t
  cases call <;> exact decide_eq_true hpos

/-- What every state of a run has: the gates count the tasks, and the entries fit. -/
structure Sound (s : Shared S ι δ) : Prop where
  accounted : Accounted s
  bounded : s.queue.Bounded

theorem Fresh.sound {q : Queue S} (h : q.Fresh) : Sound ({ queue := q } : Shared S ι δ) := by
  refine ⟨h.accounted, h.capacity, ?_⟩
  rw [h.ring]
  exact Nat.zero_le _

theorem Sound.move_step (h : Sound s) (e : Event ι δ) : Move s e (s.step e) :=
  Queue.move_step h.bounded.fits (fun σ => (h.accounted.tally σ).asleep) e

theorem Sound.step (h : Sound s) (e : Event ι δ) : Sound (s.step e) :=
  ⟨h.accounted.move (h.move_step e), Shared.stable_step stable_bounded h.bounded e⟩

theorem Sound.run (h : Sound s) (events : List (Event ι δ)) : Sound (s.run events) := by
  induction events generalizing s with
  | nil => exact h
  | cons e events ih => exact ih (h.step e)

/-! ## What the queue says about its tasks -/

/-- A queue knows how many tasks wait on it, and can be emptied or retired exactly if none
does; it is unchanged, and so are the tasks, if that is refused. -/
structure Exact (s : Shared S ι δ) : Prop where
  waiters : s.queue.waiters = s.blocked.length
  clear : s.queue.clear.2 = .error .resourceInUse ↔
    0 < s.blocked.length ∧ s.queue.ring.destroyed = false
  destroy : s.queue.destroy.2 = .error .resourceInUse ↔
    0 < s.blocked.length ∧ s.queue.ring.destroyed = false
  clear_refused : s.queue.clear.2 = .error .resourceInUse → s.step .clear = s
  destroy_refused : s.queue.destroy.2 = .error .resourceInUse → s.step .destroy = s
  destroyed : s.queue.ring.destroyed = true → s.blocked = []

theorem checkIdle_eq_inUse_iff (r : Ring) :
    r.checkIdle = .error .resourceInUse ↔ 0 < r.waiters ∧ r.destroyed = false := by
  unfold Ring.checkIdle
  cases r.destroyed with
  | true => simp
  | false =>
    by_cases h : 0 < r.waiters <;> simp [h]

theorem Accounted.exact (h : Accounted s) : Exact s := by
  have hidle := checkIdle_eq_inUse_iff s.queue.ring
  rw [show s.queue.ring.waiters = s.queue.waiters from rfl, h.waiters] at hidle
  refine ⟨h.waiters, ?_, ?_, ?_, ?_, h.destroyed⟩
  · rw [← hidle, Queue.clear]
    cases s.queue.ring.checkIdle <;> simp
  · rw [← hidle, Queue.destroy]
    cases s.queue.ring.checkIdle <;> simp
  · intro hrefused
    simp only [Shared.step, clear_of_error hrefused]
  · intro hrefused
    simp only [Shared.step, destroy_of_error hrefused]

theorem Fresh.exact_run {q : Queue S} (h : q.Fresh) (events : List (Event ι δ)) :
    Exact (Shared.run { queue := q } events) :=
  (h.sound.run events).accounted.exact

end Runs

/-- Whatever tasks do to a queue of any kind, the queue knows how many of them wait, be they
asleep or about to resume. It refuses to be emptied or retired exactly while there are any,
which changes nothing, and no task ever waits on a queue out of service. -/
theorem waiters_exact {α : Type} {n k : Nat} :
    (∀ q : Fifo α, Fifo.new n = .ok q → ∀ events, Exact (Fifo.sharedRun { queue := q } events)) ∧
    (∀ q, CopyQueue.new n = .ok q → ∀ events, Exact (Shared.run { queue := q } events)) ∧
    (∀ q, SlotQueue.new n k = .ok q → ∀ events, Exact (Shared.run { queue := q } events)) := by
  refine ⟨fun q hq events => ?_, fun q hq events => ?_, fun q hq events => ?_⟩
  · rw [Fifo.sharedRun_eq]
    exact (Fifo.fresh_new hq).exact_run _
  · exact (CopyQueue.fresh_new hq).exact_run events
  · exact (SlotQueue.fresh_new hq).exact_run events

/-- Two pops wait, one of which was woken, and the queue cannot be emptied. A push gives up,
and nobody is left. A pop is refused, and the other one still counts. -/
theorem waiters_exact_one :
    ∃ (f : Fifo Nat) (c : CopyQueue) (s : SlotQueue),
      Fifo.new 1 = .ok f ∧ CopyQueue.new 1 = .ok c ∧ SlotQueue.new 1 2 = .ok s ∧
      (Fifo.sharedRun { queue := f }
        [.queue (.call (.pop ()) true 0), .queue (.call (.pop ()) true 0),
          .offer 7 1]).queue.clear.2 = .error .resourceInUse ∧
      (Shared.run { queue := c }
        [.call (.pop [0]) true 0, .call (.pop [0]) true 0, .call (.push [1, 2]) true 0,
          .resume 0 0]).queue.waiters = 1 ∧
      (Shared.run { queue := s }
        [.call (.push [1, 2]) true 0, .call (.push [3, 4]) true 0, .timeUp 0,
          .resume 0 0]).queue.waiters = 0 := by
  obtain ⟨hf, hc, hs⟩ := waiters_exact (α := Nat) (n := 1) (k := 2)
  refine ⟨_, _, _, Fifo.new_of_lt (by decide) (by decide),
    CopyQueue.new_of_lt (by decide) (by decide),
    SlotQueue.new_of_lt (by decide) (by decide) (by decide), ?_, ?_, ?_⟩
  · exact (hf _ (Fifo.new_of_lt (by decide) (by decide)) _).clear.mpr ⟨by decide, rfl⟩
  · exact (hc _ (CopyQueue.new_of_lt (by decide) (by decide)) _).waiters
  · exact (hs _ (SlotQueue.new_of_lt (by decide) (by decide) (by decide)) _).waiters

end Queue

end Netstack
