import Mathlib.Data.List.Perm.Basic
import Netstack.Proofs.Queue.Tasks
import Netstack.Proofs.Stack.Run
import Netstack.Proofs.Wait.Rest

/-
Rooms with a queue, an event group, a pool or a stack.

A queue and an event group count their callers behind gates, and each that waits in a room is
behind the gate at which its call waits. So a room with one of them comes to rest after every
step (`Queue.rests_room`, `EventGroup.rests_room`). What is done in a room with a pool or with a
stack is a run, one of many that are possible (`Pool.runs_room`, `Stack.reachable_room`): what
holds after every run holds in a room.
-/

set_option autoImplicit false

namespace Netstack

/-! ## Queues -/

namespace Queue

variable {S ι δ ρ : Type} [Storage S ι δ ρ] {q q' : Queue S} {calls : List (Call ι δ)}
  {c : Call ι δ} {f : Gate → Gate}

/-- A queue and the calls that wait behind its gates. -/
structure Fits (q : Queue S) (calls : List (Call ι δ)) : Prop where
  bounded : q.Bounded
  gates : ∀ σ, (q.ring.gate σ).Has (calls.countP (·.side = σ))

omit [Storage S ι δ ρ] in
theorem fits_cons_iff : q.Fits (c :: calls) ↔ q.Bounded ∧
    (q.ring.gate c.side).Has (calls.countP (·.side = c.side) + 1) ∧
    (q.ring.gate c.side.opposite).Has (calls.countP (·.side = c.side.opposite)) := by
  have hown : (c :: calls).countP (·.side = c.side) = calls.countP (·.side = c.side) + 1 := by
    simp
  have hother : (c :: calls).countP (·.side = c.side.opposite) =
      calls.countP (·.side = c.side.opposite) := by
    simp [c.side.opposite_ne.symm]
  constructor
  · rintro ⟨hbounded, hgates⟩
    exact ⟨hbounded, hown ▸ hgates c.side, hother ▸ hgates c.side.opposite⟩
  · rintro ⟨hbounded, hself, hopposite⟩
    refine ⟨hbounded, fun τ => ?_⟩
    obtain rfl | rfl := c.side.eq_or_eq_opposite τ
    · rwa [hown]
    · rwa [hother]

/-- A call changes its own gate and is still behind it. -/
theorem Fits.stay (h : q.Fits (c :: calls)) (hf : ∀ g n, g.Has (n + 1) → (f g).Has (n + 1)) :
    (q.mapGate c.side f).Fits (c :: calls) := by
  obtain ⟨hbounded, hown, hother⟩ := fits_cons_iff.mp h
  refine fits_cons_iff.mpr ⟨hbounded.mapGate _ _, ?_, ?_⟩
  · rw [ring_mapGate, Ring.gate_mapGate_self]
    exact hf _ _ hown
  · rwa [ring_mapGate, Ring.gate_mapGate_opposite]

/-- A call leaves its gate. -/
theorem Fits.leave (h : q.Fits (c :: calls)) (hf : ∀ g n, g.Has (n + 1) → (f g).Has n) :
    (q.mapGate c.side f).Fits calls := by
  obtain ⟨hbounded, hown, hother⟩ := fits_cons_iff.mp h
  refine ⟨hbounded.mapGate _ _, fun τ => ?_⟩
  obtain rfl | rfl := c.side.eq_or_eq_opposite τ
  · rw [ring_mapGate, Ring.gate_mapGate_self]
    exact hf _ _ hown
  · rwa [ring_mapGate, Ring.gate_mapGate_opposite]

/-- A call comes to its gate. -/
theorem Fits.come (h : q.Fits calls) : (q.mapGate c.side Gate.enter).Fits (c :: calls) := by
  refine fits_cons_iff.mpr ⟨h.bounded.mapGate _ _, ?_, ?_⟩
  · rw [ring_mapGate, Ring.gate_mapGate_self]
    exact (h.gates c.side).enter
  · rw [ring_mapGate, Ring.gate_mapGate_opposite]
    exact h.gates _

/-- A call is served, and the wake-up that it sends changes nothing about who waits. -/
theorem Fits.serve (h : q.Fits calls) (hd : q.ring.destroyed = false)
    (hstock : q.ring.stock c.side ≠ 0) : (q.serve c).1.Fits calls := by
  have hbounded := stable_bounded.serve h.bounded hd hstock
  obtain ⟨-, e, -, -, hs⟩ | ⟨q', answer, hs, hserves⟩ := serve_cases hstock h.bounded.fits <;>
    rw [hs] at hbounded ⊢
  · exact h
  · refine ⟨hbounded, fun τ => ?_⟩
    obtain rfl | rfl := c.side.eq_or_eq_opposite τ
    · rw [hserves.own]
      exact h.gates _
    · rw [hserves.other]
      exact (h.gates _).notifyOne

/-- A call that has left its gate is served if there is something for it. -/
theorem Fits.leave_serve (h : q.Fits (c :: calls)) (hf : ∀ g n, g.Has (n + 1) → (f g).Has n)
    (hd : q.ring.destroyed = false) (hstock : q.ring.stock c.side ≠ 0) :
    ((q.mapGate c.side f).serve c).1.Fits calls :=
  (h.leave hf).serve (by simpa using hd) (by simpa using hstock)

theorem ready_iff (q : Queue S) (c : Call ι δ) :
    Blocking.ready q c = true ↔ 0 < (q.ring.gate c.side).woken := by
  cases c <;> exact decide_eq_true_iff

theorem gated : WaitingRoom.Gated (σ := Queue S) (Call.side (ι := ι) (δ := δ))
    (fun q σ => (q.ring.gate σ).woken) Fits where
  ready := ready_iff
  few h σ := (h.gates σ).either ▸ Nat.le_add_left _ _
  perm h hperm := ⟨h.bounded, fun σ => hperm.countP_eq _ ▸ h.gates σ⟩
  done {q q' c calls answer} h hready hwake := by
    obtain ⟨-, e, hw⟩ | ⟨-, hw⟩ | ⟨hd, hstock, hw⟩ := q.wake_cases c <;> rw [hw] at hwake
    · cases hwake
      exact h.leave fun _ _ hg => hg.take.2
    · cases hwake
    · obtain rfl := congrArg Prod.fst hwake
      exact h.leave_serve (fun _ _ hg => hg.take.2) hd hstock
  parked {q q' c c' calls} h _ hwake := by
    obtain ⟨-, e, hw⟩ | ⟨-, hw⟩ | ⟨-, -, hw⟩ := q.wake_cases c <;> rw [hw] at hwake <;> cases hwake
    exact h.stay fun _ _ hg => hg.take.1
  taken {q q' c c' calls} _ hready hwake σ := by
    obtain ⟨-, e, hw⟩ | ⟨-, hw⟩ | ⟨-, -, hw⟩ := q.wake_cases c <;> rw [hw] at hwake
    · cases hwake
    · cases hwake
      have hpos := (ready_iff q c).mp hready
      obtain rfl | rfl := c.side.eq_or_eq_opposite σ
      · rw [ring_mapGate, Ring.gate_mapGate_self, if_pos rfl, Gate.take_of_pos hpos]
        exact Nat.le_of_eq (Nat.sub_add_cancel hpos)
      · rw [ring_mapGate, Ring.gate_mapGate_opposite, if_neg c.side.opposite_ne.symm]
        exact Nat.le_refl _
    · cases hwake
  expire {q c calls} h := by
    obtain ⟨-, e, he⟩ | ⟨hd, hstock, he⟩ := q.expire_cases c <;> rw [he]
    · exact h.leave fun _ _ hg => hg.expire
    · exact h.leave_serve (fun _ _ hg => hg.expire) hd hstock
  advance _ ha := by cases ha
  elapse h _ := h

/-- What may be done with a queue: calls are begun, it is cleared or destroyed, and looked at. -/
inductive IsStep {ω : Type} : Step (Queue S) (Call ι δ) (Answer ι ρ) ω → Prop
  | call (timeout : Timeout) (c : Call ι δ) (finish : Answer ι ρ → ω) :
      IsStep (.call (fun _ => timeout) (·.begin timeout.waits c) finish)
  | clear (answer : Except Error Unit → ω) : IsStep (.change Queue.clear answer)
  | destroy (answer : Except Error Nat → ω) : IsStep (.change Queue.destroy answer)
  | look (f : Queue S → ω) : IsStep (.look f)

omit [Storage S ι δ ρ] in
/-- Gates that nobody touches. -/
theorem Fits.of_gates (h : q.Fits calls) (hbounded : q'.Bounded)
    (hgates : ∀ σ, q'.ring.gate σ = q.ring.gate σ) : q'.Fits calls := by
  refine ⟨hbounded, fun σ => ?_⟩
  rw [hgates]
  exact h.gates σ

theorem keeps_isStep {ω : Type} (step : Step (Queue S) (Call ι δ) (Answer ι ρ) ω)
    (hstep : IsStep step) : WaitingRoom.Keeps Fits step := by
  cases hstep with
  | call timeout c finish =>
    intro q calls h
    obtain ⟨e, hb⟩ | ⟨hd, hstock, hb⟩ | ⟨-, -, hb⟩ := q.begin_cases timeout.waits c
    · exact .inl ⟨q, _, hb, h⟩
    · exact .inl ⟨_, _, hb, h.serve hd hstock⟩
    · exact .inr ⟨_, c, hb, h.come⟩
  | clear answer =>
    intro q calls h
    have hgates : ∀ σ, q.clear.1.ring.gate σ = q.ring.gate σ := by
      intro σ
      unfold Queue.clear
      cases q.ring.checkIdle <;> cases σ <;> rfl
    exact h.of_gates (stable_bounded.clear h.bounded) hgates
  | destroy answer =>
    intro q calls h
    have hgates : ∀ σ, q.destroy.1.ring.gate σ = q.ring.gate σ := by
      intro σ
      unfold Queue.destroy
      cases q.ring.checkIdle <;> cases σ <;> rfl
    exact h.of_gates (stable_bounded.destroy h.bounded) hgates
  | look f => exact fun q calls h => h

omit [Storage S ι δ ρ] in
theorem Fits.waiters (h : q.Fits calls) : q.waiters = calls.length := by
  have hsplit := List.length_eq_countP_add_countP (fun c : Call ι δ => c.side = .room) (l := calls)
  have hitems : calls.countP (fun c => ¬ decide (c.side = .room) = true) =
      calls.countP (·.side = .items) := by
    refine List.countP_congr fun c _ => ?_
    cases c <;> simp [Call.side]
  rw [hsplit, hitems, ← (h.gates .room).waiting, ← (h.gates .items).waiting]
  rfl

/-- Whatever is done in a room with a new queue, after every step nobody has a wake-up left, and
the queue knows how many wait. -/
theorem rests_room {ω : Type} (hq : q.Fresh)
    {r : WaitingRoom (Queue S) (Call ι δ) (Answer ι ρ) ω} (h : r.Reached IsStep q) :
    r.AtRest ∧ r.state.waiters = r.waiters.length := by
  have hfits : q.Fits ([] : List (Call ι δ)) := by
    refine ⟨⟨hq.capacity, ?_⟩, fun σ => ?_⟩ <;> rw [hq.ring]
    · exact Nat.zero_le _
    · cases σ <;> exact ⟨rfl, rfl⟩
  refine ⟨h.atRest gated keeps_isStep hfits, ?_⟩
  rw [(h.fits gated.toPreserved keeps_isStep hfits).waiters, List.length_map]

end Queue

/-! ## Event groups -/

namespace EventGroup

variable {g : EventGroup} {calls : List Call}

/-- An event group and the calls that wait behind its gate. -/
def Fits (g : EventGroup) (calls : List Call) : Prop := g.gate.Has calls.length

theorem gated : WaitingRoom.Gated (fun _ : Call => ()) (fun g _ => g.gate.woken) Fits where
  ready g c := decide_eq_true_iff
  few {g calls} h _ := by
    have heither := h.either
    simp only [decide_true, List.countP_true]
    omega
  perm {g calls calls'} h hperm := by
    show g.gate.Has calls'.length
    rwa [← hperm.length_eq]
  done {g g' c calls answer} h hready hwake := by
    dsimp only [Blocking.wake, wakeWait] at hwake
    split at hwake <;> cases hwake
    exact h.take.2
  parked {g g' c c' calls} h _ hwake := by
    dsimp only [Blocking.wake, wakeWait] at hwake
    split at hwake <;> cases hwake
    exact h.take.1
  taken {g g' c c' calls} _ hready hwake _ := by
    have hpos : 0 < g.gate.woken := of_decide_eq_true hready
    dsimp only [Blocking.wake, wakeWait] at hwake
    split at hwake <;> cases hwake
    dsimp only [Gate.doze]
    rw [if_pos rfl, Gate.take_of_pos hpos]
    exact Nat.le_of_eq (Nat.sub_add_cancel hpos)
  expire h := h.expire
  advance _ ha := by cases ha
  elapse h _ := h

/-- What may be done with an event group: bits are waited for, set, cleared and looked at. -/
inductive IsStep {ω : Type} : Step EventGroup Call EventBits ω → Prop
  | wait (timeout : Timeout) (c : Call) (finish : EventBits → ω) :
      IsStep (.call (fun _ => timeout) (·.beginWait c timeout.waits) finish)
  | set (mask : EventBits) (answer : ω) : IsStep (.act fun g => (g.set mask, answer))
  | clear (mask : EventBits) (answer : ω) : IsStep (.act fun g => (g.clear mask, answer))
  | look (f : EventGroup → ω) : IsStep (.look f)

theorem keeps_isStep {ω : Type} (step : Step EventGroup Call EventBits ω) (hstep : IsStep step) :
    WaitingRoom.Keeps Fits step := by
  cases hstep with
  | wait timeout c finish =>
    intro g calls h
    dsimp only [beginWait]
    split
    · exact .inr ⟨_, c, rfl, h.enter⟩
    · exact .inl ⟨_, _, rfl, h⟩
  | set mask answer => exact fun g calls h => h.notifyAll
  | clear mask answer | look f => exact fun g calls h => h

/-- Whatever is done in a room with a new event group, after every step nobody has a wake-up left,
and the group knows how many wait. -/
theorem rests_room {ω : Type} {r : WaitingRoom EventGroup Call EventBits ω}
    (h : r.Reached IsStep {}) : r.AtRest ∧ r.state.waiters = r.waiters.length := by
  have hfits : Fits {} [] := ⟨rfl, rfl⟩
  refine ⟨h.atRest gated keeps_isStep hfits, ?_⟩
  exact (h.fits gated.toPreserved keeps_isStep hfits).waiting.trans (List.length_map _)

end EventGroup

/-! ## Pools -/

namespace Pool

variable {first p : Pool} {calls : List Call} {c : Call}

/-- A run from a pool on which nobody waits ends with a pool and with the calls that sleep
on it. -/
def Runs (first p : Pool) (calls : List Call) : Prop :=
  ∃ ops, (first.atRest.run ops).pool = p ∧ (first.atRest.run ops).asleep.Perm calls

theorem Runs.snoc (ops : List Op) (op : Op) {s : System}
    (hstep : ((first.atRest.run ops).step op).1 = s) (hasleep : s.asleep.Perm calls) :
    Runs first s.pool calls := by
  refine ⟨ops ++ [op], ?_⟩
  rw [System.run_snoc, hstep]
  exact ⟨rfl, hasleep⟩

/-- A call that sleeps has a place among those that do. -/
theorem Runs.place (h : Runs first p (c :: calls)) :
    ∃ ops k, (first.atRest.run ops).pool = p ∧ (first.atRest.run ops).asleep[k]? = some c ∧
      ((first.atRest.run ops).rouse k).asleep.Perm calls := by
  obtain ⟨ops, hpool, hasleep⟩ := h
  obtain ⟨k, hk⟩ := List.mem_iff_getElem?.mp (hasleep.mem_iff.mpr List.mem_cons_self)
  obtain ⟨hlt, hget⟩ := List.getElem?_eq_some_iff.mp hk
  have hrest := (List.getElem_cons_eraseIdx_perm hlt).trans hasleep
  rw [hget] at hrest
  exact ⟨ops, k, hpool, hk, hrest.cons_inv⟩

theorem preserved_runs (first : Pool) : WaitingRoom.Preserved (Runs first) where
  perm h hperm := by
    obtain ⟨ops, hpool, hasleep⟩ := h
    exact ⟨ops, hpool, hasleep.trans hperm⟩
  done {p p' c calls answer} h _ hwake := by
    obtain ⟨ops, k, rfl, hk, hrest⟩ := h.place
    have hstep : ((first.atRest.run ops).step (.wake k)).1 =
        { (first.atRest.run ops).rouse k with pool := p' } := by
      rw [System.step, hk]
      exact congrArg (fun o => (System.settle _ o).1) hwake
    exact Runs.snoc ops _ hstep hrest
  parked {p p' c c' calls} h _ hwake := by
    obtain ⟨ops, k, rfl, hk, hrest⟩ := h.place
    have hstep : ((first.atRest.run ops).step (.wake k)).1 =
        { pool := p', asleep := ((first.atRest.run ops).rouse k).asleep ++ [c'] } := by
      rw [System.step, hk]
      exact congrArg (fun o => (System.settle _ o).1) hwake
    exact Runs.snoc ops _ hstep ((List.perm_append_singleton c' _).trans (hrest.cons c'))
  expire {p c calls} h := by
    obtain ⟨ops, k, rfl, hk, hrest⟩ := h.place
    have hstep : ((first.atRest.run ops).step (.expire k)).1 =
        { (first.atRest.run ops).rouse k with
          pool := ((first.atRest.run ops).pool.expire c).1 } := by
      rw [System.step, hk]
      rfl
    exact Runs.snoc ops _ hstep hrest
  advance _ ha := by cases ha
  elapse h _ := h

/-- What may be done with a pool: whatever an operation of a run comes to. -/
inductive IsStep {ω : Type} : Step Pool Call Answer ω → Prop
  | act {work : Pool → Pool × ω}
      (makes : ∀ s : System, ∃ op, (s.step op).1 = { s with pool := (work s.pool).1 }) :
      IsStep (.act work)
  | call {timeout : Pool → Timeout} {begun : Pool → Outcome} {finish : Answer → ω}
      (makes : ∀ s : System, ∃ op, (s.step op).1 = (s.settle (begun s.pool)).1) :
      IsStep (.call timeout begun finish)

theorem keeps_isStep {ω : Type} (step : Step Pool Call Answer ω) (hstep : IsStep step) :
    WaitingRoom.Keeps (Runs first) step := by
  cases hstep with
  | act makes =>
    rintro p calls ⟨ops, rfl, hasleep⟩
    obtain ⟨op, hop⟩ := makes (first.atRest.run ops)
    exact Runs.snoc ops op hop hasleep
  | @call timeout begun finish makes =>
    rintro p calls ⟨ops, rfl, hasleep⟩
    obtain ⟨op, hop⟩ := makes (first.atRest.run ops)
    cases hb : begun (first.atRest.run ops).pool with
    | mk p progress =>
      rw [hb] at hop
      cases progress with
      | done answer => exact .inl ⟨p, answer, rfl, Runs.snoc ops op hop hasleep⟩
      | parked call =>
        have hsleeps := (List.perm_append_singleton call _).trans (hasleep.cons call)
        exact .inr ⟨p, call, rfl, Runs.snoc ops op hop hsleeps⟩

/-- Whatever is done in a room with a pool, it is a run, and those who wait are those that sleep
after it. -/
theorem runs_room {ω : Type} {r : WaitingRoom Pool Call Answer ω} (h : r.Reached IsStep first) :
    Runs first r.state (r.waiters.map (·.call)) :=
  h.fits (preserved_runs first) keeps_isStep ⟨[], rfl, .nil⟩

end Pool

/-! ## Stacks -/

namespace Stack

variable {δ : Type} [LinkDriver δ] {c : Config}

/-- What may be done with a stack: anything that steps come to. -/
inductive IsStep {ω : Type} : Netstack.Step (Stack δ) Call Answer ω → Prop
  | act {work : Stack δ → Stack δ × ω} (runs : ∀ s : Stack δ, s.Sound → Run s (work s).1) :
      IsStep (.act work)
  | call {timeout : Stack δ → Timeout} {begun : Stack δ → Outcome δ} {finish : Answer → ω}
      (runs : ∀ s : Stack δ, s.Sound → Run s (begun s).1) : IsStep (.call timeout begun finish)

/-- Whoever resumes, and whatever the core does in between, makes steps of a stack. -/
theorem preserved_reachable (c : Config) :
    WaitingRoom.Preserved fun (s : Stack δ) (_ : List Call) => Reachable c s where
  perm h _ := h
  done {s s' call calls answer} h _ hwake := by
    have hrun := run_wake h.sound call
    rw [show s.wake call = _ from hwake] at hrun
    exact h.run hrun
  parked {s s' call call' calls} h _ hwake := by
    have hrun := run_wake h.sound call
    rw [show s.wake call = _ from hwake] at hrun
    exact h.run hrun
  expire h := h.run (run_expire h.sound _)
  advance h ha := h.run (run_advance h.sound ha)
  elapse {s calls} h left := by
    dsimp only [Blocking.elapse]
    split
    · exact h.run (run_serviceAll s)
    · exact h

theorem keeps_isStep {ω : Type} (step : Netstack.Step (Stack δ) Call Answer ω)
    (hstep : IsStep step) : WaitingRoom.Keeps (fun s _ => Reachable c s) step := by
  cases hstep with
  | act runs => exact fun s _ h => h.run (runs s h.sound)
  | @call timeout begun finish runs =>
    intro s calls h
    have hbegun := h.run (runs s h.sound)
    cases hb : begun s with
    | mk t progress =>
      rw [hb] at hbegun
      cases progress with
      | done answer => exact .inl ⟨t, answer, rfl, hbegun⟩
      | parked call => exact .inr ⟨t, call, rfl, hbegun⟩

/-- Whatever is done in a room with a new stack, its states are among those of the runs. -/
theorem reachable_room {ω : Type} {s : Stack δ} (hnew : new c = .ok s)
    {r : WaitingRoom (Stack δ) Call Answer ω} (h : r.Reached IsStep s) : Reachable c r.state :=
  h.fits (preserved_reachable c) keeps_isStep ⟨s, hnew, .refl s⟩

end Stack

end Netstack
