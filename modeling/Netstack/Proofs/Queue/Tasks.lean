import Netstack.Proofs.Queue.Calls
import Netstack.Queue.Copying

/-
Tasks that share a queue.

Any number of tasks call one queue. A step is what a task does between getting hold of the
queue and letting go of it, so steps do not overlap; a call that gives up before it got hold
of the queue leaves no trace and is no step. The tasks that wait are kept beside the queue. A
waiting task is asleep, or it was woken, or its time is up; in the last two cases it will
resume, sooner or later, and only then looks at the queue again. A task is woken only by a
wake-up that the queue sends to the gate of its side: the gate has one wake-up more, and one of
those that sleep there gets it. A run says which, and it is any of them.

`Move` lists what a step can do to the queue and to the tasks, whatever the storage, and all
that is said of runs is proved from it. It relies on the gates to know who sleeps: a wake-up
that a gate has for nobody would not be sent.
-/

set_option autoImplicit false

namespace Netstack

namespace Queue

/-- What a waiting task is doing. One that was woken, or whose time is up, has yet to
resume. -/
inductive Mode
  | asleep
  | woken
  | late
  deriving DecidableEq

/-- A task that waits in a push or a pop. -/
structure Task (ι δ : Type) where
  call : Call ι δ
  mode : Mode := .asleep

/-- A queue and the tasks that wait on it. -/
structure Shared (S ι δ : Type) where
  queue : Queue S
  blocked : List (Task ι δ) := []

/-- What may happen next. Tasks are named by their place among those that wait. Where a
wake-up is sent, `pick` says which sleeper gets it. -/
inductive Event (ι δ : Type)
  /-- a task calls the queue, and may wait if it has to -/
  | call (call : Call ι δ) (waits : Bool) (pick : Nat)
  /-- the time of a sleeping task is up -/
  | timeUp (place : Nat)
  /-- a task that no longer sleeps gets hold of the queue again -/
  | resume (place : Nat) (pick : Nat)
  | clear
  | destroy

variable {S ι δ ρ : Type} [Storage S ι δ ρ]

namespace Task

def side (t : Task ι δ) : Side := t.call.side

def waitsAt (σ : Side) (t : Task ι δ) : Bool := t.side = σ

def sleepsAt (σ : Side) (t : Task ι δ) : Bool := t.side = σ ∧ t.mode = .asleep

def wokenAt (σ : Side) (t : Task ι δ) : Bool := t.side = σ ∧ t.mode = .woken

/-- Whether a task on a side is about to resume. -/
def upAt (σ : Side) (t : Task ι δ) : Bool := t.side = σ ∧ t.mode ≠ .asleep

def wake (t : Task ι δ) : Task ι δ := { t with mode := .woken }

section Predicates

variable {σ : Side} {t : Task ι δ}

@[simp] theorem waitsAt_iff : t.waitsAt σ = true ↔ t.side = σ := decide_eq_true_iff

@[simp] theorem sleepsAt_iff : t.sleepsAt σ = true ↔ t.side = σ ∧ t.mode = .asleep :=
  decide_eq_true_iff

@[simp] theorem wokenAt_iff : t.wokenAt σ = true ↔ t.side = σ ∧ t.mode = .woken :=
  decide_eq_true_iff

@[simp] theorem upAt_iff : t.upAt σ = true ↔ t.side = σ ∧ t.mode ≠ .asleep := decide_eq_true_iff

@[simp] theorem side_wake : t.wake.side = t.side := rfl

@[simp] theorem mode_wake : t.wake.mode = .woken := rfl

end Predicates

/-- What a task does to its gate when it goes: if it was woken, it takes the wake-up along. -/
def exit (t : Task ι δ) : Gate → Gate :=
  if t.mode = .woken then fun g => g.take.leave else Gate.leave

/-- A task gets hold of the queue again. One that sleeps does not. -/
def resume (q : Queue S) (t : Task ι δ) : Queue S × Progress (Call ι δ) (Answer ι ρ) :=
  match t.mode with
  | .asleep => (q, .parked t.call)
  | .woken => Blocking.wake q t.call
  | .late => (q.last t.call).map id .done

end Task

/-- Wake one of the tasks that sleep on a side, if there is one: the task at the place
`pick`, or the first if that one does not sleep there. -/
def wakeOne (σ : Side) (pick : Nat) (tasks : List (Task ι δ)) : List (Task ι δ) :=
  if tasks[pick]?.any (·.sleepsAt σ) then tasks.modify pick Task.wake
  else tasks.modify (tasks.findIdx (·.sleepsAt σ)) Task.wake

/-- If the gate of a side was sent a wake-up, a task that sleeps there gets it. -/
def deliver (σ : Side) (pick : Nat) (before after : Gate) (tasks : List (Task ι δ)) :
    List (Task ι δ) :=
  if before.woken < after.woken then wakeOne σ pick tasks else tasks

namespace Shared

/-- What a piece of a call comes to among the tasks. A task that has to sleep goes where
`place` puts it. The wake-up, if one was sent, goes to the other side. -/
def comeTo (before : Queue S) (c : Call ι δ) (pick : Nat) (others : List (Task ι δ))
    (place : Task ι δ → List (Task ι δ)) (after : Queue S × Progress (Call ι δ) (Answer ι ρ)) :
    Shared S ι δ :=
  let σ := c.side.opposite
  ⟨after.1, deliver σ pick (before.ring.gate σ) (after.1.ring.gate σ)
    (match after.2 with
      | .done _ => others
      | .parked c => place { call := c })⟩

def step (s : Shared S ι δ) : Event ι δ → Shared S ι δ
  | .call c waits pick =>
    comeTo s.queue c pick s.blocked (fun t => s.blocked ++ [t]) (s.queue.begin waits c)
  | .timeUp place =>
    match s.blocked[place]? with
    | none => s
    | some t =>
      -- it matters only to one that sleeps
      if t.mode = .asleep then
        ⟨s.queue.mapGate t.side Gate.giveUp, s.blocked.set place { t with mode := .late }⟩
      else s
  | .resume place pick =>
    match s.blocked[place]? with
    | none => s
    | some t => comeTo s.queue t.call pick (s.blocked.eraseIdx place) (s.blocked.set place ·)
        (t.resume s.queue)
  | .clear => { s with queue := s.queue.clear.1 }
  | .destroy => { s with queue := s.queue.destroy.1 }

/-- The state after a run. -/
def run (s : Shared S ι δ) (events : List (Event ι δ)) : Shared S ι δ := events.foldl step s

theorem run_append (s : Shared S ι δ) (events later : List (Event ι δ)) :
    s.run (events ++ later) = (s.run events).run later :=
  List.foldl_append

/-- A property of queues that every piece of a call keeps holds throughout a run. -/
theorem stable_step {P : Queue S → Prop} (hP : Stable P) {s : Shared S ι δ} (h : P s.queue)
    (e : Event ι δ) : P (s.step e).queue := by
  cases e with
  | call c waits pick => exact hP.begin h waits c
  | timeUp place =>
    simp only [step]
    split
    · exact h
    · split
      · exact hP.mapGate h _ _
      · exact h
  | resume place pick =>
    simp only [step]
    cases s.blocked[place]? with
    | none => exact h
    | some t =>
      simp only [comeTo, Task.resume]
      cases t.mode with
      | asleep => exact h
      | woken => exact hP.wake h t.call
      | late => exact hP.last h t.call
  | clear => exact hP.clear h
  | destroy => exact hP.destroy h

theorem stable_run {P : Queue S → Prop} (hP : Stable P) {s : Shared S ι δ} (h : P s.queue)
    (events : List (Event ι δ)) : P (s.run events).queue := by
  induction events generalizing s with
  | nil => exact h
  | cons e events ih => exact ih (stable_step hP h e)

/-- A step in which a task that no longer sleeps is refused: it pops, there is an entry, and
its destination cannot take it. -/
def Refuses (s : Shared S ι δ) (e : Event ι δ) : Prop :=
  ∃ place pick t destination error, e = .resume place pick ∧ s.blocked[place]? = some t ∧
    t.mode ≠ .asleep ∧ t.call = .pop destination ∧ s.queue.ring.length ≠ 0 ∧
    Storage.get s.queue.store s.queue.ring.head destination = .error error

end Shared

/-! ## What a step can do -/

section Moves

variable {s s' : Shared S ι δ} {e : Event ι δ}

/-- A list around one of its places. -/
theorem split_at {α : Type} {l : List α} {k : Nat} {x : α} (h : l[k]? = some x) :
    ∃ pre post, l = pre ++ x :: post ∧ l.eraseIdx k = pre ++ post ∧
      (∀ y, l.set k y = pre ++ y :: post) ∧ ∀ f, l.modify k f = pre ++ f x :: post := by
  obtain ⟨hk, rfl⟩ := List.getElem?_eq_some_iff.mp h
  refine ⟨l.take k, l.drop (k + 1), ?_, List.eraseIdx_eq_take_drop_succ l k, ?_, ?_⟩
  · rw [List.getElem_cons_drop, List.take_append_drop]
  · intro y
    rw [List.set_eq_take_append_cons_drop, if_pos hk]
  · intro f
    exact List.modify_eq_take_cons_drop hk

/-- What one task adds to a count. -/
theorem countP_split {α : Type} (p : α → Bool) (pre post : List α) (x : α) :
    (pre ++ x :: post).countP p = (pre ++ post).countP p + if p x then 1 else 0 := by
  rw [List.countP_append, List.countP_cons, List.countP_append, Nat.add_assoc]

/-- One task is woken that slept on the side, or nobody sleeps there. -/
theorem wakeOne_cases (σ : Side) (pick : Nat) (tasks : List (Task ι δ)) :
    (∃ pre t post, tasks = pre ++ t :: post ∧ t.sleepsAt σ = true ∧
      wakeOne σ pick tasks = pre ++ t.wake :: post) ∨
    ((∀ t ∈ tasks, t.sleepsAt σ = false) ∧ wakeOne σ pick tasks = tasks) := by
  have hsplit : ∀ k t, tasks[k]? = some t → t.sleepsAt σ = true →
      ∃ pre t post, tasks = pre ++ t :: post ∧ t.sleepsAt σ = true ∧
        tasks.modify k Task.wake = pre ++ t.wake :: post := by
    intro k t hk ht
    obtain ⟨pre, post, hl, -, -, hmodify⟩ := split_at hk
    exact ⟨pre, t, post, hl, ht, hmodify Task.wake⟩
  unfold wakeOne
  split
  · next hpick =>
    obtain ⟨t, hk, ht⟩ := (Option.any_eq_true _ _).mp hpick
    exact .inl (hsplit pick t hk ht)
  · by_cases hlt : tasks.findIdx (·.sleepsAt σ) < tasks.length
    · exact .inl (hsplit _ _ (List.getElem?_eq_getElem hlt) List.findIdx_getElem)
    · have hlength : tasks.findIdx (·.sleepsAt σ) = tasks.length :=
        Nat.le_antisymm List.findIdx_le_length (Nat.not_lt.mp hlt)
      refine .inr ⟨List.findIdx_eq_length.mp hlength, ?_⟩
      rw [hlength, List.modify_eq_self (Nat.le_refl _)]

/-- Where the gate knows who sleeps, the wake-up that it gets reaches a sleeper. -/
theorem deliver_notifyOne {σ : Side} {g : Gate} {tasks : List (Task ι δ)}
    (h : g.asleep = tasks.countP (·.sleepsAt σ)) (pick : Nat) :
    deliver σ pick g g.notifyOne tasks = wakeOne σ pick tasks := by
  unfold deliver Gate.notifyOne
  by_cases hsleeps : 0 < g.asleep
  · rw [if_pos hsleeps, if_pos (Nat.lt_succ_self _)]
  · rw [if_neg hsleeps, if_neg (Nat.lt_irrefl _)]
    obtain ⟨pre, t, post, rfl, ht, -⟩ | ⟨-, hwake⟩ := wakeOne_cases σ pick tasks
    · rw [h, countP_split, if_pos ht] at hsleeps
      exact absurd (Nat.succ_pos _) hsleeps
    · exact hwake.symm

@[simp] theorem deliver_self (σ : Side) (pick : Nat) (g : Gate) (tasks : List (Task ι δ)) :
    deliver σ pick g g tasks = tasks :=
  if_neg (Nat.lt_irrefl _)

/-- What depends only on the tasks of one side is not changed by a wake-up on the other. -/
theorem wakeOne_elsewhere {σ : Side} {P : List (Task ι δ) → Prop}
    (hP : ∀ {pre post : List (Task ι δ)} {t : Task ι δ}, t.side ≠ σ →
      (P (pre ++ t :: post) ↔ P (pre ++ post)))
    {tasks : List (Task ι δ)} (h : P tasks) (pick : Nat) :
    P (wakeOne σ.opposite pick tasks) := by
  obtain ⟨pre, t, post, rfl, hsleeps, hwake⟩ | ⟨-, hwake⟩ :=
    wakeOne_cases σ.opposite pick tasks <;> rw [hwake]
  · obtain ⟨hside, -⟩ := Task.sleepsAt_iff.mp hsleeps
    have hne : t.side ≠ σ := hside ▸ σ.opposite_ne
    exact (hP (t := t.wake) hne).mpr ((hP hne).mp h)
  · exact h

/-- What a step may come to. -/
inductive Move (s : Shared S ι δ) (e : Event ι δ) : Shared S ι δ → Prop
  /-- a call fails at once, or nobody is there to resume -/
  | idle : Move s e s
  /-- a call is served at once -/
  | served {q' : Queue S} (σ : Side) (pick : Nat) (hd : s.queue.ring.destroyed = false)
      (hserves : s.queue.ring.Serves σ q'.ring) :
      Move s e ⟨q', wakeOne σ.opposite pick s.blocked⟩
  /-- a task goes to sleep because there is nothing for it -/
  | slept (c : Call ι δ) (hd : s.queue.ring.destroyed = false)
      (hnone : s.queue.ring.stock c.side = 0) :
      Move s e ⟨s.queue.mapGate c.side Gate.enter, s.blocked ++ [{ call := c }]⟩
  /-- the time of a sleeping task is up -/
  | late {pre post : List (Task ι δ)} {t : Task ι δ} (hblocked : s.blocked = pre ++ t :: post)
      (hasleep : t.mode = .asleep) :
      Move s e ⟨s.queue.mapGate t.side Gate.giveUp, pre ++ { t with mode := .late } :: post⟩
  /-- a task that was woken finds nothing and goes back to sleep -/
  | again {pre post : List (Task ι δ)} {t : Task ι δ} (hblocked : s.blocked = pre ++ t :: post)
      (hwoken : t.mode = .woken) (hnone : s.queue.ring.stock t.side = 0) :
      Move s e ⟨s.queue.mapGate t.side fun g => g.take.doze,
        pre ++ { t with mode := .asleep } :: post⟩
  /-- a task leaves with an error: there is nothing for it, or it is refused -/
  | left {pre post : List (Task ι δ)} {t : Task ι δ} (hblocked : s.blocked = pre ++ t :: post)
      (hup : t.mode ≠ .asleep)
      (hwhy : s.queue.ring.destroyed = true ∨ s.queue.ring.stock t.side = 0 ∨
        t.side = .items ∧ s.Refuses e) :
      Move s e ⟨s.queue.mapGate t.side t.exit, pre ++ post⟩
  /-- a task leaves and is served -/
  | leftServed {q' : Queue S} {pre post : List (Task ι δ)} {t : Task ι δ}
      (hblocked : s.blocked = pre ++ t :: post) (hup : t.mode ≠ .asleep) (pick : Nat)
      (hd : s.queue.ring.destroyed = false)
      (hserves : (s.queue.ring.mapGate t.side t.exit).Serves t.side q'.ring) :
      Move s e ⟨q', wakeOne t.side.opposite pick (pre ++ post)⟩
  /-- the queue is emptied, or retired, while nobody waits -/
  | emptied {q' : Queue S} (hidle : s.queue.waiters = 0)
      (hgate : ∀ σ, q'.ring.gate σ = s.queue.ring.gate σ) : Move s e ⟨q', s.blocked⟩

/-- A task that no longer sleeps fails for want of anything to serve it with, or, if it was
woken, goes back to sleep, or there is something and it leaves its gate. -/
theorem Task.resume_cases (q : Queue S) {t : Task ι δ} (h : t.mode ≠ .asleep) :
    ((q.ring.destroyed = true ∨ q.ring.stock t.side = 0) ∧
      ∃ e, t.resume q = (q.mapGate t.side t.exit, .done (t.call.fail e))) ∨
    (t.mode = .woken ∧ q.ring.stock t.side = 0 ∧
      t.resume q = (q.mapGate t.side fun g => g.take.doze, .parked t.call)) ∨
    (q.ring.destroyed = false ∧ q.ring.stock t.side ≠ 0 ∧
      t.resume q = ((q.mapGate t.side t.exit).serve t.call).map id .done) := by
  obtain ⟨c, mode⟩ := t
  cases mode with
  | asleep => exact absurd rfl h
  | woken =>
    obtain ⟨hd, e, hw⟩ | ⟨hnone, hw⟩ | ⟨hd, hstock, hw⟩ := q.wake_cases c
    · exact .inl ⟨.inl hd, e, hw⟩
    · exact .inr (.inl ⟨rfl, hnone, hw⟩)
    · exact .inr (.inr ⟨hd, hstock, hw⟩)
  | late =>
    obtain ⟨hwhy, e, he⟩ | ⟨hd, hstock, he⟩ := q.last_cases c
    · refine .inl ⟨hwhy, e, ?_⟩
      simp only [resume, he]
      rfl
    · refine .inr (.inr ⟨hd, hstock, ?_⟩)
      simp only [resume, he]
      rfl

section ComeTo

variable {q q' : Queue S} {c : Call ι δ} {others : List (Task ι δ)} (f : Gate → Gate) (pick : Nat)
  (place : Task ι δ → List (Task ι δ))

omit [Storage S ι δ ρ] in
/-- A piece of a call that only works on its own gate wakes nobody. -/
theorem comeTo_done (answer : Answer ι ρ) :
    Shared.comeTo q c pick others place (q.mapGate c.side f, .done answer) =
      ⟨q.mapGate c.side f, others⟩ := by
  simp [Shared.comeTo]

omit [Storage S ι δ ρ] in
theorem comeTo_parked :
    Shared.comeTo q c pick others place
        (q.mapGate c.side f, (.parked c : Progress (Call ι δ) (Answer ι ρ))) =
      ⟨q.mapGate c.side f, place { call := c }⟩ := by
  simp [Shared.comeTo]

/-- A call for which there is something wakes a task on the other side, unless it is
refused. It may have changed its own gate before. -/
theorem comeTo_serve (hstock : q.ring.stock c.side ≠ 0) (hfits : q.ring.length ≤ q.ring.capacity)
    (hasleep : (q.ring.gate c.side.opposite).asleep =
      others.countP (·.sleepsAt c.side.opposite))
    (hgate : q'.ring.gate c.side.opposite = q.ring.gate c.side.opposite) :
    (∃ destination error, c = .pop destination ∧
      Storage.get q.store q.ring.head destination = .error error ∧
      Shared.comeTo q' c pick others place ((q.serve c).map id .done) = ⟨q, others⟩) ∨
    ∃ served, q.ring.Serves c.side served.ring ∧
      Shared.comeTo q' c pick others place ((q.serve c).map id .done) =
        ⟨served, wakeOne c.side.opposite pick others⟩ := by
  obtain ⟨destination, error, hc, hget, hs⟩ | ⟨served, answer, hs, hserves⟩ :=
    serve_cases hstock hfits
  · refine .inl ⟨destination, error, hc, hget, ?_⟩
    simp [hs, Shared.comeTo, hgate]
  · refine .inr ⟨served, hserves, ?_⟩
    simp [hs, Shared.comeTo, hgate, hserves.other, deliver_notifyOne hasleep]

end ComeTo

/-- The gates know how many tasks sleep on their sides. -/
def Shared.CountsSleepers (s : Shared S ι δ) : Prop :=
  ∀ σ, (s.queue.ring.gate σ).asleep = s.blocked.countP (·.sleepsAt σ)

theorem move_call (hfits : s.queue.ring.length ≤ s.queue.ring.capacity)
    (hasleep : s.CountsSleepers) (c : Call ι δ) (waits : Bool) (pick : Nat) :
    Move s e (s.step (.call c waits pick)) := by
  unfold Shared.step
  obtain ⟨error, hb⟩ | ⟨hd, hstock, hb⟩ | ⟨hd, hnone, hb⟩ := s.queue.begin_cases waits c <;>
    simp only [hb]
  · simp only [Shared.comeTo, deliver_self]
    exact .idle
  · obtain ⟨-, -, -, -, hs⟩ | ⟨q', hserves, hs⟩ := comeTo_serve pick
      (fun t => s.blocked ++ [t]) hstock hfits (hasleep c.side.opposite) rfl <;> rw [hs]
    · exact .idle
    · exact .served c.side pick hd hserves
  · rw [comeTo_parked]
    exact .slept c hd hnone

theorem move_timeUp (place : Nat) : Move s e (s.step (.timeUp place)) := by
  simp only [Shared.step]
  cases hplace : s.blocked[place]? with
  | none => exact .idle
  | some t =>
    obtain ⟨pre, post, hblocked, -, hset, -⟩ := split_at hplace
    dsimp only
    split
    · next hasleep =>
      rw [hset]
      exact .late hblocked hasleep
    · exact .idle

theorem move_resume (hfits : s.queue.ring.length ≤ s.queue.ring.capacity)
    (hasleep : s.CountsSleepers) (place pick : Nat) :
    Move s (.resume place pick) (s.step (.resume place pick)) := by
  simp only [Shared.step]
  cases hplace : s.blocked[place]? with
  | none => exact .idle
  | some t =>
    obtain ⟨pre, post, hblocked, herase, hset, -⟩ := split_at hplace
    simp only [herase, hset]
    by_cases hup : t.mode = .asleep
    · -- a sleeper stays where it is
      have hsame : pre ++ { call := t.call } :: post = s.blocked := by
        rw [hblocked, ← hup]
      simp only [Task.resume, hup, Shared.comeTo, deliver_self, hsame]
      exact .idle
    · obtain ⟨hwhy, error, hr⟩ | ⟨hwoken, hnone, hr⟩ | ⟨hd, hstock, hr⟩ :=
        t.resume_cases s.queue hup <;> simp only [hr]
      · rw [show t.side = t.call.side from rfl, comeTo_done]
        exact .left hblocked hup (hwhy.imp_right .inl)
      · rw [show t.side = t.call.side from rfl, comeTo_parked]
        exact .again hblocked hwoken hnone
      · have hstock' : (s.queue.mapGate t.side t.exit).ring.stock t.call.side ≠ 0 := by
          rw [ring_mapGate, Ring.stock_mapGate]
          exact hstock
        have hfits' : (s.queue.mapGate t.side t.exit).ring.length ≤
            (s.queue.mapGate t.side t.exit).ring.capacity := by
          rw [ring_mapGate, Ring.length_mapGate, Ring.capacity_mapGate]
          exact hfits
        -- who leaves is on the other side, so no sleeper there is missing
        have hothers : (s.queue.ring.gate t.side.opposite).asleep =
            (pre ++ post).countP (·.sleepsAt t.side.opposite) := by
          rw [hasleep, hblocked, countP_split, if_neg (by simp [t.side.opposite_ne.symm]),
            Nat.add_zero]
        have hgate : (s.queue.mapGate t.side t.exit).ring.gate t.side.opposite =
            s.queue.ring.gate t.side.opposite := Ring.gate_mapGate_opposite _
        obtain ⟨destination, error, hcall, hget, hs⟩ | ⟨q', hserves, hs⟩ :=
          comeTo_serve pick (fun t => pre ++ t :: post) hstock' hfits'
            ((congrArg Gate.asleep hgate).trans hothers) hgate.symm <;> rw [hs]
        · have hitems : t.side = .items := by rw [Task.side, hcall]; rfl
          refine .left hblocked hup (.inr (.inr ⟨hitems, ?_⟩))
          rw [hitems] at hstock hget
          exact ⟨place, pick, t, destination, error, rfl, hplace, hup, hcall, hstock, hget⟩
        · exact .leftServed hblocked hup pick hd hserves

/-- Everything that a step can do. -/
theorem move_step (hfits : s.queue.ring.length ≤ s.queue.ring.capacity)
    (hasleep : s.CountsSleepers) (e : Event ι δ) : Move s e (s.step e) := by
  cases e with
  | call c waits pick => exact move_call hfits hasleep c waits pick
  | timeUp place => exact move_timeUp place
  | resume place pick => exact move_resume hfits hasleep place pick
  | clear =>
    show Move s _ ⟨s.queue.clear.1, s.blocked⟩
    unfold Queue.clear
    cases hidle : s.queue.ring.checkIdle with
    | error error => exact .idle
    | ok u => exact .emptied (Ring.waiters_of_checkIdle hidle) (fun σ => by cases σ <;> rfl)
  | destroy =>
    show Move s _ ⟨s.queue.destroy.1, s.blocked⟩
    unfold Queue.destroy
    cases hidle : s.queue.ring.checkIdle with
    | error error => exact .idle
    | ok u => exact .emptied (Ring.waiters_of_checkIdle hidle) (fun σ => by cases σ <;> rfl)

end Moves

/-- A queue in which nothing happened yet. -/
structure Fresh (q : Queue S) : Prop where
  capacity : 0 < q.ring.capacity
  ring : q.ring = { capacity := q.ring.capacity }

end Queue

/-! ## The three kinds of queue -/

namespace Fifo

variable {α : Type} {q : Fifo α}

/-- What may happen to a queue that owns its items: there are two calls more, which never
wait. A drain is one take after another, with other steps between them. -/
inductive Event (α : Type)
  | queue (event : Queue.Event α Unit)
  | offer (item : α) (pick : Nat)
  | take (pick : Nat)

/-- What an offer comes to, as a push. -/
def offered (q : Fifo α) (item : α) :
    Fifo α × Progress (Queue.Call α Unit) (Queue.Answer α α) :=
  (q.offer item).map id fun result => .done (.pushed result)

/-- What a take comes to, as a pop. -/
def taken (q : Fifo α) : Fifo α × Progress (Queue.Call α Unit) (Queue.Answer α α) :=
  q.take.map id fun
    | .ok (some item) => .done (.popped (.ok item))
    | .ok none => .done (.popped (.error .queueEmpty))
    | .error e => .done (.popped (.error e))

def sharedStep (s : Queue.Shared (Cells α) α Unit) : Event α → Queue.Shared (Cells α) α Unit
  | .queue e => s.step e
  | .offer item pick =>
    .comeTo s.queue (.push item) pick s.blocked (fun t => s.blocked ++ [t])
      (offered s.queue item)
  | .take pick =>
    .comeTo s.queue (.pop ()) pick s.blocked (fun t => s.blocked ++ [t]) (taken s.queue)

def sharedRun (s : Queue.Shared (Cells α) α Unit) (events : List (Event α)) :
    Queue.Shared (Cells α) α Unit :=
  events.foldl sharedStep s

/-- An offer is a push that does not wait. -/
theorem offered_eq (q : Fifo α) (item : α) : q.offered item = q.begin false (.push item) := by
  simp only [offered, offer, Queue.begin, Queue.beginPush]
  cases q.ring.destroyed with
  | true => rfl
  | false => cases q.ring.isFull <;> rfl

/-- A take is a pop that does not wait. -/
theorem taken_eq (q : Fifo α) : q.taken = q.begin false (.pop ()) := by
  simp only [taken, take, Queue.begin, Queue.beginPop]
  cases q.ring.destroyed with
  | true => rfl
  | false =>
    cases q.ring.isEmpty with
    | true => rfl
    | false =>
      rcases q.dequeue () with ⟨q', _ | _⟩ <;> rfl

/-- The same event with calls that every queue has. -/
def Event.toQueue : Event α → Queue.Event α Unit
  | queue e => e
  | offer item pick => .call (.push item) false pick
  | take pick => .call (.pop ()) false pick

theorem sharedStep_eq (s : Queue.Shared (Cells α) α Unit) (e : Event α) :
    sharedStep s e = s.step e.toQueue := by
  cases e with
  | queue e => rfl
  | offer item pick => simp only [sharedStep, offered_eq, Event.toQueue, Queue.Shared.step]
  | take pick => simp only [sharedStep, taken_eq, Event.toQueue, Queue.Shared.step]

theorem sharedRun_eq (s : Queue.Shared (Cells α) α Unit) (events : List (Event α)) :
    sharedRun s events = s.run (events.map Event.toQueue) := by
  simp only [sharedRun, Queue.Shared.run, List.foldl_map, ← sharedStep_eq]

theorem capacity_pos_of_checkCapacity {n : Nat} (h : checkCapacity n = .ok ()) : 0 < n := by
  unfold checkCapacity at h
  split at h
  · cases h
  · next hn => exact Nat.pos_of_ne_zero hn

theorem fresh_new {n : Nat} (h : (new n : Except Error (Fifo α)) = .ok q) : q.Fresh := by
  unfold new at h
  cases hn : checkCapacity n with
  | error e =>
    rw [hn] at h
    cases h
  | ok u =>
    rw [hn] at h
    cases h
    exact ⟨capacity_pos_of_checkCapacity hn, rfl⟩

end Fifo

theorem CopyQueue.fresh_new {n : Nat} {q : CopyQueue} (h : CopyQueue.new n = .ok q) :
    q.Fresh := by
  unfold CopyQueue.new at h
  cases hn : Fifo.checkCapacity n with
  | error e =>
    rw [hn] at h
    cases h
  | ok u =>
    rw [hn] at h
    cases h
    exact ⟨Fifo.capacity_pos_of_checkCapacity hn, rfl⟩

theorem SlotQueue.fresh_new {n k : Nat} {q : SlotQueue} (h : SlotQueue.new n k = .ok q) :
    q.Fresh := by
  unfold SlotQueue.new at h
  split at h
  · cases h
  · next hpos =>
    cases htotal : Memory.sized "slot queue arena size" (n * k) with
    | error e =>
      rw [htotal] at h
      cases h
    | ok total =>
      rw [htotal] at h
      cases hreserve : Memory.reserve total with
      | error e =>
        simp only [bind, Except.bind, hreserve] at h
        cases h
      | ok u =>
        simp only [bind, Except.bind, pure, Except.pure, hreserve] at h
        cases h
        exact ⟨Nat.pos_of_ne_zero (not_or.mp hpos).1, rfl⟩

end Netstack
