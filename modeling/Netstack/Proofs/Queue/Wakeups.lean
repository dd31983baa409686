import Mathlib.Data.List.Induction
import Netstack.Proofs.Queue.Copying
import Netstack.Proofs.Queue.Waiters

/-
No task sleeps while it could be served.

One wake-up is sent for each entry that comes in and each slot that falls free, and that is
enough as long as it reaches a sleeper and every task that was woken takes what it was woken
for. That it reaches one is the tally of the gates: a gate knows who sleeps, so a wake-up is
lost only where nobody does, and whoever was woken finds it there. `Attended` is the
invariant: if anybody sleeps on a side, the tasks of the side that are about to resume suffice
for all that there is. Where none is about to resume, there is then nothing for those who
sleep.

A pop that was woken may find an entry that its destination cannot take. It leaves without
the entry and without waking anybody, so the entry stays, and a second pop may sleep beside
it. That is the only step that loses the invariant, and only queues of copies have it: an
item that is owned fits everywhere, and slots and destinations are compared before the wait.
-/

set_option autoImplicit false

namespace Netstack

namespace Queue

/-! ## Enough tasks about to resume -/

section Attended

variable {ι δ : Type} {σ : Side} {n : Nat} {tasks pre post : List (Task ι δ)} {t : Task ι δ}

/-- If a task sleeps on a side, there are at least as many about to resume there as can be
served, which is `n`. -/
def Attended (σ : Side) (n : Nat) (tasks : List (Task ι δ)) : Prop :=
  0 < tasks.countP (·.sleepsAt σ) → n ≤ tasks.countP (·.upAt σ)

theorem attended_zero (σ : Side) (tasks : List (Task ι δ)) : Attended σ 0 tasks :=
  fun _ => Nat.zero_le _

theorem Attended.of_le {m : Nat} (h : Attended σ n tasks) (hle : m ≤ n) : Attended σ m tasks :=
  fun hsleeps => hle.trans (h hsleeps)

theorem Attended.of_sleeper (h : Attended σ n tasks) (ht : t ∈ tasks) (hsleeps : t.sleepsAt σ) :
    n ≤ tasks.countP (·.upAt σ) :=
  h (List.countP_pos_iff.mpr ⟨t, ht, hsleeps⟩)

/-- A task on the other side does not count. -/
theorem attended_of_ne (h : t.side ≠ σ) :
    Attended σ n (pre ++ t :: post) ↔ Attended σ n (pre ++ post) := by
  simp [Attended, h]

/-- A sleeper whose time is up is about to resume. -/
theorem Attended.late (h : Attended t.side n (pre ++ t :: post)) (hasleep : t.mode = .asleep) :
    Attended t.side n (pre ++ { t with mode := .late } :: post) := by
  have hn := h.of_sleeper (t := t) (by simp) (Task.sleepsAt_iff.mpr ⟨rfl, hasleep⟩)
  intro _
  rw [countP_split, if_neg (by simp [hasleep])] at hn
  rw [countP_split]
  exact hn.trans (Nat.le_add_right _ _)

/-- A task that leaves with what it came for leaves the others attended. -/
theorem Attended.left (h : Attended t.side (n + 1) (pre ++ t :: post)) (hup : t.mode ≠ .asleep) :
    Attended t.side n (pre ++ post) := by
  unfold Attended at h
  rw [countP_split, countP_split, if_neg (by simp [hup]),
    if_pos (Task.upAt_iff.mpr ⟨rfl, hup⟩)] at h
  exact fun hsleeps => Nat.le_of_succ_le_succ (h hsleeps)

/-- One more to be served with, and one more sleeper woken. -/
theorem Attended.wakeOne (h : Attended σ n tasks) (pick : Nat) :
    Attended σ (n + 1) (wakeOne σ pick tasks) := by
  obtain ⟨pre, t, post, rfl, hsleeps, hwake⟩ | ⟨hnone, hwake⟩ := wakeOne_cases σ pick tasks <;>
    rw [hwake]
  · obtain ⟨rfl, hasleep⟩ := Task.sleepsAt_iff.mp hsleeps
    have hn := h.of_sleeper (t := t) (by simp) hsleeps
    intro _
    rw [countP_split, if_neg (by simp [hasleep])] at hn
    rw [countP_split, if_pos (by simp)]
    exact Nat.succ_le_succ hn
  · -- nobody was woken, because nobody sleeps
    intro hsleeps
    obtain ⟨t, ht, hs⟩ := List.countP_pos_iff.mp hsleeps
    rw [hnone t ht] at hs
    cases hs

end Attended

/-! ## Steps and runs -/

section Runs

variable {S ι δ ρ : Type} [Storage S ι δ ρ] {s s' : Shared S ι δ} {e : Event ι δ} {σ : Side}

namespace Shared

def Attended (σ : Side) (s : Shared S ι δ) : Prop :=
  Queue.Attended σ (s.queue.ring.stock σ) s.blocked

/-- A pop sleeps, and those that are about to resume will not take all entries. -/
def Overslept (s : Shared S ι δ) : Prop :=
  (∃ t ∈ s.blocked, t.side = .items ∧ t.mode = .asleep) ∧
    s.blocked.countP (·.upAt .items) < s.queue.ring.length

/-- Whoever was woken has its wake-up at the gate, so it can resume. -/
def Prompt (s : Shared S ι δ) : Prop :=
  ∀ t ∈ s.blocked, t.mode = .woken → Blocking.ready s.queue t.call = true

/-- Every task that waits sleeps: nobody who was woken, or whose time is up, has yet to
resume. -/
def AtRest (s : Shared S ι δ) : Prop := ∀ t ∈ s.blocked, t.mode = .asleep

instance (s : Shared S ι δ) : Decidable s.AtRest :=
  inferInstanceAs (Decidable (∀ t ∈ s.blocked, t.mode = .asleep))

omit [Storage S ι δ ρ] in
theorem overslept_iff (s : Shared S ι δ) : s.Overslept ↔ ¬ s.Attended .items := by
  simp only [Overslept, Attended, Queue.Attended, List.countP_pos_iff, Task.sleepsAt_iff,
    Classical.not_imp, Nat.not_le]
  rfl

end Shared

/-- A step keeps a side attended, unless it is the side of the items and a pop is refused. -/
theorem Move.attended (hm : Move s e s') (hs : Accounted s) (h : s.Attended σ)
    (hrefuses : σ = .items → ¬ s.Refuses e) : s'.Attended σ := by
  unfold Shared.Attended at h ⊢
  cases hm with
  | idle => exact h
  | served τ pick hd hserves =>
    obtain rfl | rfl := τ.eq_or_eq_opposite σ
    · -- one less to be served with
      exact wakeOne_elsewhere attended_of_ne (h.of_le (Nat.le.intro hserves.stock)) pick
    · rw [hserves.stockOther]
      exact h.wakeOne pick
  | slept c hd hnone =>
    rw [ring_mapGate, Ring.stock_mapGate]
    obtain rfl | rfl := c.side.eq_or_eq_opposite σ
    · rw [hnone]
      exact attended_zero _ _
    · rwa [attended_of_ne (t := { call := c }) c.side.opposite_ne.symm, List.append_nil]
  | @late pre post t hblocked hasleep =>
    rw [hblocked] at h
    rw [ring_mapGate, Ring.stock_mapGate]
    obtain rfl | rfl := t.side.eq_or_eq_opposite σ
    · exact h.late hasleep
    · rw [attended_of_ne t.side.opposite_ne.symm] at h
      rwa [attended_of_ne (t := { t with mode := .late }) t.side.opposite_ne.symm]
  | @again pre post t hblocked hwoken hnone =>
    rw [hblocked] at h
    rw [ring_mapGate, Ring.stock_mapGate]
    obtain rfl | rfl := t.side.eq_or_eq_opposite σ
    · rw [hnone]
      exact attended_zero _ _
    · rw [attended_of_ne t.side.opposite_ne.symm] at h
      rwa [attended_of_ne (t := { t with mode := .asleep }) t.side.opposite_ne.symm]
  | @left pre post t hblocked hup hwhy =>
    rw [hblocked] at h
    rw [ring_mapGate, Ring.stock_mapGate]
    obtain rfl | rfl := t.side.eq_or_eq_opposite σ
    · -- who leaves without being served either finds nothing or is refused
      obtain hd | hnone | ⟨hitems, hrefused⟩ := hwhy
      · rw [hs.in_service hblocked] at hd
        cases hd
      · rw [hnone]
        exact attended_zero _ _
      · exact absurd hrefused (hrefuses hitems)
    · rwa [attended_of_ne t.side.opposite_ne.symm] at h
  | @leftServed q' pre post t hblocked hup pick hd hserves =>
    rw [hblocked] at h
    obtain rfl | rfl := t.side.eq_or_eq_opposite σ
    · -- one less to be served with, and the task that leaves was about to resume
      have hstock := hserves.stock
      rw [Ring.stock_mapGate] at hstock
      rw [← hstock] at h
      exact wakeOne_elsewhere attended_of_ne (h.left hup) pick
    · have hstock := hserves.stockOther
      rw [Ring.stock_mapGate] at hstock
      rw [hstock]
      rw [attended_of_ne t.side.opposite_ne.symm] at h
      exact h.wakeOne pick
  | emptied hidle hgate =>
    -- nobody waits, so nobody sleeps
    have hnone : s.blocked = [] := by
      rw [hs.waiters] at hidle
      exact List.eq_nil_of_length_eq_zero hidle
    intro hsleeps
    simp [hnone] at hsleeps

/-- The side of the items is attended at the end of a run, unless a pop was refused in it and
has left one that sleeps unattended ever since; the other side is attended in any case. -/
theorem attended_run_or (hs : Sound s) (h : s.Attended σ) (events : List (Event ι δ)) :
    (s.run events).Attended σ ∨
      (σ = .items ∧ ∃ pre e post, events = pre ++ e :: post ∧ (s.run pre).Refuses e ∧
        ∀ mid, mid <+: post → ¬ (s.run (pre ++ e :: mid)).Attended σ) := by
  -- from the end: what counts is the last step that lost the invariant
  induction events using List.reverseRecOn with
  | nil => exact .inl h
  | append_singleton events e ih =>
    have hstep : s.run (events ++ [e]) = (s.run events).step e := Shared.run_append s events [e]
    by_cases hend : (s.run (events ++ [e])).Attended σ
    · exact .inl hend
    right
    obtain hbefore | ⟨hσ, pre, e', post, rfl, hrefuses, hsince⟩ := ih
    · -- attended until now, so it is `e` that loses it
      have hlost : σ = .items ∧ (s.run events).Refuses e := by
        by_contra hkept
        have hsound := hs.run events
        refine hend (hstep ▸ (hsound.move_step e).attended hsound.accounted hbefore ?_)
        exact fun hσ hrefuses => hkept ⟨hσ, hrefuses⟩
      refine ⟨hlost.1, events, e, [], rfl, hlost.2, ?_⟩
      intro mid hmid
      rwa [List.prefix_nil.mp hmid]
    · refine ⟨hσ, pre, e', post ++ [e], by simp, hrefuses, ?_⟩
      intro mid hmid
      obtain rfl | hmid := List.prefix_concat_iff.mp hmid
      · rwa [← List.cons_append, ← List.append_assoc]
      · exact hsince mid hmid

/-! ## Every task that waits does so for a reason -/

/-- The tasks that wait could not be served: those that push wait at a full queue, those that
pop wait at an empty one, and so there are not tasks of both kinds. -/
structure Justified (s : Shared S ι δ) : Prop where
  push : ∀ t ∈ s.blocked, t.side = .room → s.queue.ring.length = s.queue.ring.capacity
  pop : ∀ t ∈ s.blocked, t.side = .items → s.queue.ring.length = 0
  not_both : ¬ ((∃ t ∈ s.blocked, t.side = .room) ∧ ∃ t ∈ s.blocked, t.side = .items)

omit [Storage S ι δ ρ] in
/-- With nobody about to resume there is nothing for those who sleep on an attended side. -/
theorem stock_eq_zero_of_atRest (hrest : s.AtRest) (h : s.Attended σ) {t : Task ι δ}
    (ht : t ∈ s.blocked) (hside : t.side = σ) : s.queue.ring.stock σ = 0 := by
  have hnone : s.blocked.countP (·.upAt σ) = 0 := by
    refine List.countP_eq_zero.mpr fun u hu => ?_
    simp [hrest u hu]
  have hle := Queue.Attended.of_sleeper h ht (Task.sleepsAt_iff.mpr ⟨hside, hrest t ht⟩)
  omega

omit [Storage S ι δ ρ] in
theorem full_of_atRest (hs : Sound s) (hrest : s.AtRest) (h : s.Attended .room) {t : Task ι δ}
    (ht : t ∈ s.blocked) (hside : t.side = .room) :
    s.queue.ring.length = s.queue.ring.capacity := by
  have hstock := stock_eq_zero_of_atRest hrest h ht hside
  have hfits := hs.bounded.fits
  simp only [Ring.stock] at hstock
  omega

omit [Storage S ι δ ρ] in
/-- In a state at rest whose pushes are justified, all tasks are if the pops are attended. -/
theorem justified_iff (hs : Sound s) (hrest : s.AtRest) (hroom : s.Attended .room) :
    Justified s ↔ s.Attended .items := by
  constructor
  · intro h hsleeps
    obtain ⟨t, ht, hasleep⟩ := List.countP_pos_iff.mp hsleeps
    have hempty := h.pop t ht (Task.sleepsAt_iff.mp hasleep).1
    simp [Ring.stock, hempty]
  · intro hitems
    refine ⟨fun t ht hside => full_of_atRest hs hrest hroom ht hside,
      fun t ht hside => stock_eq_zero_of_atRest hrest hitems ht hside, ?_⟩
    rintro ⟨⟨t, ht, hpush⟩, u, hu, hpop⟩
    have hfull := full_of_atRest hs hrest hroom ht hpush
    have hempty : s.queue.ring.length = 0 := stock_eq_zero_of_atRest hrest hitems hu hpop
    have hcapacity := hs.bounded.capacity
    omega

omit [Storage S ι δ ρ] in
theorem attended_new {q : Queue S} (σ : Side) : ({ queue := q } : Shared S ι δ).Attended σ :=
  fun hsleeps => absurd hsleeps (Nat.lt_irrefl 0)

theorem Fresh.prompt_run {q : Queue S} (h : q.Fresh) (events : List (Event ι δ)) :
    (Shared.run { queue := q } events).Prompt :=
  fun _ => (h.sound.run events).accounted.ready

/-- If no pop is ever refused, whoever was woken can resume, and all tasks that wait do so for
a reason. -/
theorem Fresh.justified_run {q : Queue S} (h : q.Fresh) (events : List (Event ι δ))
    (hnever : ∀ pre e post, events = pre ++ e :: post →
      ¬ (Shared.run { queue := q } pre).Refuses e) :
    (Shared.run { queue := q } events).Prompt ∧
      ((Shared.run { queue := q } events).AtRest →
        Justified (Shared.run { queue := q } events)) := by
  refine ⟨h.prompt_run events, fun hrest => ?_⟩
  have hattended : ∀ σ, (Shared.run { queue := q } events).Attended σ := by
    intro σ
    obtain hend | ⟨-, pre, e, post, hevents, hrefuses, -⟩ :=
      attended_run_or h.sound (attended_new σ) events
    · exact hend
    · exact absurd hrefuses (hnever pre e post hevents)
  exact (justified_iff (h.sound.run events) hrest (hattended .room)).mpr (hattended .items)

end Runs

end Queue

/-! ## Which queues refuse -/

namespace Fifo

variable {α : Type}

open Queue in
/-- A queue of items holds some list, whatever is done with it. -/
theorem stable_holds : Stable fun q : Fifo α => ∃ xs, q.Holds xs where
  mapGate := by
    rintro q ⟨xs, h⟩ σ f
    cases σ with
    | room => exact ⟨xs, h.mapRoom f⟩
    | items => exact ⟨xs, h.mapItems f⟩
  serve := by
    rintro q ⟨xs, h⟩ c hd hstock
    cases c with
    | push item =>
      simp only [Call.side, Ring.stock, h.length] at hstock
      exact ⟨xs ++ [item], h.enqueue hd (by omega) item⟩
    | pop destination =>
      cases xs with
      | nil => exact absurd h.length hstock
      | cons x xs =>
        obtain ⟨q', hq, hxs⟩ := h.dequeue
        refine ⟨xs, ?_⟩
        simp only [serve, hq]
        exact hxs
  cleared := by
    rintro q ⟨xs, h⟩
    exact ⟨[], h.cleared⟩
  retired := by
    rintro q ⟨xs, h⟩
    exact ⟨[], h.retired⟩

/-- The oldest item is always there to be taken. -/
theorem not_refuses {s : Queue.Shared (Cells α) α Unit} (h : ∃ xs, Holds s.queue xs)
    (e : Queue.Event α Unit) : ¬ s.Refuses e := by
  rintro ⟨_, _, _, _, error, _, _, _, _, hne, hget⟩
  obtain ⟨xs, hholds⟩ := h
  rw [hholds.length] at hne
  have hfront := hholds.cell 0 (Nat.pos_of_ne_zero hne)
  rw [Nat.add_zero, Nat.mod_eq_of_lt hholds.head] at hfront
  dsimp only [Storage.get] at hget
  rw [hfront] at hget
  cases hget

end Fifo

/-- A slot is read into any destination that was let in. -/
theorem SlotQueue.not_refuses (s : Queue.Shared Arena (List UInt8) (List UInt8))
    (e : Queue.Event (List UInt8) (List UInt8)) : ¬ s.Refuses e := by
  rintro ⟨_, _, _, _, error, _, _, _, _, _, hget⟩
  cases hget

namespace CopyQueue

abbrev Shared := Queue.Shared Copies (List UInt8) (List UInt8)

/-- A pop that is about to resume does, while the oldest entry is longer than its
destination. -/
def Refuses (s : CopyQueue.Shared) (e : Queue.Event (List UInt8) (List UInt8)) : Prop :=
  ∃ place pick t destination size, e = .resume place pick ∧ s.blocked[place]? = some t ∧
    t.mode ≠ .asleep ∧ t.call = .pop destination ∧ CopyQueue.peekSize s.queue = some size ∧
    destination.length < size

theorem get_eq_error_iff (q : CopyQueue) (destination : List UInt8) :
    (q.ring.length ≠ 0 ∧ ∃ error, Storage.get q.store q.ring.head destination = .error error) ↔
      ∃ size, q.peekSize = some size ∧ destination.length < size := by
  dsimp only [Storage.get]
  unfold peekSize Ring.isEmpty
  by_cases hlength : q.ring.length = 0
  · simp [hlength]
  · cases hitem : q.store.cells.item? q.ring.head with
    | none => simp [hlength]
    | some entry =>
      by_cases hfits : destination.length < entry.length <;> simp [hlength, hfits]

theorem refuses_iff (s : CopyQueue.Shared) (e : Queue.Event (List UInt8) (List UInt8)) :
    Queue.Shared.Refuses s e ↔ Refuses s e := by
  constructor
  · rintro ⟨place, pick, t, destination, error, he, ht, hup, hcall, hrefused⟩
    obtain ⟨size, hsize⟩ :=
      (get_eq_error_iff s.queue destination).mp ⟨hrefused.1, error, hrefused.2⟩
    exact ⟨place, pick, t, destination, size, he, ht, hup, hcall, hsize⟩
  · rintro ⟨place, pick, t, destination, size, he, ht, hup, hcall, hsize⟩
    obtain ⟨hne, error, hget⟩ := (get_eq_error_iff s.queue destination).mpr ⟨size, hsize⟩
    exact ⟨place, pick, t, destination, error, he, ht, hup, hcall, hne, hget⟩

end CopyQueue

/-! ## All kinds of queue -/

namespace Queue

/-- Whatever was done before, a task that was woken has its wake-up at the gate. When no task
is about to resume, those that wait on a queue of items or on a queue of slots could not be
served. On a queue of copies this holds of those that push, and it holds of all exactly if no
pop was refused in the run and left, from then on, a pop asleep that nobody makes up for. -/
theorem justified_at_rest {α : Type} {n k : Nat} :
    (∀ q : Fifo α, Fifo.new n = .ok q → ∀ events,
      (Fifo.sharedRun { queue := q } events).Prompt ∧
      ((Fifo.sharedRun { queue := q } events).AtRest →
        Justified (Fifo.sharedRun { queue := q } events))) ∧
    (∀ q, SlotQueue.new n k = .ok q → ∀ events,
      (Shared.run { queue := q } events).Prompt ∧
      ((Shared.run { queue := q } events).AtRest →
        Justified (Shared.run { queue := q } events))) ∧
    (∀ q, CopyQueue.new n = .ok q → ∀ events,
      (Shared.run { queue := q } events).Prompt ∧
      ((Shared.run { queue := q } events).AtRest →
        (∀ t ∈ (Shared.run { queue := q } events).blocked, t.side = .room →
          (Shared.run { queue := q } events).queue.ring.length =
            (Shared.run { queue := q } events).queue.ring.capacity) ∧
        (Justified (Shared.run { queue := q } events) ↔
          ¬ ∃ pre e post, events = pre ++ e :: post ∧
            CopyQueue.Refuses (Shared.run { queue := q } pre) e ∧
            ∀ mid, mid <+: post →
              (Shared.run { queue := q } (pre ++ e :: mid)).Overslept))) := by
  refine ⟨fun q hq events => ?_, fun q hq events => ?_, fun q hq events => ?_⟩
  · rw [Fifo.sharedRun_eq]
    refine (Fifo.fresh_new hq).justified_run _ (fun pre e _ _ => ?_)
    exact Fifo.not_refuses (Shared.stable_run Fifo.stable_holds ⟨[], Fifo.holds_new hq⟩ pre) e
  · exact (SlotQueue.fresh_new hq).justified_run events
      (fun _ e _ _ => SlotQueue.not_refuses _ e)
  · refine ⟨(CopyQueue.fresh_new hq).prompt_run events, fun hrest => ?_⟩
    have hsound : Sound ({ queue := q } : CopyQueue.Shared) := (CopyQueue.fresh_new hq).sound
    have hroom : (Shared.run { queue := q } events).Attended .room := by
      obtain hend | ⟨⟨⟩, -⟩ := attended_run_or hsound (attended_new .room) events
      exact hend
    refine ⟨fun t ht hside => full_of_atRest (hsound.run events) hrest hroom ht hside, ?_⟩
    rw [justified_iff (hsound.run events) hrest hroom]
    simp only [Shared.overslept_iff, ← CopyQueue.refuses_iff]
    constructor
    · rintro hend ⟨pre, e, post, rfl, -, hsince⟩
      exact hsince post List.prefix_rfl hend
    · intro hnever
      obtain hend | ⟨-, hrefused⟩ := attended_run_or hsound (attended_new .items) events
      · exact hend
      · exact absurd hrefused hnever

/-- A queue of items passes its one item on; a queue of slots lets a push wait while it is
full; and where a pop sleeps beside an entry, one was refused before. -/
theorem justified_at_rest_one :
    ∃ (f : Fifo Nat) (s : SlotQueue) (c : CopyQueue),
      Fifo.new 1 = .ok f ∧ SlotQueue.new 1 2 = .ok s ∧ CopyQueue.new 1 = .ok c ∧
      Justified (Fifo.sharedRun { queue := f }
        [.queue (.call (.pop ()) true 0), .queue (.call (.pop ()) true 0), .offer 7 1, .take 0,
          .queue (.resume 1 0)]) ∧
      Justified (Shared.run { queue := s }
        [.call (.push [1, 2]) true 0, .call (.push [3, 4]) true 0]) ∧
      ∃ pre e post, [.call (.pop [0]) true 0, .call (.pop [0]) true 0, .call (.push [1, 2]) true 0,
            .resume 0 0] = pre ++ e :: post ∧
        CopyQueue.Refuses (Shared.run { queue := c } pre) e ∧
        ∀ mid, mid <+: post → (Shared.run { queue := c } (pre ++ e :: mid)).Overslept := by
  obtain ⟨hf, hs, hc⟩ := justified_at_rest (α := Nat) (n := 1) (k := 2)
  refine ⟨_, _, _, Fifo.new_of_lt (by decide) (by decide),
    SlotQueue.new_of_lt (by decide) (by decide) (by decide),
    CopyQueue.new_of_lt (by decide) (by decide), ?_, ?_, ?_⟩
  · exact (hf _ (Fifo.new_of_lt (by decide) (by decide)) _).2 (by decide)
  · exact (hs _ (SlotQueue.new_of_lt (by decide) (by decide) (by decide)) _).2 (by decide)
  · obtain ⟨-, hiff⟩ := (hc _ (CopyQueue.new_of_lt (by decide) (by decide))
      [.call (.pop [0]) true 0, .call (.pop [0]) true 0, .call (.push [1, 2]) true 0,
        .resume 0 0]).2 (by decide)
    by_contra hnone
    have hempty := (hiff.mpr hnone).pop ⟨.pop [0], .asleep⟩ (List.mem_singleton_self _) rfl
    cases hempty

/-- Two pops wait for an entry of at most one byte. The entry that comes has two, the pop
that was woken is refused, and the other sleeps on beside the entry. -/
theorem pop_sleeps_beside_entry :
    ∃ q : CopyQueue, CopyQueue.new 1 = .ok q ∧
      (let s := Shared.run { queue := q }
        [.call (.pop [0]) true 0, .call (.pop [0]) true 0, .call (.push [1, 2]) true 0,
          .resume 0 0]
      s.AtRest ∧ s.queue.ring.destroyed = false ∧
        CopyQueue.peekSize s.queue = some 2 ∧ ∃ t ∈ s.blocked, t.side = .items) :=
  ⟨_, CopyQueue.new_of_lt (by decide) (by decide), by decide, rfl, rfl, ⟨.pop [0], .asleep⟩,
    List.mem_singleton_self _, rfl⟩

end Queue

end Netstack
