import Netstack.Proofs.Event.Waits

/-
Setting bits releases everyone who can be released together.

Setting bits sends a wake-up to everyone who sleeps, and then the tasks resume one after the
other, each finding its wake-up at the gate and what those before it left. Tasks do not get in
each other's way if what one of them takes along no other waits for: then it does not matter to
a task who resumed before it, and all of them end with what they wait for. Each takes its own
bits, so what is left in the end does not depend on the order either.

The induction is on the order in which tasks resume. It says what is left of the bits by what
those who resumed take along, and the tasks that are still to resume are as they were.
-/

set_option autoImplicit false

namespace Netstack

namespace EventGroup

/-! ## Tasks that resume one after the other -/

section Resume

variable {s : Shared} {t u : Task} {place i : Nat}

/-- A task takes a bit along when its wait ends. -/
def Task.Claims (t : Task) (i : Nat) : Prop := Takes t.call.options t.call.mask i

/-- What a task waits for is not affected by what another takes along. -/
def Task.Spares (u t : Task) : Prop := ∀ i, u.Claims i → ¬ IsSet t.call.mask i

/-- A task is about to resume. -/
def Task.up (t : Task) : Prop := t.stage = .woken ∨ t.stage = .late

/-- A task that is about to resume and finds what it waits for ends its wait. -/
theorem resume_of_up (ht : s.tasks[place]? = some t) (hup : t.up)
    (hsat : s.group.satisfies t.call = true) :
    (s.step (.resume place)).tasks =
        s.tasks.set place { t with stage := .ended s.group.bits } ∧
      ∀ i, IsSet (s.step (.resume place)).group.bits i ↔ IsSet s.group.bits i ∧ ¬ t.Claims i := by
  rw [step_resume ht]
  rcases hup with hwoken | hlate
  · rw [Task.resume_of_satisfied hwoken hsat]
    exact ⟨rfl, fun i => isSet_leaves⟩
  · rw [Task.resume_of_late hlate]
    exact ⟨rfl, fun i => isSet_leaves⟩

/-- Tasks at some places that can all resume: each of them finds what it waits for, and none
takes along what another waits for. -/
structure Releasable (s : Shared) (places : List Nat) : Prop where
  nodup : places.Nodup
  up : ∀ k ∈ places, ∃ t, s.tasks[k]? = some t ∧ t.up ∧ s.group.satisfies t.call = true
  spares : ∀ j ∈ places, ∀ k ∈ places, j ≠ k → ∀ u t, s.tasks[j]? = some u →
    s.tasks[k]? = some t → u.Spares t

/-- What is left when the tasks at some places have resumed: their waits are over, each with
what it waited for, no other task has changed, and the bits are without what they took. -/
structure Released (s s' : Shared) (places : List Nat) : Prop where
  ended : ∀ k ∈ places, ∀ t, s.tasks[k]? = some t → ∃ bits,
    s'.tasks[k]? = some { t with stage := .ended bits } ∧
    t.call.options.satisfiedBy bits t.call.mask = true
  others : ∀ k, k ∉ places → s'.tasks[k]? = s.tasks[k]?
  bits : ∀ i, IsSet s'.group.bits i ↔ IsSet s.group.bits i ∧
    ∀ k ∈ places, ∀ t, s.tasks[k]? = some t → ¬ t.Claims i

/-- When the first of them has resumed, the others still find what they wait for. -/
theorem Releasable.tail {places : List Nat} (h : Releasable s (place :: places)) :
    Releasable (s.step (.resume place)) places := by
  have ⟨t, ht, hup, hsat⟩ := h.up place List.mem_cons_self
  have ⟨htasks, hbits⟩ := resume_of_up ht hup hsat
  have ⟨hfresh, hnodup⟩ := List.nodup_cons.mp h.nodup
  have hsame : ∀ k ∈ places, (s.step (.resume place)).tasks[k]? = s.tasks[k]? := by
    intro k hk
    rw [htasks, List.getElem?_set_ne]
    rintro rfl
    exact hfresh hk
  refine ⟨hnodup, fun k hk => ?_, fun j hj k hk hne u v hu hv => ?_⟩
  · have ⟨v, hv, hupv, hsatv⟩ := h.up k (List.mem_cons_of_mem place hk)
    refine ⟨v, (hsame k hk).trans hv, hupv, satisfiedBy_of_imp (fun i hi hset => ?_) hsatv⟩
    -- what the first one takes along is not among the bits that this one waits for
    have hne : place ≠ k := fun heq => hfresh (heq ▸ hk)
    have hspares := h.spares place List.mem_cons_self k (List.mem_cons_of_mem place hk) hne t v
      ht hv
    exact (hbits i).mpr ⟨hset, fun hclaims => hspares i hclaims hi⟩
  · rw [hsame j hj] at hu
    rw [hsame k hk] at hv
    exact h.spares j (List.mem_cons_of_mem place hj) k (List.mem_cons_of_mem place hk) hne u v
      hu hv

/-- Tasks that can all resume do so, in the order given. -/
theorem Releasable.released {places : List Nat} (h : Releasable s places) :
    Released s (s.run (places.map .resume)) places := by
  induction places generalizing s with
  | nil => exact ⟨by simp, fun _ _ => rfl, by simp [Shared.run]⟩
  | cons place places ih =>
    obtain ⟨t, ht, hup, hsat⟩ := h.up place List.mem_cons_self
    obtain ⟨htasks, hbits⟩ := resume_of_up ht hup hsat
    obtain ⟨hfresh, -⟩ := List.nodup_cons.mp h.nodup
    have hsame : ∀ k, k ≠ place → (s.step (.resume place)).tasks[k]? = s.tasks[k]? := by
      intro k hk
      rw [htasks, List.getElem?_set_ne hk.symm]
    have hself : (s.step (.resume place)).tasks[place]? =
        some { t with stage := .ended s.group.bits } := by
      rw [htasks, List.getElem?_set_self (List.getElem?_eq_some_iff.mp ht).1]
    have hrest := ih h.tail
    refine ⟨fun k hk u hu => ?_, fun k hk => ?_, fun i => ?_⟩
    · rcases List.mem_cons.mp hk with rfl | hk
      · rw [ht] at hu
        rw [← Option.some.inj hu]
        exact ⟨s.group.bits, (hrest.others k hfresh).trans hself, hsat⟩
      · have hne : k ≠ place := fun heq => hfresh (heq ▸ hk)
        exact hrest.ended k hk u ((hsame k hne).trans hu)
    · rw [List.mem_cons, not_or] at hk
      exact (hrest.others k hk.2).trans (hsame k hk.1)
    · have hlater : (∀ k ∈ places, ∀ u, (s.step (.resume place)).tasks[k]? = some u →
          ¬ u.Claims i) ↔ ∀ k ∈ places, ∀ u, s.tasks[k]? = some u → ¬ u.Claims i := by
        refine forall₂_congr fun k hk => ?_
        rw [hsame k fun heq => hfresh (heq ▸ hk)]
      have hfirst : (∀ u, s.tasks[place]? = some u → ¬ u.Claims i) ↔ ¬ t.Claims i := by
        simp [ht]
      show IsSet ((s.step (.resume place)).run (places.map .resume)).group.bits i ↔ _
      rw [hrest.bits, hbits, hlater, List.forall_mem_cons, hfirst, and_assoc]

end Resume

/-! ## Setting bits and letting everyone resume -/

section Set

variable {s : Shared} {t u : Task} {mask : EventBits} {j k i : Nat}

namespace Shared

/-- The places of the tasks that are blocked in a wait. -/
def places (s : Shared) : List Nat :=
  (List.range s.tasks.length).filter fun k => s.tasks[k]?.any Task.blocked

/-- Bits are set, and tasks resume in some order. -/
def release (s : Shared) (mask : EventBits) (order : List Nat) : Shared :=
  (s.step (.set mask)).run (order.map .resume)

/-- The bits that the blocked tasks take along, each what it waits for. -/
def claimed (s : Shared) : EventBits :=
  (s.tasks.filter Task.blocked).foldr
    (fun t bits => (if t.call.options.keepBits then 0 else t.call.mask) ||| bits) 0

end Shared

/-- Waits that can be satisfied together: none of them clears more than it waits for, and
what one of them clears no other waits for. -/
structure Compatible (s : Shared) : Prop where
  gentle : ∀ t ∈ s.tasks, t.blocked = true →
    t.call.options.keepBits = true ∨ t.call.options.clearOnExit = false
  apart : s.tasks.Pairwise fun t u => t.blocked = true → u.blocked = true →
    t.call.options.keepBits = false ∨ u.call.options.keepBits = false →
    t.call.mask &&& u.call.mask = 0

theorem mem_places : k ∈ s.places ↔ ∃ t, s.tasks[k]? = some t ∧ t.blocked = true := by
  have hlt : (∃ t, s.tasks[k]? = some t ∧ t.blocked = true) → k < s.tasks.length := by
    rintro ⟨t, ht, _⟩
    exact (List.getElem?_eq_some_iff.mp ht).1
  rw [Shared.places, List.mem_filter, List.mem_range, Option.any_eq_true]
  exact ⟨And.right, fun h => ⟨hlt h, h⟩⟩

theorem nodup_places (s : Shared) : s.places.Nodup := List.nodup_range.filter _

theorem call_wake (t : Task) : t.wake.call = t.call := congrArg Prod.fst (asked_wake t)

theorem up_wake (h : t.blocked = true) : t.wake.up := by
  cases hstage : t.stage with
  | asleep => simp [Task.up, Task.wake, hstage]
  | woken | late => simp [Task.up, Task.wake, hstage]
  | ended bits => simp [Task.blocked, Task.result, hstage] at h

theorem Compatible.claims_iff (h : Compatible s) (ht : t ∈ s.tasks) (hblocked : t.blocked = true) :
    t.Claims i ↔ t.call.options.keepBits = false ∧ IsSet t.call.mask i := by
  have hgentle := h.gentle t ht hblocked
  unfold Task.Claims Takes
  constructor
  · rintro ⟨hkeep, hmask | hclear⟩
    · exact ⟨hkeep, hmask⟩
    · simp [hkeep, hclear] at hgentle
  · rintro ⟨hkeep, hmask⟩
    exact ⟨hkeep, .inl hmask⟩

theorem not_isSet_of_and_eq_zero {a b : EventBits} (h : a &&& b = 0) (ha : IsSet a i) :
    ¬ IsSet b i := by
  intro hb
  have hboth : IsSet (a &&& b) i := isSet_and.mpr ⟨ha, hb⟩
  rw [h] at hboth
  exact not_isSet_zero i hboth

theorem Compatible.spares (h : Compatible s) (hu : s.tasks[j]? = some u)
    (ht : s.tasks[k]? = some t) (hne : j ≠ k) (hub : u.blocked = true) (htb : t.blocked = true) :
    u.Spares t := by
  have ⟨hj, hu'⟩ := List.getElem?_eq_some_iff.mp hu
  have ⟨hk, ht'⟩ := List.getElem?_eq_some_iff.mp ht
  have hpairwise := List.pairwise_iff_getElem.mp h.apart
  intro i hclaims
  have ⟨hkeep, hmask⟩ := (h.claims_iff (List.mem_of_getElem? hu) hub).mp hclaims
  rcases Nat.lt_or_gt_of_ne hne with hlt | hgt
  · have hapart := hpairwise j k hj hk hlt
    rw [hu', ht'] at hapart
    exact not_isSet_of_and_eq_zero (hapart hub htb (.inl hkeep)) hmask
  · have hapart := hpairwise k j hk hj hgt
    rw [hu', ht'] at hapart
    have hzero := hapart htb hub (.inr hkeep)
    rw [UInt32.and_comm] at hzero
    exact not_isSet_of_and_eq_zero hzero hmask

theorem Compatible.isSet_claimed (h : Compatible s) :
    IsSet s.claimed i ↔ ∃ t ∈ s.tasks, t.blocked = true ∧ t.Claims i := by
  have hfold : ∀ tasks : List Task, IsSet (tasks.foldr
      (fun t bits => (if t.call.options.keepBits then 0 else t.call.mask) ||| bits) 0) i ↔
      ∃ t ∈ tasks, t.call.options.keepBits = false ∧ IsSet t.call.mask i := by
    intro tasks
    induction tasks with
    | nil => simp [not_isSet_zero]
    | cons t tasks ih =>
      rw [List.foldr_cons, isSet_or, ih, List.exists_mem_cons_iff]
      cases t.call.options.keepBits <;> simp [not_isSet_zero]
  rw [Shared.claimed, hfold]
  constructor
  · rintro ⟨t, ht, hclaims⟩
    have ⟨ht, hblocked⟩ := List.mem_filter.mp ht
    exact ⟨t, ht, hblocked, (h.claims_iff ht hblocked).mpr hclaims⟩
  · rintro ⟨t, ht, hblocked, hclaims⟩
    exact ⟨t, List.mem_filter.mpr ⟨ht, hblocked⟩, (h.claims_iff ht hblocked).mp hclaims⟩

/-- Every task that is blocked is satisfied as soon as the bits of a mask are set, too. -/
def SatisfiedWith (s : Shared) (mask : EventBits) : Prop :=
  ∀ t ∈ s.tasks, t.blocked = true →
    t.call.options.satisfiedBy (s.group.bits ||| mask) t.call.mask = true

theorem getElem?_set_wake (hs : Sound s) (ht : s.tasks[k]? = some t) :
    (s.step (.set mask)).tasks[k]? = some t.wake := by
  simp [step_set hs.tally.asleep, ht]

theorem Compatible.releasable (h : Compatible s) (hs : Sound s) (hsat : SatisfiedWith s mask)
    {order : List Nat} (hnodup : order.Nodup) (horder : ∀ k ∈ order, k ∈ s.places) :
    Releasable (s.step (.set mask)) order := by
  refine ⟨hnodup, fun k hk => ?_, fun j hj k hk hne u t hu ht => ?_⟩
  · have ⟨t, ht, hblocked⟩ := mem_places.mp (horder k hk)
    refine ⟨t.wake, getElem?_set_wake hs ht, up_wake hblocked, ?_⟩
    rw [call_wake]
    exact hsat t (List.mem_of_getElem? ht) hblocked
  · have ⟨u', hu', hub⟩ := mem_places.mp (horder j hj)
    have ⟨t', ht', htb⟩ := mem_places.mp (horder k hk)
    rw [getElem?_set_wake hs hu'] at hu
    rw [getElem?_set_wake hs ht'] at ht
    have hspares := h.spares hu' ht' hne hub htb
    rw [← Option.some.inj hu, ← Option.some.inj ht]
    unfold Task.Spares Task.Claims at hspares ⊢
    rwa [call_wake, call_wake]

/-- What has become of the blocked tasks when some of them have resumed after a set: those
have all ended with what they wait for, and the rest have been woken, and not for nothing:
whoever was woken still has its wake-up at the gate. -/
structure Progressed (s s' : Shared) (order rest : List Nat) : Prop where
  ended : ∀ k ∈ order, ∀ t, s.tasks[k]? = some t → ∃ bits,
    s'.tasks[k]? = some { t with stage := .ended bits } ∧
    t.call.options.satisfiedBy bits t.call.mask = true
  rest : ∀ k ∈ rest, ∀ t, s.tasks[k]? = some t → s'.tasks[k]? = some t.wake ∧ t.wake.up ∧
    (t.wake.stage = .woken → Blocking.ready s'.group t.wake.call = true)

theorem ended_wake (t : Task) (bits : EventBits) :
    { t.wake with stage := .ended bits } = { t with stage := .ended bits } := by
  unfold Task.wake
  split <;> rfl

theorem Compatible.progressed (h : Compatible s) (hs : Sound s) (hsat : SatisfiedWith s mask)
    {order rest : List Nat} (horder : (order ++ rest).Perm s.places) :
    Progressed s (s.release mask order) order rest := by
  have hnodup := horder.nodup_iff.mpr (nodup_places s)
  have ⟨hnodup, _, hdisjoint⟩ := List.nodup_append.mp hnodup
  have hmem : ∀ k ∈ order, k ∈ s.places :=
    fun k hk => horder.mem_iff.mp (List.mem_append_left rest hk)
  have hreleased := (h.releasable hs hsat hnodup hmem).released
  constructor
  · intro k hk t ht
    have ⟨bits, hended, hbits⟩ := hreleased.ended k hk t.wake (getElem?_set_wake hs ht)
    rw [ended_wake] at hended
    rw [call_wake] at hbits
    exact ⟨bits, hended, hbits⟩
  · intro k hk t ht
    have hfresh : k ∉ order := fun hk' => hdisjoint k hk' k hk rfl
    have hwoken : (s.release mask order).tasks[k]? = some t.wake :=
      (hreleased.others k hfresh).trans (getElem?_set_wake hs ht)
    have ⟨u, hu, hblocked⟩ := mem_places.mp (horder.mem_iff.mp (List.mem_append_right order hk))
    rw [ht] at hu
    refine ⟨hwoken, up_wake (Option.some.inj hu ▸ hblocked), ?_⟩
    exact (hs.run (.set mask :: order.map .resume)).ready (List.mem_of_getElem? hwoken)

/-- When all have resumed, the bits are without what the tasks waited for. -/
theorem Compatible.bits_release (h : Compatible s) (hs : Sound s) (hsat : SatisfiedWith s mask)
    {order : List Nat} (horder : order.Perm s.places) :
    (s.release mask order).group.bits = (s.group.bits ||| mask) &&& ~~~s.claimed := by
  have hnodup := horder.nodup_iff.mpr (nodup_places s)
  have hreleased := (h.releasable hs hsat hnodup fun k hk => horder.mem_iff.mp hk).released
  have hclaimed : ∀ i, (∀ k ∈ order, ∀ t, (s.step (.set mask)).tasks[k]? = some t →
      ¬ t.Claims i) ↔ ¬ IsSet s.claimed i := by
    intro i
    rw [h.isSet_claimed]
    constructor
    · rintro hnone ⟨t, ht, hblocked, hclaims⟩
      have ⟨k, hk⟩ := List.mem_iff_getElem?.mp ht
      have hplace : k ∈ order := horder.mem_iff.mpr (mem_places.mpr ⟨t, hk, hblocked⟩)
      refine hnone k hplace t.wake (getElem?_set_wake hs hk) ?_
      unfold Task.Claims at hclaims ⊢
      rwa [call_wake]
    · intro hnone k hk t ht hclaims
      have ⟨u, hu, hblocked⟩ := mem_places.mp (horder.mem_iff.mp hk)
      rw [getElem?_set_wake hs hu] at ht
      refine hnone ⟨u, List.mem_of_getElem? hu, hblocked, ?_⟩
      unfold Task.Claims at hclaims ⊢
      rwa [← Option.some.inj ht, call_wake] at hclaims
  refine eq_of_isSet fun i => ?_
  rw [isSet_and_not, ← hclaimed]
  exact hreleased.bits i

/-- When all have resumed, nobody waits any more. -/
theorem Compatible.blocked_release (h : Compatible s) (hs : Sound s) (hsat : SatisfiedWith s mask)
    {order : List Nat} (horder : order.Perm s.places) :
    ∀ t ∈ (s.release mask order).tasks, t.blocked = false := by
  have hnodup := horder.nodup_iff.mpr (nodup_places s)
  have hmem : ∀ k ∈ order, k ∈ s.places := fun k hk => horder.mem_iff.mp hk
  have hreleased := (h.releasable hs hsat hnodup hmem).released
  intro t ht
  have ⟨k, hk⟩ := List.mem_iff_getElem?.mp ht
  by_cases hplace : k ∈ order
  · have ⟨u, hu, _⟩ := mem_places.mp (hmem k hplace)
    have ⟨bits, hended, _⟩ := hreleased.ended k hplace u.wake (getElem?_set_wake hs hu)
    rw [Shared.release, hended] at hk
    rw [← Option.some.inj hk]
    rfl
  · -- a task that was not blocked is what it was
    rw [Shared.release, hreleased.others k hplace] at hk
    cases hu : s.tasks[k]? with
    | none => simp [step_set hs.tally.asleep, hu] at hk
    | some u =>
      rw [getElem?_set_wake hs hu] at hk
      have hfree : u.blocked = false := by
        by_contra hblocked
        rw [Bool.not_eq_false] at hblocked
        exact hplace (horder.mem_iff.mpr (mem_places.mpr ⟨u, hu, hblocked⟩))
      rw [← Option.some.inj hk, Task.blocked, result_wake]
      exact hfree

end Set

/-- Bits are set that satisfy every blocked wait, and no wait takes along what another waits
for. Then everyone is woken, or its time is up, and each that was woken has its wake-up at the
gate until it resumes. In whatever order they do, each ends at once with what it waits for,
none goes back to sleep, and the same bits are left. -/
theorem set_releases_everyone (events : List Event) (mask : EventBits)
    (hcompatible : Compatible (Shared.run {} events))
    (hsatisfied : SatisfiedWith (Shared.run {} events) mask) :
    (∀ order rest, (order ++ rest).Perm (Shared.run {} events).places →
      Progressed (Shared.run {} events) ((Shared.run {} events).release mask order) order rest) ∧
    ∀ order, order.Perm (Shared.run {} events).places →
      ((Shared.run {} events).release mask order).group.bits =
        ((Shared.run {} events).group.bits ||| mask) &&& ~~~(Shared.run {} events).claimed ∧
      ((Shared.run {} events).release mask order).group.waiters = 0 := by
  have hs := sound_run events
  refine ⟨fun order rest horder => hcompatible.progressed hs hsatisfied horder,
    fun order horder => ⟨hcompatible.bits_release hs hsatisfied horder, ?_⟩⟩
  have hrun : (Shared.run {} events).release mask order =
      Shared.run {} (events ++ .set mask :: order.map .resume) := by
    rw [Shared.run_append]
    rfl
  have hsound := sound_run (events ++ .set mask :: order.map .resume)
  rw [← hrun] at hsound
  refine hsound.tally.waiting.trans (List.countP_eq_zero.mpr fun t ht => ?_)
  rw [hcompatible.blocked_release hs hsatisfied horder t ht]
  exact Bool.false_ne_true

/-- One task waits for two bits, one for either of two others, and two keep the bit that both
wait for. -/
def fourWaits : List Event :=
  [.wait ⟨0x3, { all := true }⟩ none, .wait ⟨0xC, {}⟩ none,
    .wait ⟨0x40, { keepBits := true }⟩ none,
    .wait ⟨0x40, { keepBits := true, clearOnExit := true }⟩ none]

/-- The four resume from the last to the first, and the kept bit is left. -/
theorem set_releases_everyone_of_four :
    Compatible (Shared.run {} fourWaits) ∧ SatisfiedWith (Shared.run {} fourWaits) 0x47 ∧
      Progressed (Shared.run {} fourWaits)
        ((Shared.run {} fourWaits).release 0x47 [3, 2, 1, 0]) [3, 2, 1, 0] [] ∧
      ((Shared.run {} fourWaits).release 0x47 [3, 2, 1, 0]).group.bits = 0x40 := by
  have hcompatible : Compatible (Shared.run {} fourWaits) := ⟨by decide, by decide⟩
  have hsatisfied : SatisfiedWith (Shared.run {} fourWaits) 0x47 := by
    unfold SatisfiedWith
    decide
  have ⟨hprogressed, hend⟩ := set_releases_everyone fourWaits 0x47 hcompatible hsatisfied
  refine ⟨hcompatible, hsatisfied, hprogressed [3, 2, 1, 0] [] (by decide), ?_⟩
  rw [(hend [3, 2, 1, 0] (by decide)).1]
  decide

end EventGroup

end Netstack
