import Netstack.Proofs.Pool.Builds
import Netstack.Proofs.Pool.ForeignBits

/-
Pools with callers who have queues and event groups in their hands.

Besides asking the pool, whoever has a connection may work on its receive queue and on its event
group without the pool: push and pop, wait behind the gates of the queue, drop all packets at a
stroke, take the queue out of service, set and clear bits. What they work on is looked up through
a live connection at the time. Whoever waits behind a gate stays with the queue of the slot, also
when the connection has gone, since a queue on which somebody waits is not given up.

A `Site` is a pool with everybody who sleeps on it, and a `Deed` is what one of them does next. A
deed is asked of the pool, or it is a touch on the queue or the event group of one slot, and
`touch_perform` says what such a touch can do.
-/

set_option autoImplicit false

namespace Netstack

/-! ## Work on a queue -/

namespace Fifo

variable {α : Type} {q q' : Fifo α} {queued retired : Prop}

/-- What is left of a queue by work that queued an item, or took the queue out of service. -/
structure Worked (q q' : Fifo α) (queued retired : Prop) : Prop where
  capacity : q'.ring.capacity = q.ring.capacity
  destroyed : q'.ring.destroyed = true ↔ q.ring.destroyed = true ∨ retired
  items : ∀ xs, q.Holds xs → ∃ xs', q'.Holds xs' ∧ (xs' ≠ [] → xs ≠ [] ∨ queued) ∧
    (queued → xs' ≠ [])

/-- Work on a queue that keeps its build. -/
theorem SameBuild.worked (hs : q.SameBuild q')
    (hitems : ∀ xs, q.Holds xs → ∃ xs', q'.Holds xs' ∧ (xs' ≠ [] → xs ≠ [] ∨ queued) ∧
      (queued → xs' ≠ [])) : q.Worked q' queued False := by
  refine ⟨hs.capacity, ?_, hitems⟩
  rw [hs.destroyed, or_false]

theorem Worked.congr {queued' retired' : Prop} (h : q.Worked q' queued retired)
    (hqueued : queued ↔ queued') (hretired : retired ↔ retired') :
    q.Worked q' queued' retired' := by
  rw [← hqueued, ← hretired]
  exact h

/-- Whether a call has queued an item. -/
def Queued (progress : Progress (Queue.Call α Unit) (Queue.Answer α α)) : Prop :=
  progress = .done (.pushed (.ok ()))

theorem not_queued_fail (e : Error) (c : Queue.Call α Unit) :
    ¬ Queued (.done (c.fail e) : Progress (Queue.Call α Unit) (Queue.Answer α α)) := by
  cases c <;> simp [Queued, Queue.Call.fail]

theorem not_queued_parked (c : Queue.Call α Unit) :
    ¬ Queued (.parked c : Progress (Queue.Call α Unit) (Queue.Answer α α)) := by
  rintro ⟨⟩

/-- Who comes and goes leaves the items. -/
theorem Holds.mapGate {xs : List α} (h : q.Holds xs) (σ : Side) (f : Gate → Gate) :
    Holds (q.mapGate σ f) xs := by
  cases σ with
  | room => exact h.mapRoom f
  | items => exact h.mapItems f

/-- A call that is served puts its item behind the others, or takes the first. -/
theorem items_serve {c : Queue.Call α Unit} (hd : q.ring.destroyed = false)
    (hstock : q.ring.stock c.side ≠ 0) {xs : List α} (h : q.Holds xs) :
    ∃ xs', Holds (q.serve c).1 xs' ∧ (xs' ≠ [] → xs ≠ [] ∨ Queued (.done (q.serve c).2)) ∧
      (Queued (.done (q.serve c).2) → xs' ≠ []) := by
  cases c with
  | push item =>
    have hroom : xs.length < q.ring.capacity := by
      simp only [Queue.Call.side, Ring.stock, h.length] at hstock
      omega
    exact ⟨_, h.enqueue hd hroom item, fun _ => .inr rfl, fun _ => by simp⟩
  | pop destination =>
    cases xs with
    | nil =>
      simp only [Queue.Call.side, Ring.stock, h.length] at hstock
      exact absurd rfl hstock
    | cons x xs =>
      obtain ⟨q', hq, hxs⟩ := h.dequeue
      have hserve : q.serve (.pop destination) = (q', .popped (.ok x)) := by
        rw [Queue.serve, hq]
        rfl
      rw [hserve]
      exact ⟨xs, hxs, fun _ => .inl (by simp), by rintro ⟨⟩⟩

theorem worked_begin (q : Fifo α) (waits : Bool) (c : Queue.Call α Unit) :
    q.Worked (q.begin waits c).1 (Queued (q.begin waits c).2) False := by
  refine (sameBuild_begin q waits c).worked fun xs h => ?_
  obtain ⟨e, hb⟩ | ⟨hd, hstock, hb⟩ | ⟨-, -, hb⟩ := q.begin_cases waits c <;> rw [hb]
  · exact ⟨xs, h, .inl, fun hq => absurd hq (not_queued_fail e c)⟩
  · exact items_serve hd hstock h
  · exact ⟨xs, h.mapGate _ _, .inl, fun hq => absurd hq (not_queued_parked c)⟩

theorem worked_wake (q : Fifo α) (c : Queue.Call α Unit) :
    q.Worked (Blocking.wake q c).1 (Queued (Blocking.wake q c).2) False := by
  refine (sameBuild_wake q c).worked fun xs h => ?_
  obtain ⟨-, e, hw⟩ | ⟨-, hw⟩ | ⟨hd, hstock, hw⟩ := q.wake_cases c <;> rw [hw]
  · exact ⟨xs, h.mapGate _ _, .inl, fun hq => absurd hq (not_queued_fail e c)⟩
  · exact ⟨xs, h.mapGate _ _, .inl, fun hq => absurd hq (not_queued_parked c)⟩
  · exact items_serve (by simpa using hd) (by simpa using hstock) (h.mapGate _ _)

theorem worked_expire (q : Fifo α) (c : Queue.Call α Unit) :
    q.Worked (Blocking.expire q c).1 (Queued (.done (Blocking.expire q c).2)) False := by
  refine (sameBuild_expire q c).worked fun xs h => ?_
  obtain ⟨-, e, he⟩ | ⟨hd, hstock, he⟩ := q.expire_cases c <;> rw [he]
  · exact ⟨xs, h.mapGate _ _, .inl, fun hq => absurd hq (not_queued_fail e c)⟩
  · exact items_serve (by simpa using hd) (by simpa using hstock) (h.mapGate _ _)

theorem worked_clear (q : Fifo α) : q.Worked (Queue.clear q).1 False False := by
  refine (sameBuild_clear q).worked fun xs h => ?_
  unfold Queue.clear
  cases q.ring.checkIdle with
  | error e => exact ⟨xs, h, .inl, False.elim⟩
  | ok u => exact ⟨[], h.cleared, fun hne => absurd rfl hne, False.elim⟩

/-- A queue is taken out of service unless somebody waits on it. -/
theorem worked_destroy (q : Fifo α) :
    q.Worked (Queue.destroy q).1 False (∃ n, (Queue.destroy q).2 = .ok n) := by
  unfold Queue.destroy
  cases q.ring.checkIdle with
  | error e =>
    refine ⟨rfl, ?_, fun xs h => ⟨xs, h, .inl, False.elim⟩⟩
    simp
  | ok u =>
    refine ⟨rfl, iff_of_true rfl (.inr ⟨_, rfl⟩), fun xs h => ?_⟩
    exact ⟨[], h.retired, fun hne => absurd rfl hne, False.elim⟩

end Fifo

/-! ## Sites -/

/-- What somebody may do next. -/
inductive Deed
  /-- ask the pool -/
  | ask (op : Pool.Op)
  /-- push to the receive queue of a connection, or pop from it, waiting if one has to -/
  | call (h : Handle) (c : Queue.Call Buffer Unit) (waits : Bool)
  /-- resume a call on a queue, by its place among those that wait -/
  | wake (k : Nat)
  /-- the time of a call on a queue is up -/
  | expire (k : Nat)
  /-- drop every packet of a connection, if nobody waits -/
  | clear (h : Handle)
  /-- take the receive queue of a connection out of service, if nobody waits -/
  | destroy (h : Handle)
  /-- set bits of the event group of a connection -/
  | set (h : Handle) (bits : EventBits)
  /-- clear bits of the event group of a connection -/
  | unset (h : Handle) (bits : EventBits)

theorem Deed.touch_or_ask (d : Deed) : (∀ op, d ≠ .ask op) ∨ ∃ op, d = .ask op := by
  cases d with
  | ask op => exact .inr ⟨op, rfl⟩
  | call | wake | expire | clear | destroy | set | unset => exact .inl (by rintro op ⟨⟩)

/-- A pool with the calls that sleep on it, and with the calls that wait behind the gates of its
receive queues, each with the slot of the queue. -/
structure Site where
  system : System
  blocked : List (Nat × Queue.Call Buffer Unit) := []

namespace Site

variable {s : Site} {d : Deed} {i : Nat}

abbrev pool (s : Site) : Pool := s.system.pool

def withPool (s : Site) (p : Pool) : Site := { s with system := { s.system with pool := p } }

@[simp] theorem pool_withPool (s : Site) (p : Pool) : (s.withPool p).pool = p := rfl

/-- The call on a queue that a deed begins or resumes: the slot of the queue, the queue
afterwards, and what the call has come to. -/
def attempt (s : Site) : Deed →
    Option (Nat × Fifo Buffer × Progress (Queue.Call Buffer Unit) (Queue.Answer Buffer Buffer))
  | .call h c waits =>
    match s.pool.rxQueue h with
    | .ok queue => some (h.index, queue.begin waits c)
    | .error _ => none
  | .wake k =>
    match s.blocked[k]? with
    | some (i, c) => (s.pool.inbox i).map fun queue => (i, Blocking.wake queue c)
    | none => none
  | .expire k =>
    match s.blocked[k]? with
    | some (i, c) =>
      (s.pool.inbox i).map fun queue => (i, (Blocking.expire queue c).map id .done)
    | none => none
  | _ => none

/-- The calls on queues that a deed leaves alone. -/
def others (s : Site) : Deed → List (Nat × Queue.Call Buffer Unit)
  | .wake k | .expire k => s.blocked.eraseIdx k
  | _ => s.blocked

/-- The site after a call on a queue has come to something. A call that has to wait is kept with
the slot of the queue. -/
def settle (s : Site) (others : List (Nat × Queue.Call Buffer Unit)) :
    Option (Nat × Fifo Buffer × Progress (Queue.Call Buffer Unit) (Queue.Answer Buffer Buffer)) →
    Site
  | none => { s with blocked := others }
  | some (i, queue, .done _) => { s.withPool (s.pool.setQueue i queue) with blocked := others }
  | some (i, queue, .parked c) =>
    { s.withPool (s.pool.setQueue i queue) with blocked := others ++ [(i, c)] }

def perform (s : Site) (d : Deed) : Site :=
  match d with
  | .ask op => { s with system := (s.system.step op).1 }
  | .clear h => s.withPool (s.pool.onQueue h Queue.clear).1
  | .destroy h => s.withPool (s.pool.onQueue h Queue.destroy).1
  | .set h bits => s.withPool (s.pool.onEvents h fun g => (g.set bits, ())).1
  | .unset h bits => s.withPool (s.pool.onEvents h fun g => (g.clear bits, ())).1
  | .call _ _ _ | .wake _ | .expire _ => s.settle (s.others d) (s.attempt d)

/-- The site after a sequence of deeds. -/
def run (s : Site) (deeds : List Deed) : Site := deeds.foldl perform s

theorem run_snoc (s : Site) (deeds : List Deed) (d : Deed) :
    s.run (deeds ++ [d]) = (s.run deeds).perform d := List.foldl_append

/-! ## What a deed does to a slot -/

/-- A deed queues a packet in a slot. -/
def Queues (s : Site) (i : Nat) : Deed → Prop
  | .ask op => ∃ e, s.system.traffic op = .put e ∧ e.owner.index = i
  | d => ∃ queue progress, s.attempt d = some (i, queue, progress) ∧ Fifo.Queued progress

/-- A deed takes the receive queue of a slot out of service. -/
def Destroys (s : Site) (i : Nat) (d : Deed) : Prop :=
  ∃ h n, d = .destroy h ∧ h.index = i ∧ (s.pool.onQueue h Queue.destroy).2 = .ok (.ok n)

/-- A deed sets bits that are foreign to the connections of a slot. -/
def Marks (s : Site) (i : Nat) (d : Deed) : Prop :=
  ∃ h bits, d = .set h bits ∧ h.index = i ∧ bits &&& ConnBits.foreign ≠ 0 ∧
    ∃ group, s.pool.events h = .ok group

theorem queues_iff (hd : ∀ op, d ≠ .ask op) (i : Nat) : s.Queues i d ↔
    ∃ queue progress, s.attempt d = some (i, queue, progress) ∧ Fifo.Queued progress := by
  cases d with
  | ask op => exact absurd rfl (hd op)
  | call | wake | expire | clear | destroy | set | unset => exact Iff.rfl

theorem not_queues (hd : ∀ op, d ≠ .ask op) (hnone : s.attempt d = none) (i : Nat) :
    ¬ s.Queues i d := by
  rw [queues_iff hd, hnone]
  simp

theorem not_destroys (hd : ∀ h, d ≠ .destroy h) (i : Nat) : ¬ s.Destroys i d := by
  rintro ⟨h, _, hdestroy, -⟩
  exact hd h hdestroy

theorem not_marks (hd : ∀ h bits, d ≠ .set h bits) (i : Nat) : ¬ s.Marks i d := by
  rintro ⟨h, bits, hset, -⟩
  exact hd h bits hset

/-- What a deed that is not asked of the pool may do to the pool. -/
inductive Touch (s : Site) (d : Deed) : Pool → Prop
  | nothing (queues : ∀ i, ¬ s.Queues i d) (destroys : ∀ i, ¬ s.Destroys i d)
      (marks : ∀ i, ¬ s.Marks i d) : Touch s d s.pool
  /-- somebody works on the queue of a slot -/
  | queue {i : Nat} {queue queue' : Fifo Buffer} (found : s.pool.inbox i = some queue)
      (worked : queue.Worked queue' (s.Queues i d) (s.Destroys i d))
      (others : ∀ j, j ≠ i → ¬ s.Queues j d ∧ ¬ s.Destroys j d) (marks : ∀ j, ¬ s.Marks j d) :
      Touch s d (s.pool.setQueue i queue')
  /-- somebody changes the bits of a slot -/
  | events {i : Nat} {g g' : EventGroup} (found : (s.pool.slotAt i).events = some g)
      (queues : ∀ j, ¬ s.Queues j d) (destroys : ∀ j, ¬ s.Destroys j d)
      (marks : s.Marks i d → ¬ g'.Lacks ConnBits.foreign)
      (others : ∀ j, s.Marks j d → j = i)
      (native : ¬ s.Marks i d → g.Lacks ConnBits.foreign → g'.Lacks ConnBits.foreign) :
      Touch s d (s.pool.setEvents i g')

/-- A call that is begun or resumed works on the queue of one slot. -/
theorem worked_attempt {queue' : Fifo Buffer}
    {progress : Progress (Queue.Call Buffer Unit) (Queue.Answer Buffer Buffer)}
    (hcome : s.attempt d = some (i, queue', progress)) :
    ∃ queue, s.pool.inbox i = some queue ∧ queue.Worked queue' (Fifo.Queued progress) False := by
  -- whatever piece of a call it is, it is made on the queue in the slot
  have hpiece : ∀ {queue : Fifo Buffer} {j : Nat}
      {piece : Fifo Buffer × Progress (Queue.Call Buffer Unit) (Queue.Answer Buffer Buffer)},
      s.pool.inbox j = some queue → queue.Worked piece.1 (Fifo.Queued piece.2) False →
      (j, piece) = (i, queue', progress) → ∃ queue, s.pool.inbox i = some queue ∧
        queue.Worked queue' (Fifo.Queued progress) False := by
    intro queue j piece hinbox hworked heq
    obtain ⟨rfl, rfl⟩ := Prod.mk.inj heq
    exact ⟨queue, hinbox, hworked⟩
  unfold attempt at hcome
  split at hcome
  · next h c waits =>
    split at hcome
    · next queue hq =>
      exact hpiece (Pool.inbox_of_rxQueue hq) (Fifo.worked_begin queue waits c)
        (Option.some.inj hcome)
    · cases hcome
  · split at hcome
    · next c _ =>
      obtain ⟨queue, hqueue, hcall⟩ := Option.map_eq_some_iff.1 hcome
      exact hpiece hqueue (Fifo.worked_wake queue c) hcall
    · cases hcome
  · split at hcome
    · next c _ =>
      obtain ⟨queue, hqueue, hcall⟩ := Option.map_eq_some_iff.1 hcome
      exact hpiece hqueue (Fifo.worked_expire queue c) hcall
    · cases hcome
  · cases hcome

/-- A deed that begins or resumes a call on a queue touches that queue, or finds nothing. -/
theorem touch_attempt (others : List (Nat × Queue.Call Buffer Unit)) (hd : ∀ op, d ≠ .ask op)
    (hdestroys : ∀ j, ¬ s.Destroys j d) (hmarks : ∀ j, ¬ s.Marks j d) :
    s.Touch d (s.settle others (s.attempt d)).pool := by
  cases hcome : s.attempt d with
  | none => exact .nothing (not_queues hd hcome) hdestroys hmarks
  | some come =>
    obtain ⟨i, queue', progress⟩ := come
    obtain ⟨queue, hqueue, hworked⟩ := worked_attempt hcome
    have hqueues : ∀ j, s.Queues j d ↔ i = j ∧ Fifo.Queued progress := by
      intro j
      rw [queues_iff hd, hcome]
      simp
    have hwork : queue.Worked queue' (s.Queues i d) (s.Destroys i d) := by
      refine hworked.congr ?_ (iff_of_false id (hdestroys i))
      rw [hqueues, and_iff_right rfl]
    have htouch : s.Touch d (s.pool.setQueue i queue') := by
      refine .queue hqueue hwork (fun j hj => ⟨fun hq => hj ?_, hdestroys j⟩) hmarks
      exact ((hqueues j).1 hq).1.symm
    cases progress <;> exact htouch

/-- Work at a stroke on the queue of a connection, which queues nothing. -/
theorem touch_onQueue {α : Type} {h : Handle} {work : Fifo Buffer → Fifo Buffer × α}
    (hqueues : ∀ j, ¬ s.Queues j d) (hmarks : ∀ j, ¬ s.Marks j d)
    (hother : ∀ j, s.Destroys j d → j = h.index)
    (hworked : ∀ queue, s.pool.rxQueue h = .ok queue →
      queue.Worked (work queue).1 False (s.Destroys h.index d))
    (hnone : ∀ e, s.pool.rxQueue h = .error e → ¬ s.Destroys h.index d) :
    s.Touch d (s.pool.onQueue h work).1 := by
  unfold Pool.onQueue
  cases hq : s.pool.rxQueue h with
  | error e =>
    refine .nothing hqueues (fun j hj => ?_) hmarks
    obtain rfl := hother j hj
    exact hnone e hq hj
  | ok queue =>
    have hwork := (hworked queue hq).congr (iff_of_false id (hqueues h.index)) Iff.rfl
    exact .queue (Pool.inbox_of_rxQueue hq) hwork
      (fun j hj => ⟨hqueues j, fun hd => hj (hother j hd)⟩) hmarks

/-- An event group that can be looked up is the one in the slot. -/
theorem events_of_lookup {p : Pool} {h : Handle} {g : EventGroup} (hg : p.events h = .ok g) :
    (p.slotAt h.index).events = some g := by
  unfold Pool.events at hg
  obtain ⟨t, ht, hg⟩ := bind_eq_ok_iff.1 hg
  rw [(Pool.slot?_eq_some_iff_slotAt.1 (Pool.slot_eq_ok_iff.1 ht)).1]
  cases he : t.events with
  | none =>
    rw [he] at hg
    cases hg
  | some g' =>
    rw [he] at hg
    exact congrArg some (Except.ok.inj hg)

/-- Whoever sets bits marks the slot if a foreign bit is among them. -/
theorem marks_set_iff {h : Handle} {bits : EventBits} {g : EventGroup}
    (hg : s.pool.events h = .ok g) (j : Nat) :
    s.Marks j (.set h bits) ↔ h.index = j ∧ bits &&& ConnBits.foreign ≠ 0 := by
  constructor
  · rintro ⟨_, _, ⟨⟩, hj, hbits, -⟩
    exact ⟨hj, hbits⟩
  · rintro ⟨hj, hbits⟩
    exact ⟨h, bits, rfl, hj, hbits, g, hg⟩

theorem touch_clear (s : Site) (h : Handle) :
    s.Touch (.clear h) (s.perform (.clear h)).pool := by
  have hno : ∀ j, ¬ s.Destroys j (.clear h) := not_destroys (by simp)
  refine touch_onQueue (not_queues (by simp) rfl) (not_marks (by simp))
    (fun j hj => absurd hj (hno j)) (fun queue _ => ?_) (fun _ _ => hno _)
  exact (Fifo.worked_clear queue).congr Iff.rfl (iff_of_false id (hno _))

theorem touch_destroy (s : Site) (h : Handle) :
    s.Touch (.destroy h) (s.perform (.destroy h)).pool := by
  refine touch_onQueue (not_queues (by simp) rfl) (not_marks (by simp)) ?_ ?_ ?_
  · rintro j ⟨_, _, ⟨⟩, hj, -⟩
    exact hj.symm
  · intro queue hq
    refine (Fifo.worked_destroy queue).congr Iff.rfl ?_
    constructor
    · rintro ⟨n, hn⟩
      refine ⟨h, n, rfl, rfl, ?_⟩
      rw [Pool.onQueue, hq]
      exact congrArg Except.ok hn
    · rintro ⟨_, n, ⟨⟩, -, hn⟩
      rw [Pool.onQueue, hq] at hn
      exact ⟨n, Except.ok.inj hn⟩
  · rintro e hq ⟨_, n, ⟨⟩, -, hn⟩
    rw [Pool.onQueue, hq] at hn
    cases hn

theorem touch_set (s : Site) (h : Handle) (bits : EventBits) :
    s.Touch (.set h bits) (s.perform (.set h bits)).pool := by
  rw [perform, pool_withPool, Pool.onEvents]
  cases hg : s.pool.events h with
  | error e =>
    refine .nothing (not_queues (by simp) rfl) (not_destroys (by simp)) ?_
    rintro j ⟨_, _, ⟨⟩, -, -, g, hok⟩
    rw [hg] at hok
    cases hok
  | ok g =>
    refine .events (events_of_lookup hg) (not_queues (by simp) rfl) (not_destroys (by simp))
      ?_ ?_ ?_
    · intro hmarks hlacks
      -- the foreign bits that were set are there
      have hall : bits &&& ConnBits.foreign = 0 := by
        rw [EventGroup.Lacks, EventGroup.and_set, UInt32.or_eq_zero_iff] at hlacks
        exact hlacks.2
      exact ((marks_set_iff hg h.index).1 hmarks).2 hall
    · intro j hmarks
      exact ((marks_set_iff hg j).1 hmarks).1.symm
    · intro hno hlacks
      refine hlacks.set ?_
      by_contra hbits
      exact hno ((marks_set_iff hg h.index).2 ⟨rfl, hbits⟩)

theorem touch_unset (s : Site) (h : Handle) (bits : EventBits) :
    s.Touch (.unset h bits) (s.perform (.unset h bits)).pool := by
  have hno : ∀ j, ¬ s.Marks j (.unset h bits) := not_marks (by simp)
  rw [perform, pool_withPool, Pool.onEvents]
  cases hg : s.pool.events h with
  | error e => exact .nothing (not_queues (by simp) rfl) (not_destroys (by simp)) hno
  | ok g =>
    exact .events (events_of_lookup hg) (not_queues (by simp) rfl) (not_destroys (by simp))
      (fun hm => absurd hm (hno _)) (fun j hm => absurd hm (hno j))
      (fun _ hlacks => hlacks.clear bits)

/-- A deed that is not asked of the pool touches one queue or one event group, or nothing. -/
theorem touch_perform (s : Site) {d : Deed} (hd : ∀ op, d ≠ .ask op) :
    s.Touch d (s.perform d).pool := by
  cases d with
  | ask op => exact absurd rfl (hd op)
  | call h c waits | wake k | expire k =>
    exact touch_attempt _ hd (not_destroys (by simp)) (not_marks (by simp))
  | clear h => exact s.touch_clear h
  | destroy h => exact s.touch_destroy h
  | set h bits => exact s.touch_set h bits
  | unset h bits => exact s.touch_unset h bits

end Site

end Netstack
