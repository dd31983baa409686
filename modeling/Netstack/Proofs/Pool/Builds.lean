import Netstack.Proofs.Pool.SlotSteps

/-
How the receive queues of a pool are built.

Apart from its packets and the callers that wait, a queue is known by its capacity and by whether
it is still in service. Neither is touched by anything that a pool does with the queue of a slot:
packets come and go, a connection that ends drains its queue, and a queue that is in the slot when
it is handed out again is handed out with it. A queue is only ever replaced by another one if it
was given up, which takes one that is in service. So whether a slot has a queue out of service is
decided by those who have the queue in their hands, once and for good.
-/

set_option autoImplicit false

namespace Netstack

/-! ## Slots -/

namespace Slot

variable {s t : Slot} {limits : Limits} {n : Nat} {out : Prop}

/-- The queue of a slot, if there is one, has room for `n` packets and is out of service exactly
if `out` says so; then there has to be one. -/
def Built (s : Slot) (n : Nat) (out : Prop) : Prop :=
  match s.rxQueue with
  | some queue => queue.ring.capacity = n ∧ (queue.ring.destroyed = true ↔ out)
  | none => ¬ out

theorem Built.congr (h : s.Built n out) (hq : t.rxQueue = s.rxQueue) : t.Built n out := by
  unfold Built
  rw [hq]
  exact h

theorem Built.of_iff {out' : Prop} (h : s.Built n out) (hout : out ↔ out') : s.Built n out' := by
  rw [← hout]
  exact h

theorem Built.queue {queue : Fifo Buffer} (h : s.Built n out) (hq : s.rxQueue = some queue) :
    queue.ring.capacity = n ∧ (queue.ring.destroyed = true ↔ out) := by
  unfold Built at h
  rw [hq] at h
  exact h

theorem built_of_queue {queue : Fifo Buffer} (hq : s.rxQueue = some queue)
    (hcap : queue.ring.capacity = n) (hout : queue.ring.destroyed = true ↔ out) :
    s.Built n out := by
  unfold Built
  rw [hq]
  exact ⟨hcap, hout⟩

/-- The slot has another queue of the same build. -/
theorem Built.withQueue {queue queue' : Fifo Buffer} (h : s.Built n out)
    (hq : s.rxQueue = some queue) (hq' : t.rxQueue = some queue')
    (hsame : queue.SameBuild queue') : t.Built n out := by
  obtain ⟨hcap, hout⟩ := h.queue hq
  refine built_of_queue hq' (hsame.capacity.trans hcap) ?_
  rw [hsame.destroyed]
  exact hout

/-- A slot is handed out with the queue that it had, or with a new one that is in service. -/
theorem Built.prepared (h : s.Built limits.connQueueLen out) (hprep : s.prepared limits = .ok t) :
    t.Built limits.connQueueLen out := by
  unfold Slot.prepared at hprep
  cases hq : s.rxQueue with
  | some queue =>
    rw [hq] at hprep
    cases hprep
    exact h.congr hq.symm
  | none =>
    -- where there is no queue, none is out of service, so the new one is what `out` says
    have hin : ¬ out := by
      unfold Built at h
      rw [hq] at h
      exact h
    rw [hq] at hprep
    dsimp only at hprep
    cases hnew : (Fifo.new limits.connQueueLen : Except Error (Fifo Buffer)) with
    | error e =>
      rw [hnew] at hprep
      cases hprep
    | ok queue =>
      rw [hnew] at hprep
      cases hprep
      have hrep := Fifo.represents_new hnew
      refine built_of_queue rfl hrep.capacity ?_
      rw [hrep.destroyed]
      simp [hin]

/-- A queue that is given up was in service; one that was destroyed already stays. -/
theorem Built.released (h : s.Built n out) : s.released.Built n out := by
  cases hq : s.rxQueue with
  | none => exact h.congr (by rw [Slot.released, hq]; rfl)
  | some queue =>
    obtain ⟨-, hout⟩ := h.queue hq
    cases hidle : queue.ring.checkIdle with
    | error e =>
      have hsame : s.released.rxQueue = s.rxQueue := by
        rw [Slot.released, hq]
        simp only [Option.bind_some, Queue.destroy, hidle]
      exact h.congr hsame
    | ok u =>
      have hnone : s.released.rxQueue = none := by
        rw [Slot.released, hq]
        simp only [Option.bind_some, Queue.destroy, hidle]
      -- a queue that was destroyed already does not pass for an idle one
      have hserves : ¬ queue.ring.destroyed = true := by
        intro hd
        rw [Ring.checkIdle, if_pos hd] at hidle
        cases hidle
      unfold Built
      rw [hnone]
      rw [hout] at hserves
      exact hserves

/-- The end of a connection drains its queue, and may give it up. -/
theorem Built.ended (h : s.Built n out) (limits : Limits) : (s.ended limits).Built n out := by
  have hshut : s.shut.Built n out := by
    cases hq : s.rxQueue with
    | none => exact h.congr (by rw [show s.shut.rxQueue = s.rxQueue.map _ from rfl, hq]; rfl)
    | some queue =>
      refine h.withQueue hq ?_ (Fifo.steady_drain queue).sameBuild
      rw [show s.shut.rxQueue = s.rxQueue.map _ from rfl, hq]
      rfl
  unfold Slot.ended
  split
  · exact hshut.released
  · exact hshut

/-- Every move leaves a slot a queue of the build that it had, if it leaves it one. -/
theorem Move.built (hm : Move limits s t) (h : s.Built limits.connQueueLen out) :
    t.Built limits.connQueueLen out := by
  cases hm with
  | prepare free prepared => exact h.prepared prepared
  | foster free prepared parent o peer => exact (h.prepared prepared).congr rfl
  | receive active found steady more => exact h.withQueue found rfl steady.sameBuild
  | take found steady less => exact h.withQueue found rfl steady.sameBuild
  | miss found steady empty => exact h.withQueue found rfl steady.sameBuild
  | close active => exact h.ended limits
  | bind | connect | options | children | join | leave | deserted | vacate | send | wait =>
    exact h.congr rfl

/-- So does every other step. -/
theorem Step.built (hs : Step limits s t) (h : s.Built limits.connQueueLen out) :
    t.Built limits.connQueueLen out := by
  cases hs with
  | change made =>
    cases made with
    | move made => exact made.built h
    | listen bound empty => exact h.congr rfl
  | queue found same => exact h.withQueue found rfl same
  | announce | events => exact h.congr rfl

end Slot

namespace System

/-- Whatever is asked of a pool, the queues of its slots keep their build. -/
theorem built_step (s : System) (op : Pool.Op) {i : Nat} {out : Prop}
    (h : (s.pool.slotAt i).Built s.pool.limits.connQueueLen out) :
    ((s.step op).1.pool.slotAt i).Built s.pool.limits.connQueueLen out :=
  (s.steps_step op).keeps (fun _ _ made => made.built) i h

end System

end Netstack
