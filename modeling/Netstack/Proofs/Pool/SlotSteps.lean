import Netstack.Proofs.Conn.Bits
import Netstack.Proofs.Pool.SlotMoves
import Netstack.Proofs.Queue.Calls

/-
What one slot goes through, whoever is resumed.

Operations that come in turn make the changes that `Slot.Change` lists. Calls that wait can do
more: whoever waited for room queues its packet whatever has become of the connection, and whoever
waited for event bits may take them away. `Slot.Step` has these too, and `Pool.Steps` is what every
operation does to a pool (`System.steps_step`). So what survives every step of a slot survives
everything that is asked of a pool.
-/

set_option autoImplicit false

namespace Netstack

/-! ## Queues without their contents -/

namespace Fifo

variable {α : Type} {q q' r : Fifo α}

/-- Two queues have room for equally many items, and are in service or not alike. -/
structure SameBuild (q q' : Fifo α) : Prop where
  capacity : q'.ring.capacity = q.ring.capacity
  destroyed : q'.ring.destroyed = q.ring.destroyed

theorem SameBuild.refl (q : Fifo α) : q.SameBuild q := ⟨rfl, rfl⟩

theorem SameBuild.trans (h : q.SameBuild q') (h' : q'.SameBuild r) : q.SameBuild r :=
  ⟨h'.capacity.trans h.capacity, h'.destroyed.trans h.destroyed⟩

theorem Steady.sameBuild (h : q.Steady q') : q.SameBuild q' := ⟨h.capacity, h.destroyed⟩

theorem sameBuild_mapGate (q : Fifo α) (σ : Side) (f : Gate → Gate) :
    q.SameBuild (q.mapGate σ f) :=
  ⟨Ring.capacity_mapGate f, Ring.destroyed_mapGate f⟩

theorem sameBuild_serve (q : Fifo α) (c : Queue.Call α Unit) : q.SameBuild (q.serve c).1 := by
  cases c with
  | push item => exact (steady_enqueue q item).sameBuild
  | pop destination => exact (steady_dequeue q).sameBuild

/-- A call that begins may go to sleep or be served. -/
theorem sameBuild_begin (q : Fifo α) (waits : Bool) (c : Queue.Call α Unit) :
    q.SameBuild (q.begin waits c).1 := by
  obtain ⟨e, hb⟩ | ⟨-, -, hb⟩ | ⟨-, -, hb⟩ := q.begin_cases waits c <;> rw [hb]
  · exact .refl q
  · exact sameBuild_serve q c
  · exact sameBuild_mapGate q _ _

theorem sameBuild_wake (q : Fifo α) (c : Queue.Call α Unit) :
    q.SameBuild (Blocking.wake q c).1 := by
  obtain ⟨-, e, hw⟩ | ⟨-, hw⟩ | ⟨-, -, hw⟩ := q.wake_cases c <;> rw [hw]
  · exact sameBuild_mapGate q _ _
  · exact sameBuild_mapGate q _ _
  · exact (sameBuild_mapGate q _ _).trans (sameBuild_serve _ c)

theorem sameBuild_expire (q : Fifo α) (c : Queue.Call α Unit) :
    q.SameBuild (Blocking.expire q c).1 := by
  obtain ⟨-, e, he⟩ | ⟨-, -, he⟩ := q.expire_cases c <;> rw [he]
  · exact sameBuild_mapGate q _ _
  · exact (sameBuild_mapGate q _ _).trans (sameBuild_serve _ c)

theorem sameBuild_clear (q : Fifo α) : q.SameBuild (Queue.clear q).1 := by
  unfold Queue.clear
  cases q.ring.checkIdle with
  | error e => exact .refl q
  | ok u => exact ⟨rfl, rfl⟩

end Fifo

namespace EventGroup

variable {g : EventGroup} {mask : EventBits}

/-- A wait that ends brings no bit. -/
theorem Lacks.leaves (h : g.Lacks mask) (o : WaitOptions) (bits : EventBits) :
    o.leaves g.bits bits &&& mask = 0 := by
  unfold WaitOptions.leaves
  split
  · exact h
  · split
    · exact UInt32.zero_and
    · exact h.clear bits

end EventGroup

/-! ## Steps -/

namespace Slot

/-- What a slot may go through when anybody is resumed or anything is asked. -/
inductive Step (limits : Limits) : Slot → Slot → Prop
  | change {s t : Slot} (made : Change limits s t) : Step limits s t
  /-- a call that waits for room is resumed -/
  | queue {s : Slot} {queue queue' : Fifo Buffer} (found : s.rxQueue = some queue)
      (same : queue.SameBuild queue') : Step limits s { s with rxQueue := some queue' }
  /-- a packet that has been queued is announced -/
  | announce {s : Slot} : Step limits s (s.signal ConnBits.receive)
  /-- a call that waits for event bits is resumed, and may take bits away -/
  | events {s : Slot} {g g' : EventGroup} (found : s.events = some g)
      (less : ∀ mask, g.Lacks mask → g'.Lacks mask) : Step limits s { s with events := some g' }

end Slot

namespace Pool

variable {p q : Pool} {i : Nat} {queue queue' : Fifo Buffer}

/-- Every slot went through some steps. -/
abbrev Steps : Pool → Pool → Prop := Through Slot.Step

theorem Changes.steps (hc : p.Changes q) : p.Steps q :=
  ⟨hc.limits, fun i => Relation.ReflTransGen.mono (fun _ _ => .change) _ _ (hc.slot i)⟩

theorem Shifts.steps (hs : p.Shifts q) : p.Steps q := Changes.steps hs.changes

theorem steps_setQueue (hi : p.inbox i = some queue) (hsame : queue.SameBuild queue') :
    p.Steps (p.setQueue i queue') :=
  through_modify fun _ => .single (.queue hi hsame)

theorem steps_afterPush (h : Handle) (result : Except (Rejected Buffer) Unit) :
    p.Steps (p.afterPush h result) := by
  unfold afterPush
  split
  · exact through_modify fun _ => .single .announce
  · exact through_emit _

theorem steps_beginPush (p : Pool) (h : Handle) (packet : Buffer) :
    p.Steps (p.beginPush h packet).1 := by
  unfold beginPush
  cases hin : p.inlet h with
  | error e => exact .refl p
  | ok queue =>
    have hset := steps_setQueue (inlet_eq_ok hin).2 (Fifo.sameBuild_begin queue
      (Timeout.waits (some p.limits.queueTimeout)) (.push packet))
    dsimp only [Queue.begin, Prod.map_fst, id_eq] at hset ⊢
    split <;> rename_i hb <;> rw [hb] at hset
    · exact hset.trans (steps_afterPush h _)
    · exact hset

theorem steps_wake (p : Pool) (call : Call) : p.Steps (p.wake call).1 := by
  cases call with
  | push h packet =>
    unfold wake
    dsimp only
    cases hi : (p.slotAt h.index).rxQueue with
    | none => exact .refl p
    | some queue =>
      have hset := steps_setQueue hi (Fifo.sameBuild_wake queue (.push packet))
      dsimp only [Blocking.wake, Prod.map_fst, id_eq] at hset ⊢
      split <;> rename_i hb <;> rw [hb] at hset
      · exact hset.trans (steps_afterPush h _)
      · exact hset
  | pushRaw i packet =>
    unfold wake
    dsimp only
    cases hi : (p.slotAt i).rxQueue with
    | none => exact .refl p
    | some queue =>
      have hset := steps_setQueue hi (Fifo.sameBuild_wake queue (.push packet))
      dsimp only [Blocking.wake, Prod.map_fst, id_eq] at hset ⊢
      split <;> rename_i hb <;> rw [hb] at hset <;> exact hset
  | pop h => exact Shifts.steps (@shifts_wake p (.pop h) rfl)
  | accept h => exact Shifts.steps (@shifts_wake p (.accept h) rfl)
  | bits i call =>
    have hbits : p.Steps (p.wakeBits i call).1 := by
      unfold wakeBits
      cases hg : (p.slotAt i).events with
      | none => exact .refl p
      | some g =>
        have hless : ∀ mask, g.Lacks mask → (g.wakeWait call).1.Lacks mask := by
          intro mask hlacks
          unfold EventGroup.wakeWait
          dsimp only
          split
          · exact hlacks.leaves _ _
          · exact hlacks
        dsimp only
        split <;> rename_i hq <;> rw [hq] at hless <;>
          exact through_modify fun _ => .single (.events hg hless)
    unfold wake
    dsimp only
    split <;> rename_i hq <;> rw [hq] at hbits <;> exact hbits

theorem steps_expire (p : Pool) (call : Call) : p.Steps (p.expire call).1 := by
  cases call with
  | push h packet =>
    unfold expire
    dsimp only
    cases hi : (p.slotAt h.index).rxQueue with
    | none => exact .refl p
    | some queue =>
      have hset := steps_setQueue hi (Fifo.sameBuild_expire queue (.push packet))
      exact hset.trans (steps_afterPush h _)
  | pushRaw i packet =>
    unfold expire
    dsimp only
    cases hi : (p.slotAt i).rxQueue with
    | none => exact .refl p
    | some queue => exact steps_setQueue hi (Fifo.sameBuild_expire queue (.push packet))
  | pop h => exact Shifts.steps (@shifts_expire p (.pop h) rfl)
  | accept h => exact Shifts.steps (@shifts_expire p (.accept h) rfl)
  | bits i call =>
    unfold expire
    dsimp only
    cases hg : (p.slotAt i).events with
    | none => exact .refl p
    | some g =>
      exact through_modify fun _ => .single (.events hg fun _ hlacks => hlacks.leaves _ _)

end Pool

namespace System

open Pool (Op)

/-- Whatever is asked of a pool, its slots go through such steps. -/
theorem steps_step (s : System) (op : Op) : s.pool.Steps (s.step op).1.pool := by
  -- calls that are made at once do not care who sleeps
  have hchanges := @changes_step s.pool.atRest op
  cases op with
  | beginPush h packet =>
    rw [step, pool_settle]
    exact Pool.steps_beginPush _ h packet
  | beginPop h =>
    rw [step, pool_settle]
    exact Pool.Shifts.steps (Pool.shifts_beginPop _ h true)
  | beginAccept h =>
    rw [step, pool_settle]
    exact Pool.Shifts.steps (Pool.shifts_beginAccept _ h true)
  | wake k =>
    obtain he | ⟨call, -, he⟩ := step_wake_cases s k
    · rw [he]
      exact .refl _
    · rw [he, pool_settle]
      exact Pool.steps_wake _ call
  | expire k =>
    obtain he | ⟨call, -, he⟩ := step_expire_cases s k
    · rw [he]
      exact .refl _
    · rw [he]
      exact Pool.steps_expire _ call
  | _ => exact Pool.Changes.steps (hchanges rfl (by rintro call ⟨⟩))

end System

end Netstack
