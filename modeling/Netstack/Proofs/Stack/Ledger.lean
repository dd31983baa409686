import Netstack.Proofs.Stack.Effects

/-
Books on the frames of a stack.

Frames and events travel apart. A frame that is accepted into a queue of an interface waits
there, and the core is told by an event, which is refused if the core has too many of them.
An event makes the core serve every frame that waits, so a later event may find nothing to
do. What ties the two together is written down here for lists alone: a ledger of what
happened, the frames that wait, and the events that the core was told of.

`Law` says that what waits is what was accepted and not served yet, in its order, and that
for a queue with frames in it either there is an event, or one was refused since the queue was
last drained. The law is kept when the core is told of something, when a frame is accepted
and the core is told, and when a queue is drained.
-/

set_option autoImplicit false

namespace Netstack

open Interface (Direction)

/-- The event that asks for the work on one direction of an interface. -/
def CoreEvent.of : Direction → Nat → CoreEvent
  | .rx, index => .rx index
  | .tx, index => .tx index

theorem CoreEvent.exists_of (event : CoreEvent) : ∃ d index, event = .of d index := by
  cases event with
  | rx index => exact ⟨.rx, index, rfl⟩
  | tx index => exact ⟨.tx, index, rfl⟩

theorem CoreEvent.of_inj {d d' : Direction} {k k' : Nat} :
    CoreEvent.of d k = .of d' k' ↔ d = d' ∧ k = k' := by
  cases d <;> cases d' <;> simp [CoreEvent.of]

/-- What happens to the frames of a stack and to the events about them. -/
inductive Entry
  /-- a frame was put into a queue -/
  | accepted (d : Direction) (index : Nat) (frame : Buffer)
  /-- the core has too many events to be told of this one -/
  | refused (event : CoreEvent)
  /-- a received frame was dispatched, or a frame to be sent was handed to the driver -/
  | served (d : Direction) (index : Nat) (frame : Buffer)
  /-- nothing was left in a queue -/
  | drained (d : Direction) (index : Nat)
  deriving DecidableEq

/-- What happened, oldest first. -/
abbrev Ledger := List Entry

namespace Ledger

variable {log new : Ledger} {d d' : Direction} {k k' : Nat} {frame : Buffer} {xs : List Buffer}
  {fs : Direction → Nat → List Buffer} {es es' : List CoreEvent} {event : CoreEvent}

/-- The frames that were put into one queue. -/
def accepted (log : Ledger) (d : Direction) (k : Nat) : List Buffer :=
  log.filterMap fun
    | .accepted d' k' frame => if d' = d ∧ k' = k then some frame else none
    | _ => none

/-- The frames that were taken out of one queue, and what they wait for was done. -/
def served (log : Ledger) (d : Direction) (k : Nat) : List Buffer :=
  log.filterMap fun
    | .served d' k' frame => if d' = d ∧ k' = k then some frame else none
    | _ => none

/-- The core could not be told of a queue, and the queue was not drained since. -/
def Missed (log : Ledger) (d : Direction) (k : Nat) : Prop :=
  ∃ before after, log = before ++ .refused (.of d k) :: after ∧ .drained d k ∉ after

/-- A queue was drained of these frames. -/
def draining (d : Direction) (k : Nat) (xs : List Buffer) : Ledger :=
  xs.map (.served d k) ++ [.drained d k]

@[simp] theorem accepted_append (log new : Ledger) (d : Direction) (k : Nat) :
    accepted (log ++ new) d k = accepted log d k ++ accepted new d k := List.filterMap_append

@[simp] theorem served_append (log new : Ledger) (d : Direction) (k : Nat) :
    served (log ++ new) d k = served log d k ++ served new d k := List.filterMap_append

theorem Missed.append (h : Missed log d k) (hnew : .drained d k ∉ new) :
    Missed (log ++ new) d k := by
  obtain ⟨before, after, rfl, hafter⟩ := h
  refine ⟨before, after ++ new, by simp, ?_⟩
  rw [List.mem_append]
  exact fun h => h.elim hafter hnew

theorem missed_refused (log : Ledger) (d : Direction) (k : Nat) :
    Missed (log ++ [.refused (.of d k)]) d k := ⟨log, [], rfl, by simp⟩

theorem accepted_draining (d' : Direction) (k' : Nat) (xs : List Buffer) (d : Direction)
    (k : Nat) : accepted (draining d' k' xs) d k = [] := by
  simp [accepted, draining, List.filterMap_append, List.filterMap_map]

theorem served_draining (d' : Direction) (k' : Nat) (xs : List Buffer) (d : Direction)
    (k : Nat) : served (draining d' k' xs) d k = if d' = d ∧ k' = k then xs else [] := by
  unfold served draining
  rw [List.filterMap_append, List.filterMap_map]
  by_cases h : d' = d ∧ k' = k <;> simp [h]

theorem drained_mem_draining :
    .drained d k ∈ draining d' k' xs ↔ d = d' ∧ k = k' := by
  simp [draining]

/-! ## The law -/

/-- The core was told of an event, or could not be told. -/
def Told (event : CoreEvent) (es : List CoreEvent) (new : Ledger) (es' : List CoreEvent) : Prop :=
  (es' = es ++ [event] ∧ new = []) ∨ (es' = es ∧ new = [.refused event])

/-- What waits was accepted and not served yet, and the core knows of it, or has missed it. -/
structure Law (log : Ledger) (fs : Direction → Nat → List Buffer) (es : List CoreEvent) :
    Prop where
  moved : ∀ d k, log.accepted d k = log.served d k ++ fs d k
  awaited : ∀ d k, fs d k ≠ [] → .of d k ∈ es ∨ log.Missed d k

theorem law_nil (es : List CoreEvent) : Law [] Stack.noFrames es :=
  ⟨fun _ _ => rfl, fun _ _ h => absurd rfl h⟩

theorem Law.told (h : Law log fs es) (ht : Told event es new es') : Law (log ++ new) fs es' := by
  rcases ht with ⟨rfl, rfl⟩ | ⟨rfl, rfl⟩
  · rw [List.append_nil]
    refine ⟨h.moved, fun d k hne => ?_⟩
    exact (h.awaited d k hne).imp_left (List.mem_append_left _)
  · refine ⟨fun d k => ?_, fun d k hne => ?_⟩
    · simpa [accepted, served] using h.moved d k
    · exact (h.awaited d k hne).imp_right fun hm => hm.append (by simp)

/-- A frame is accepted, and the core is told of its queue. -/
theorem Law.queued (h : Law log fs es) (ht : Told (.of d k) es new es') :
    Law (log ++ .accepted d k frame :: new)
      (fun d' k' => fs d' k' ++ Stack.framesAt d k [frame] d' k') es' := by
  -- telling the core neither accepts nor serves
  have hquiet : ∀ d' k', accepted new d' k' = [] ∧ served new d' k' = [] := by
    intro d' k'
    rcases ht with ⟨-, rfl⟩ | ⟨-, rfl⟩ <;> simp [accepted, served]
  refine ⟨fun d' k' => ?_, fun d' k' hne => ?_⟩
  · have hone : accepted (.accepted d k frame :: new) d' k' =
        Stack.framesAt d k [frame] d' k' ++ accepted new d' k' := by
      by_cases hq : d = d' ∧ k = k'
      · simp [accepted, Stack.framesAt, hq]
      · have hq' : ¬ (d' = d ∧ k' = k) := fun hq' => hq ⟨hq'.1.symm, hq'.2.symm⟩
        simp [accepted, Stack.framesAt, hq, hq']
    have hnone : served (.accepted d k frame :: new) d' k' = served new d' k' := by
      simp [served]
    rw [accepted_append, served_append, hone, hnone, (hquiet d' k').1, (hquiet d' k').2,
      h.moved, List.append_nil, List.append_nil, List.append_assoc]
  · by_cases hq : d' = d ∧ k' = k
    · -- the queue that the core is told of
      obtain ⟨rfl, rfl⟩ := hq
      rcases ht with ⟨rfl, rfl⟩ | ⟨rfl, rfl⟩
      · exact .inl (by simp)
      · rw [List.append_cons]
        exact .inr (missed_refused _ _ _)
    · rw [Stack.framesAt, if_neg hq, List.append_nil] at hne
      rcases h.awaited d' k' hne with hevent | hmissed
      · left
        rcases ht with ⟨rfl, -⟩ | ⟨rfl, -⟩
        · exact List.mem_append_left _ hevent
        · exact hevent
      · refine .inr (hmissed.append ?_)
        rcases ht with ⟨-, rfl⟩ | ⟨-, rfl⟩ <;> simp

/-- A queue is drained, and no event is lost but those that ask for this. -/
theorem Law.drained (h : Law log fs es) (d : Direction) (k : Nat)
    (hes : ∀ e ∈ es, e ≠ .of d k → e ∈ es') :
    Law (log ++ draining d k (fs d k)) (fun d' k' => if d' = d ∧ k' = k then [] else fs d' k')
      es' := by
  refine ⟨fun d' k' => ?_, fun d' k' hne => ?_⟩
  · rw [accepted_append, served_append, accepted_draining, served_draining, h.moved]
    by_cases hq : d' = d ∧ k' = k
    · obtain ⟨rfl, rfl⟩ := hq
      simp
    · have hq' : ¬ (d = d' ∧ k = k') := fun hq' => hq ⟨hq'.1.symm, hq'.2.symm⟩
      simp [hq, hq']
  · by_cases hq : d' = d ∧ k' = k
    · rw [if_pos hq] at hne
      exact absurd rfl hne
    · rw [if_neg hq] at hne
      rcases h.awaited d' k' hne with hevent | hmissed
      · exact .inl (hes _ hevent fun heq => hq (CoreEvent.of_inj.1 heq))
      · exact .inr (hmissed.append fun hmem => hq (drained_mem_draining.1 hmem))

end Ledger

end Netstack
