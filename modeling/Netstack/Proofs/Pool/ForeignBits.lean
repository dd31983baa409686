import Netstack.Proofs.Pool.Readiness
import Netstack.Proofs.Pool.SlotSteps

/-
Event bits that no connection has.

An event group has thirty-two bits, and the pool has a use for eight of them. It sets no other,
and when a slot is handed out it clears the eight that it knows. So the bits that are foreign to
connections are a matter of those who have the event group in their hands: what they set stays
until somebody clears it or the group is given up, whoever has the slot by then.
-/

set_option autoImplicit false

namespace Netstack

namespace ConnBits

/-- The bits that mean nothing to a connection. -/
def foreign : EventBits := ~~~all

end ConnBits

namespace EventGroup

variable {g : EventGroup}

/-- What lacks the bits of connections and the foreign ones lacks all. -/
theorem bits_eq_zero_iff_lacks (hall : g.Lacks ConnBits.all) :
    g.bits = 0 ↔ g.Lacks ConnBits.foreign := by
  have hsplit : g.bits = g.bits &&& ConnBits.all ||| g.bits &&& ConnBits.foreign := by
    rw [UInt32.and_comm, UInt32.and_comm g.bits, ← or_and, show ConnBits.all ||| ConnBits.foreign =
      -1 by decide, UInt32.neg_one_and]
  rw [hall, UInt32.zero_or] at hsplit
  rw [hsplit, Lacks]

/-- Clearing the bits of connections leaves the foreign ones. -/
theorem lacks_foreign_clear_iff :
    (g.clear ConnBits.all).Lacks ConnBits.foreign ↔ g.Lacks ConnBits.foreign := by
  rw [Lacks, and_clear, UInt32.and_assoc,
    show ConnBits.foreign &&& ~~~ConnBits.all = ConnBits.foreign by decide]
  exact Iff.rfl

end EventGroup

namespace Slot

variable {s t : Slot} {limits : Limits}

/-- No bit is foreign to the connections of the slot. -/
def Native (s : Slot) : Prop := s.Hides ConnBits.foreign

theorem Native.congr (h : s.Native) (he : t.events = s.events) : t.Native := by
  intro g hg
  rw [he] at hg
  exact h g hg

theorem Native.prepared (h : s.Native) (hprep : s.prepared limits = .ok t) : t.Native := by
  intro g hg
  obtain ⟨-, -, hevents, -⟩ := prepared_cases hprep
  obtain rfl := Option.some.inj (hevents.symm.trans hg)
  cases he : s.events with
  | none =>
    have hempty : EventGroup.Lacks {} ConnBits.foreign := UInt32.zero_and
    exact hempty.clear _
  | some g₀ => exact (h g₀ he).clear _

theorem Native.announced (h : s.Native) (clear : EventBits) {set : EventBits}
    (hset : set &&& ConnBits.foreign = 0) : (s.announced clear set).Native :=
  (h.unsignal clear).signal hset

/-- The end of a connection is told of, and the group may be given up. -/
theorem Native.ended (h : s.Native) (limits : Limits) : (s.ended limits).Native := by
  have hshut : s.shut.Native := by
    have hsignal : (s.signal (ConnBits.closed ||| ConnBits.interrupt)).Native :=
      Hides.signal h (by decide)
    exact hsignal.congr rfl
  unfold Slot.ended
  split
  · intro g hg
    obtain ⟨g₀, hg₀, hkept⟩ := Option.bind_eq_some_iff.1
      (show s.shut.events.bind _ = some g from hg)
    split at hkept
    · cases hkept
    · obtain rfl := Option.some.inj hkept
      exact hshut g₀ hg₀
  · exact hshut

/-- No move brings a foreign bit. -/
theorem Move.native (hm : Move limits s t) (h : s.Native) : t.Native := by
  cases hm with
  | prepare free prepared => exact h.prepared prepared
  | foster free prepared parent o peer => exact (h.prepared prepared).congr rfl
  | bind closed o => exact Native.announced (h.congr rfl) _ (by decide)
  | connect idle o => exact Native.announced (h.congr rfl) _ (by decide)
  | options | children | leave | take | vacate => exact h.congr rfl
  | join => exact Hides.signal (h.congr rfl) (by decide)
  | deserted => exact Hides.unsignal (h.congr rfl) _
  | receive => exact Hides.signal (h.congr rfl) (by decide)
  | miss => exact Hides.unsignal (h.congr rfl) _
  | close active => exact h.ended limits
  | send => exact Hides.signal h (by decide)
  | wait found same =>
    intro g hg
    obtain rfl := Option.some.inj hg
    rw [EventGroup.Lacks, same]
    exact h _ found

/-- Nor does any other step: who waits may take bits away, and sets none. -/
theorem Step.native (hs : Step limits s t) (h : s.Native) : t.Native := by
  cases hs with
  | change made =>
    cases made with
    | move made => exact made.native h
    | listen bound empty => exact Native.announced (h.congr rfl) _ (by decide)
  | queue => exact h.congr rfl
  | announce => exact Hides.signal h (by decide)
  | events found less =>
    intro g hg
    obtain rfl := Option.some.inj hg
    exact less _ (h _ found)

end Slot

namespace Pool

variable {p : Pool} {i : Nat}

theorem lt_size_of_events {g : EventGroup} (hg : (p.slotAt i).events = some g) :
    i < p.slots.size := by
  by_contra hlt
  rw [slotAt_of_size_le (Nat.le_of_not_lt hlt)] at hg
  cases hg

end Pool

namespace System

/-- Whatever is asked of a pool, it sets no foreign bit. -/
theorem native_step (s : System) (op : Pool.Op) {i : Nat} (h : (s.pool.slotAt i).Native) :
    ((s.step op).1.pool.slotAt i).Native :=
  (s.steps_step op).keeps (fun _ _ made => made.native) i h

end System

end Netstack
