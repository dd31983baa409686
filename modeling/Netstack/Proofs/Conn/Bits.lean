import Netstack.Conn.Bits

/-
Setting and clearing event bits.

An event group has a mask if every bit of it is set, and lacks it if none is. Setting bits never
takes one away and clearing never brings one, and neither says anything about bits that it does
not name.
-/

set_option autoImplicit false

namespace Netstack.EventGroup

variable {g : EventGroup} {mask bits : EventBits}

theorem or_and (a b mask : EventBits) : (a ||| b) &&& mask = a &&& mask ||| b &&& mask := by
  apply UInt32.eq_of_toBitVec_eq
  simp only [UInt32.toBitVec_and, UInt32.toBitVec_or]
  exact BitVec.and_or_distrib_right

theorem and_set (g : EventGroup) (bits mask : EventBits) :
    (g.set bits).bits &&& mask = g.bits &&& mask ||| bits &&& mask := or_and g.bits bits mask

theorem and_clear (g : EventGroup) (bits mask : EventBits) :
    (g.clear bits).bits &&& mask = g.bits &&& mask &&& ~~~bits := by
  rw [clear, UInt32.and_assoc, UInt32.and_comm (~~~bits), ← UInt32.and_assoc]

/-- Every bit of a mask is set. -/
def Has (g : EventGroup) (mask : EventBits) : Prop := g.bits &&& mask = mask

/-- No bit of a mask is set. -/
def Lacks (g : EventGroup) (mask : EventBits) : Prop := g.bits &&& mask = 0

/-- What is part of a mask adds nothing to it. -/
theorem or_eq_of_and (bits mask : EventBits) : bits &&& mask ||| mask = mask := by
  apply UInt32.eq_of_toBitVec_eq
  simp only [UInt32.toBitVec_and, UInt32.toBitVec_or]
  ext i hi
  simp only [BitVec.getElem_or, BitVec.getElem_and]
  cases mask.toBitVec[i] <;> simp

/-- A mask without bits that it does not have is the mask. -/
theorem and_not_eq (h : bits &&& mask = 0) : mask &&& ~~~bits = mask := by
  have hzero := congrArg UInt32.toBitVec h
  rw [UInt32.toBitVec_and] at hzero
  apply UInt32.eq_of_toBitVec_eq
  rw [UInt32.toBitVec_and, UInt32.toBitVec_not]
  ext i hi
  have hbit := congrArg (·[i]) hzero
  simp only [BitVec.getElem_and, BitVec.getElem_not] at hbit ⊢
  cases hm : mask.toBitVec[i] <;> simp_all

theorem has_set_self : (g.set mask).Has mask := by
  rw [Has, and_set, UInt32.and_self, or_eq_of_and]

theorem Has.set (h : g.Has mask) (bits : EventBits) : (g.set bits).Has mask := by
  unfold Has at h
  rw [Has, and_set, h, UInt32.or_comm, or_eq_of_and]

theorem Has.clear (h : g.Has mask) (hbits : bits &&& mask = 0) : (g.clear bits).Has mask := by
  unfold Has at h
  rw [Has, and_clear, h, and_not_eq hbits]

theorem Lacks.set (h : g.Lacks mask) (hbits : bits &&& mask = 0) : (g.set bits).Lacks mask := by
  unfold Lacks at h
  rw [Lacks, and_set, h, hbits, UInt32.or_self]

theorem lacks_clear_self : (g.clear mask).Lacks mask := by
  rw [Lacks, clear, UInt32.and_assoc, UInt32.not_and_self, UInt32.and_zero]

theorem Lacks.clear (h : g.Lacks mask) (bits : EventBits) : (g.clear bits).Lacks mask := by
  unfold Lacks at h
  rw [Lacks, and_clear, h, UInt32.zero_and]

theorem lacks_or_iff {other : EventBits} :
    g.Lacks (mask ||| other) ↔ g.Lacks mask ∧ g.Lacks other := by
  unfold Lacks
  rw [UInt32.and_comm, or_and, UInt32.or_eq_zero_iff, UInt32.and_comm mask, UInt32.and_comm other]

theorem Has.not_lacks (h : g.Has mask) (hmask : mask ≠ 0) : ¬ g.Lacks mask := by
  intro hlacks
  unfold Has at h
  unfold Lacks at hlacks
  exact hmask (h.symm.trans hlacks)

/-- Whoever waits for some bit of a mask is satisfied unless none is set. -/
theorem satisfies_iff {o : WaitOptions} (ho : o.all = false) :
    g.satisfies ⟨mask, o⟩ = true ↔ ¬ g.Lacks mask := by
  unfold satisfies WaitOptions.satisfiedBy Lacks
  rw [ho]
  simp

end Netstack.EventGroup
