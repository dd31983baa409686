import Netstack.Port.Table

/-
Who is on a port after an operation of the port table.

Where a member stands in the list of its port is a matter of priorities. Who is there at
all is not: to listen and to insert put one member more on one slot, removing takes one
away, and reprioritizing is a removal and an insertion of the same connection. All four
are told here in terms of `Gains`, up to the order of the list.
-/

set_option autoImplicit false

namespace Netstack

namespace PortEntry

theorem conn_of_extract {conn : Handle} {xs rest : List PortMember} {m : PortMember}
    (h : extract conn xs = some (m, rest)) : m.conn = conn := by
  induction xs generalizing rest with
  | nil => cases h
  | cons x xs ih =>
    unfold extract at h
    split at h
    · next hx =>
      cases h
      exact hx
    · obtain ⟨⟨m', rest'⟩, he, heq⟩ := Option.map_eq_some_iff.1 h
      cases heq
      exact ih he

end PortEntry

namespace PortTable

variable {t t' : PortTable} {slot : UInt8} {conn : Handle} {priority : UInt8}

/-- A table has one member more than another, on one slot. -/
structure Gains (t t' : PortTable) (i : Fin Port.slotCount) (m : PortMember) : Prop where
  perm : (t'.entry i).members.Perm (m :: (t.entry i).members)
  other : ∀ j, j ≠ i → t'.entry j = t.entry j

theorem Gains.mem_iff {i j : Fin Port.slotCount} {m m' : PortMember} (h : t.Gains t' i m) :
    m' ∈ (t'.entry j).members ↔ m' ∈ (t.entry j).members ∨ (j = i ∧ m' = m) := by
  by_cases hj : j = i
  · subst hj
    rw [h.perm.mem_iff, List.mem_cons]
    simp [or_comm]
  · rw [h.other j hj]
    simp [hj]

theorem gains_setEntry (t : PortTable) (i : Fin Port.slotCount) (m : PortMember) (isOpen : Bool) :
    t.Gains (t.setEntry i ⟨isOpen, PortEntry.place m (t.entry i).members⟩) i m := by
  constructor
  · rw [entry_setEntry]
    exact PortEntry.place_perm m _
  · intro j hj
    exact entry_setEntry_of_ne (Ne.symm hj) t _

theorem gains_of_insert (h : t.insert slot conn priority = .ok t') :
    ∃ i, slot.toNat = i.val ∧ t.Gains t' i ⟨conn, priority, false⟩ := by
  unfold insert at h
  cases hi : index slot with
  | error e =>
    rw [hi] at h
    cases h
  | ok i =>
    rw [hi] at h
    obtain rfl := Except.ok.inj h
    exact ⟨i, index_eq_ok_iff.1 hi, gains_setEntry t i _ _⟩

theorem gains_of_listen (h : t.listen slot conn priority = .ok t') :
    ∃ i, slot.toNat = i.val ∧ t.Gains t' i ⟨conn, priority, true⟩ := by
  unfold listen at h
  cases hi : index slot with
  | error e =>
    rw [hi] at h
    cases h
  | ok i =>
    rw [hi] at h
    dsimp only [bind, Except.bind] at h
    split at h
    · cases h
    · obtain rfl := Except.ok.inj h
      exact ⟨i, index_eq_ok_iff.1 hi, gains_setEntry t i _ _⟩

/-- The table without a member that was taken out. -/
theorem gains_of_extract {i : Fin Port.slotCount} {m : PortMember} {rest : List PortMember}
    (h : PortEntry.extract conn (t.entry i).members = some (m, rest)) (isOpen : Bool) :
    (t.setEntry i ⟨isOpen, rest⟩).Gains t i m := by
  constructor
  · rw [entry_setEntry]
    exact PortEntry.extract_perm h
  · intro j hj
    exact (entry_setEntry_of_ne (Ne.symm hj) t _).symm

theorem setEntry_setEntry (t : PortTable) (i : Fin Port.slotCount) (e e' : PortEntry) :
    (t.setEntry i e).setEntry i e' = t.setEntry i e' := by
  simp [setEntry]

/-- Removing takes away the one member that it finds. -/
theorem remove_of_mem {i : Fin Port.slotCount} {m : PortMember} (hi : slot.toNat = i.val)
    (hm : m ∈ (t.entry i).members) (hc : m.conn = conn) :
    ∃ (t' : PortTable) (m' : PortMember),
      t.remove slot conn = .ok (t', true) ∧ m'.conn = conn ∧ t'.Gains t i m' := by
  unfold remove
  rw [index_eq_ok_iff.2 hi]
  cases he : PortEntry.extract conn (t.entry i).members with
  | none => exact absurd hc (PortEntry.extract_eq_none_iff.1 he m hm)
  | some found =>
    obtain ⟨m', rest⟩ := found
    refine ⟨t.setEntry i ⟨(t.entry i).isOpen && rest.any (·.listening), rest⟩, m', ?_,
      PortEntry.conn_of_extract he, gains_of_extract he _⟩
    dsimp only [bind, Except.bind]
    rw [he]
    rfl

/-- Reprioritizing takes a member away and puts it back with its new priority. -/
theorem reprioritize_of_mem {i : Fin Port.slotCount} {m : PortMember} (hi : slot.toNat = i.val)
    (hm : m ∈ (t.entry i).members) (hc : m.conn = conn) :
    ∃ (t₀ t' : PortTable) (m' : PortMember),
      t.reprioritize slot conn priority = .ok (t', true) ∧ m'.conn = conn ∧
      t₀.Gains t i m' ∧ t₀.Gains t' i { m' with priority := priority } := by
  unfold reprioritize
  rw [index_eq_ok_iff.2 hi]
  cases he : PortEntry.extract conn (t.entry i).members with
  | none => exact absurd hc (PortEntry.extract_eq_none_iff.1 he m hm)
  | some found =>
    obtain ⟨m', rest⟩ := found
    -- placed into what is left without it
    have hgains := gains_setEntry (t.setEntry i ⟨(t.entry i).isOpen, rest⟩) i
      { m' with priority := priority } (t.entry i).isOpen
    rw [setEntry_setEntry, entry_setEntry] at hgains
    refine ⟨t.setEntry i ⟨(t.entry i).isOpen, rest⟩, _, m', ?_, PortEntry.conn_of_extract he,
      gains_of_extract he _, hgains⟩
    dsimp only [bind, Except.bind]
    rw [he]
    rfl

end PortTable

end Netstack
