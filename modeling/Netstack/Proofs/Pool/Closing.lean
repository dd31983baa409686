import Netstack.Proofs.Pool.Lookups
import Netstack.Proofs.Pool.Spared

/-
What closing a connection does, and what it should not do.

A connection that is closed goes off its port, drops its packets and is taken from its parent.
The parent looks for the entry to forget under the peer that the connection has now. That is
the entry of this very connection as long as it is the child for that peer. But a child that was
closed keeps its parent when it is bound or connected again, and another child may have come for
the peer since then. Then it is the entry of the other that goes, and the other stays connected
and is not found any more.
-/

set_option autoImplicit false

namespace Netstack

namespace Pool

variable {p q r : Pool} {h k c : Handle} {peer : Peer} {s : Slot}

/-- A connection is active, and under the peer that it has, its parent has the entry of
another connection. -/
def Ousts (p : Pool) (h : Handle) : Prop :=
  ∃ s ∈ p.slot? h, s.phase.isActive = true ∧ ∃ parent ∈ s.role.parent?,
    ∃ c ∈ p.listed? parent s.peer, c ≠ h

instance (p : Pool) (h : Handle) : Decidable (p.Ousts h) := by
  unfold Ousts
  infer_instance

/-- Closing a connection drops its packets, if it was active. -/
theorem packets_close (hp : p.Sound) (h : Handle) :
    (p.close h).1.packets h.index = if p.isOpen h then [] else p.packets h.index := by
  rw [(Mail.close hp h).packets_eq]
  split
  · rw [Function.update_self]
  · rfl

/-- A connection with an entry for a child keeps it, or gives it up as the parent of the
connection that is closed. -/
theorem listed?_close_cases (hl : p.census.Live h) (hk : p.listed? k peer = some c) :
    (p.close h).1.listed? k peer = some c ∨
    ∃ s, p.slot? h = some s ∧ s.phase.isActive = true ∧ s.role.parent? = some k ∧
      s.peer = peer ∧ (p.close h).1.listed? k peer = none := by
  have hkl : p.census.Live k := by
    refine live_iff.2 ?_
    obtain ⟨t, ht, -⟩ := Option.bind_eq_some_iff.1 hk
    exact ⟨t, ht⟩
  obtain ⟨hn, -⟩ | ⟨-, -, he⟩ | ⟨-, ha, hok, hc⟩ := close_cases p h
  · exact absurd hl hn
  · rw [he]
    exact .inl hk
  have hkl' : (p.close h).1.census.Live k := by
    by_cases hi : k.index = h.index
    · rw [hkl.eq_of_index_eq hl hi]
      exact (closed_of_close_eq_ok hok).2.1
    · exact (live_iff_of_spared (spared_close hi)).2 hkl
  obtain ⟨s, hs⟩ := live_iff.1 hl
  rw [listed?_of_live hkl] at hk
  rw [listed?_of_live hkl', hc, Census.child?_shut]
  obtain he | ⟨parent, hpar, hlp, hidx, hpeer, hn⟩ :=
    Census.child?_disown_cases p.census h k.index peer
  · rw [he]
    exact .inl hk
  · obtain rfl := hkl.eq_of_index_eq hlp hidx
    rw [status_of_slot? hs] at ha hpar hpeer
    exact .inr ⟨s, hs, ha, (s.role.parent?_kin).symm.trans hpar, hpeer.symm, hn⟩

/-- The entry under the peer of an active connection goes. -/
theorem listed?_close_of_parent {parent : Handle} (hs : p.slot? h = some s)
    (ha : s.phase.isActive = true) (hpar : s.role.parent? = some parent)
    (hlp : p.census.Live parent) : (p.close h).1.listed? parent s.peer = none := by
  have hstatus := status_of_slot? hs
  obtain ⟨hn, -⟩ | ⟨-, hclosed, -⟩ | ⟨hl, -, hok, hc⟩ := close_cases p h
  · exact absurd (live_of_slot? hs) hn
  · rw [hstatus] at hclosed
    change s.phase = .closed at hclosed
    rw [hclosed] at ha
    cases ha
  · have hlp' : (p.close h).1.census.Live parent := by
      by_cases hi : parent.index = h.index
      · rw [hlp.eq_of_index_eq hl hi]
        exact (closed_of_close_eq_ok hok).2.1
      · exact (live_iff_of_spared (spared_close hi)).2 hlp
    have hkin : (p.census.status h.index).kin.parent? = some parent := by
      rw [hstatus]
      exact s.role.parent?_kin.trans hpar
    have hnone := Census.child?_disown_of_parent hkin hlp
    rw [hstatus] at hnone
    rw [listed?_of_live hlp', hc, Census.child?_shut]
    exact hnone

/-- Closing takes no entry but that of the connection itself exactly if the connection ousts
nobody. -/
theorem keeps_entries_iff (hl : p.census.Live h) :
    (∀ k peer c, p.listed? k peer = some c → (p.close h).1.listed? k peer = some c ∨ c = h) ↔
      ¬ p.Ousts h := by
  constructor
  · rintro hkeep ⟨s, hs, ha, parent, hpar, c, hc, hne⟩
    obtain ⟨t, ht, -⟩ := Option.bind_eq_some_iff.1 hc
    have hnone := listed?_close_of_parent hs ha hpar (live_of_slot? ht)
    obtain hsome | rfl := hkeep parent s.peer c hc
    · rw [hnone] at hsome
      cases hsome
    · exact hne rfl
  · intro hno k peer c hk
    obtain hsome | ⟨s, hs, ha, hpar, rfl, -⟩ := listed?_close_cases hl hk
    · exact .inl hsome
    · right
      by_contra hne
      exact hno ⟨s, hs, ha, k, hpar, c, hk, hne⟩

/-- After every run, closing a connection succeeds. The connection is closed then and in no
port list, every other one is as it was and keeps its place on its port, but for entries for
children, and to close again does nothing at all. The connection is left without packets
exactly if it was not closed already with packets in its queue; and no entry but its own goes
exactly if it ousts nobody. -/
theorem close_confined_iff {cfg : Config} (hnew : new cfg = .ok p) (deeds : List Deed)
    (hq : (p.unattended.run deeds).pool = q) (hl : q.census.Live h) {answer : Except Error Unit}
    (hclose : q.close h = (r, answer)) :
    answer = .ok () ∧ r.In h .closed ∧
      (∀ slot ms, q.ports.members slot = .ok ms →
        r.ports.members slot = .ok (ms.filter fun m => m.conn ≠ h)) ∧
      (∀ k t, k ≠ h → q.slot? k = some t → ∃ u, r.slot? k = some u ∧ t.Spared u) ∧
      r.close h = (r, .ok ()) ∧
      (r.packets h.index = [] ↔ ¬ (q.In h .closed ∧ q.packets h.index ≠ [])) ∧
      ((∀ k peer c, q.listed? k peer = some c → r.listed? k peer = some c ∨ c = h) ↔
        ¬ q.Ousts h) := by
  have hplaced : q.census.Placed := hq ▸ placed_deeds hnew deeds
  have hsound : q.Sound := hq ▸ (kept_run hnew deeds).sound
  obtain rfl : (q.close h).1 = r := congrArg Prod.fst hclose
  have hok := close_eq_ok_of_live hl
  obtain ⟨-, hl', hclosed⟩ := closed_of_close_eq_ok hok
  refine ⟨?_, in_iff.2 ⟨hl', hclosed⟩, ?_, ?_, ?_, ?_, keeps_entries_iff hl⟩
  · rw [← hok, hclose]
  · intro slot ms hms
    obtain ⟨j, hj, rfl⟩ := PortTable.members_eq_ok_iff.1 hms
    exact PortTable.members_eq_ok_iff.2 ⟨j, hj, (members_close hplaced.filed hl j).symm⟩
  · intro k t hne ht
    refine slot?_of_spared (spared_close fun hi => hne ?_) ht
    exact (live_of_slot? ht).eq_of_index_eq hl hi
  · obtain ⟨hn, -⟩ | ⟨-, -, he⟩ | ⟨-, ha, -⟩ := close_cases (q.close h).1 h
    · exact absurd hl' hn
    · exact he
    · rw [hclosed] at ha
      cases ha
  · rw [packets_close hsound, in_iff]
    cases ho : q.isOpen h with
    | true =>
      have hactive := (isOpen_iff.1 ho).2
      rw [if_pos rfl]
      refine iff_of_true rfl ?_
      rintro ⟨⟨-, hc⟩, -⟩
      rw [hc] at hactive
      cases hactive
    | false =>
      -- a live connection that is not active is closed
      have hc : (q.census.status h.index).phase = .closed := by
        have hidle := fun ha => Bool.eq_false_iff.1 ho (isOpen_iff.2 ⟨hl, ha⟩)
        have hused := hl.2
        cases hp : (q.census.status h.index).phase with
        | free => exact absurd hp hused
        | closed => rfl
        | bound | listen | connected => exact absurd (by rw [hp]; rfl) hidle
      rw [if_neg (by simp), iff_true_intro hc, iff_true_intro hl, true_and, true_and, not_not]

/-- A listener with two children, of which the first is closed: the other keeps its entry, and
to close the first again does nothing. -/
theorem close_confined_of_child :
    ∃ p, new { maxConnections := 3 } = .ok p ∧ ∃ q r,
      (p.unattended.run [.ask .alloc, .ask (.bind ⟨0, 0⟩ 5), .ask (.listen ⟨0, 0⟩ 4),
        .ask (.offerChild ⟨0, 0⟩ ⟨0x42, 3⟩), .ask (.offerChild ⟨0, 0⟩ ⟨0x43, 3⟩)]).pool = q ∧
      q.close ⟨1, 0⟩ = (r, .ok ()) ∧ r.close ⟨1, 0⟩ = (r, .ok ()) ∧
      ∀ k peer c, q.listed? k peer = some c → r.listed? k peer = some c ∨ c = ⟨1, 0⟩ := by
  refine ⟨_, rfl, _, _, rfl, Prod.ext rfl (by decide +kernel), ?_⟩
  have hnew : new { maxConnections := 3 } = .ok _ := rfl
  obtain ⟨-, -, -, -, hagain, -, hentries⟩ := close_confined_iff (h := ⟨1, 0⟩) hnew
    [.ask .alloc, .ask (.bind ⟨0, 0⟩ 5), .ask (.listen ⟨0, 0⟩ 4),
      .ask (.offerChild ⟨0, 0⟩ ⟨0x42, 3⟩), .ask (.offerChild ⟨0, 0⟩ ⟨0x43, 3⟩)] rfl
    (by decide +kernel) rfl
  exact ⟨hagain, hentries.2 (by decide +kernel)⟩

/-- A child is closed and bound to a port, and its peer gets a second child. When the first is
closed again, the entry of the second goes, and the next packet of the peer makes a third. -/
theorem close_ousts_second_child :
    ∃ p, new { maxConnections := 4 } = .ok p ∧ ∃ q r,
      (p.unattended.run [.ask .alloc, .ask (.bind ⟨0, 0⟩ 5), .ask (.listen ⟨0, 0⟩ 4),
        .ask (.offerChild ⟨0, 0⟩ ⟨0x42, 3⟩), .ask (.close ⟨1, 0⟩), .ask (.bind ⟨1, 0⟩ 6),
        .ask (.offerChild ⟨0, 0⟩ ⟨0x42, 3⟩)]).pool = q ∧
      q.listed? ⟨0, 0⟩ ⟨0x42, 3⟩ = some ⟨2, 0⟩ ∧ q.close ⟨1, 0⟩ = (r, .ok ()) ∧
      r.In ⟨2, 0⟩ .connected ∧ r.listed? ⟨0, 0⟩ ⟨0x42, 3⟩ = none ∧
      (r.offerChild ⟨0, 0⟩ ⟨0x42, 3⟩).2 = .ok ⟨3, 0⟩ := by
  refine ⟨_, rfl, _, _, rfl, ?_, Prod.ext rfl ?_, ?_, ?_, ?_⟩ <;> decide +kernel

end Pool

end Netstack
