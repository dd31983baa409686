import Mathlib.Data.List.Infix
import Mathlib.Data.List.Nodup
import Netstack.Proofs.Histories
import Netstack.Proofs.Port.Order

/-
Who comes first among members of one priority.

A slot offers a packet to its members from the front, so among those of one priority it
matters where they stand. Being registered puts a member behind its equals, and so does a
change of priority, also one to the priority that the member has: its seat is as old as the
last of these edits (`before_iff_seatedEarlier`). So the order is the one in which the members
were registered only as long as none of them was moved, and a change to the own priority leaves
the list alone only for the last member of a priority.

All this is about slots on which no connection is twice at once: two seats of one connection
could not be told apart.
-/

set_option autoImplicit false

namespace Netstack

/-! ## The last of two events -/

section Histories

variable {ε : Type} {P Q : List ε → ε → Prop} {events : List ε}

/-- Of two events, one of which has been seen, exactly one came last. -/
theorem since_iff_not_since (hne : ∀ before e, P before e → ¬ Q before e)
    (hseen : Since P (fun _ _ => False) events) : Since P Q events ↔ ¬ Since Q P events := by
  induction events using List.reverseRecOn with
  | nil => exact absurd hseen not_since_nil
  | append_singleton events e ih =>
    rw [since_snoc] at hseen
    rw [since_snoc, since_snoc]
    have hne := hne events e
    by_cases hp : P events e
    · simp [hp, hne hp]
    · by_cases hq : Q events e
      · simp [hp, hq]
      · have hseen := (hseen.resolve_left hp).1
        simp [hp, hq, ih hseen]

end Histories

/-! ## Two members of a list -/

namespace PortEntry

variable {m a b : PortMember} {conn : Handle} {xs ys pre post : List PortMember}

/-- A member stands somewhere before another. -/
def Before (a b : PortMember) (xs : List PortMember) : Prop := [a, b].Sublist xs

/-- No connection is in a list twice. -/
def Distinct (xs : List PortMember) : Prop := (xs.map (·.conn)).Nodup

instance (xs : List PortMember) : Decidable (Distinct xs) :=
  inferInstanceAs (Decidable (List.Nodup _))

theorem Distinct.eq (h : Distinct xs) (ha : a ∈ xs) (hb : b ∈ xs) (hab : a.conn = b.conn) :
    a = b := List.inj_on_of_nodup_map h ha hb hab

theorem Distinct.not_before (h : Distinct xs) (hab : Before a b xs) : ¬ Before b a xs := by
  induction xs with
  | nil => exact fun hba => nomatch hba
  | cons x xs ih =>
    have ⟨hx, hxs⟩ := List.nodup_cons.mp h
    have hfresh : ∀ {y : PortMember} {zs : List PortMember}, (y :: zs).Sublist xs → x ≠ y := by
      rintro y zs hy rfl
      exact hx (List.mem_map_of_mem (hy.subset List.mem_cons_self))
    intro hba
    cases hab with
    | cons _ hab =>
      cases hba with
      | cons _ hba => exact ih hxs hab hba
      | cons_cons _ ha => exact hfresh ((List.sublist_cons_self _ _).trans hab) rfl
    | cons_cons _ hb =>
      cases hba with
      | cons _ hba => exact hfresh ((List.sublist_cons_self _ _).trans hba) rfl
      | cons_cons _ ha => exact hfresh ha rfl

/-- Whether one stands before the other has nothing to do with the rest of the list. -/
theorem before_middle_iff (ha : a ≠ m) (hb : b ≠ m) :
    Before a b (pre ++ m :: post) ↔ Before a b (pre ++ post) := by
  constructor
  · intro h
    have hothers := h.filter (· ≠ m)
    have hpair : [a, b].filter (· ≠ m) = [a, b] := by simp [ha, hb]
    have hrest : (pre ++ m :: post).filter (· ≠ m) = (pre ++ post).filter (· ≠ m) := by simp
    rw [hpair, hrest] at hothers
    exact hothers.trans List.filter_sublist
  · exact fun h => h.trans ((List.sublist_cons_self m post).append_left pre)

theorem Places.before_iff (h : Places m xs ys) (ha : a.conn ≠ m.conn) (hb : b.conn ≠ m.conn) :
    Before a b ys ↔ Before a b xs := by
  obtain ⟨pre, post, rfl, rfl, -, -⟩ := h
  exact before_middle_iff (fun h => ha (congrArg _ h)) fun h => hb (congrArg _ h)

theorem Drops.conn_eq (h : Drops conn m xs ys) : m.conn = conn := by
  obtain ⟨_, _, _, _, hconn, _⟩ := h
  exact hconn

theorem Drops.before_iff (h : Drops conn m xs ys) (ha : a.conn ≠ conn) (hb : b.conn ≠ conn) :
    Before a b ys ↔ Before a b xs := by
  obtain ⟨pre, post, rfl, rfl, rfl, -⟩ := h
  exact (before_middle_iff (fun h => ha (congrArg _ h)) fun h => hb (congrArg _ h)).symm

/-- Who is put in stands behind everyone of its priority. -/
theorem Places.before (h : Places m xs ys) (hb : b ∈ xs) (hpriority : m.priority ≤ b.priority) :
    Before b m ys := by
  obtain ⟨pre, post, rfl, rfl, -, hpost⟩ := h
  rcases List.mem_append.mp hb with hb | hb
  · exact (List.singleton_sublist.mpr hb).append
      (List.singleton_sublist.mpr List.mem_cons_self)
  · exact absurd hpriority (UInt8.not_le.mpr (hpost b hb))

/-- There is one place for a member only. -/
theorem Places.unique {zs : List PortMember} (h : Places m xs ys) (h' : Places m xs zs) :
    ys = zs := by
  have hsplit : ∀ {ys : List PortMember}, Places m xs ys →
      ys = xs.filter (m.priority ≤ ·.priority) ++ m :: xs.filter (¬ m.priority ≤ ·.priority) := by
    rintro ys ⟨pre, post, rfl, rfl, hpre, hpost⟩
    have hlower : ∀ b ∈ post, ¬ m.priority ≤ b.priority := fun b hb =>
      UInt8.not_le.mpr (hpost b hb)
    have hin : pre.filter (m.priority ≤ ·.priority) = pre := by simpa using hpre
    have hout : post.filter (m.priority ≤ ·.priority) = [] := by simpa using hlower
    have hin' : pre.filter (¬ m.priority ≤ ·.priority) = [] := by simpa using hpre
    have hout' : post.filter (¬ m.priority ≤ ·.priority) = post := by simpa using hlower
    rw [List.filter_append, List.filter_append, hin, hout, hin', hout', List.append_nil,
      List.nil_append]
  rw [hsplit h, hsplit h']

/-- Two members of one priority after a third was put in, which may be one of the two. -/
theorem Places.seniority (h : Places m xs ys) (hys : Distinct ys) (ha : a ∈ ys) (hb : b ∈ ys)
    (hab : a.conn ≠ b.conn) (hpriority : a.priority = b.priority) :
    (m.conn = b.conn ∧ Before a b ys) ∨ (m.conn = a.conn ∧ ¬ Before a b ys) ∨
    (m.conn ≠ a.conn ∧ m.conn ≠ b.conn ∧ a ∈ xs ∧ b ∈ xs ∧ (Before a b ys ↔ Before a b xs)) := by
  have hm : m ∈ ys := h.perm.mem_iff.mpr List.mem_cons_self
  have hmem : ∀ {c : PortMember}, c ∈ ys → m.conn ≠ c.conn → c ∈ xs := fun hc hne =>
    (List.mem_cons.mp (h.perm.mem_iff.mp hc)).resolve_left fun heq => hne (congrArg _ heq.symm)
  by_cases hmb : m.conn = b.conn
  · obtain rfl := hys.eq hm hb hmb
    exact .inl ⟨rfl, h.before (hmem ha hab.symm) (UInt8.le_of_eq hpriority.symm)⟩
  · by_cases hma : m.conn = a.conn
    · obtain rfl := hys.eq hm ha hma
      exact .inr (.inl ⟨rfl, hys.not_before (h.before (hmem hb hab) (UInt8.le_of_eq hpriority))⟩)
    · exact .inr (.inr ⟨hma, hmb, hmem ha hma, hmem hb hmb,
        h.before_iff (Ne.symm hma) (Ne.symm hmb)⟩)

/-- Who is left when a member is taken out is somebody else. -/
theorem Drops.conn_ne (h : Drops conn m xs ys) (hxs : Distinct xs) (ha : a ∈ ys) :
    a.conn ≠ conn := by
  have hperm : Distinct (m :: ys) := (h.perm.map _).nodup_iff.mp hxs
  have ⟨hm, _⟩ := List.nodup_cons.mp hperm
  obtain ⟨_, _, _, _, rfl, _⟩ := h
  intro hconn
  exact hm (List.mem_map.mpr ⟨a, ha, hconn⟩)

end PortEntry

/-! ## Two members in a run -/

namespace PortTable

open PortEntry (Before Distinct)

/-- The connection that an edit registers. -/
def Edit.registers : Edit → Option Handle
  | listen conn _ | insert conn _ => some conn
  | remove _ | reprioritize _ _ => none

/-- The connection that an edit moves. -/
def Edit.moves : Edit → Option Handle
  | reprioritize conn _ => some conn
  | listen _ _ | insert _ _ | remove _ => none

/-- One edit gives one seat. -/
theorem Edit.seat_unique {edit : Edit} {conn conn' : Handle}
    (h : edit.registers = some conn ∨ edit.moves = some conn)
    (h' : edit.registers = some conn' ∨ edit.moves = some conn') : conn = conn' := by
  cases edit <;> simp only [registers, moves, reduceCtorEq, Option.some.injEq, or_false, false_or]
    at h h' <;> exact h.symm.trans h'

/-- An edit does its work on a slot, in a run that has come so far. -/
def Works (i : Fin Port.slotCount) (before : List (UInt8 × Edit)) (e : UInt8 × Edit) : Prop :=
  e.1.toNat = i.val ∧ ((empty.run before).perform e.1 e.2).2 = .ok true

/-- An edit registers a connection on a slot. -/
def Registers (i : Fin Port.slotCount) (conn : Handle) (before : List (UInt8 × Edit))
    (e : UInt8 × Edit) : Prop := Works i before e ∧ e.2.registers = some conn

/-- An edit changes the priority of a connection on a slot, be it to the same. -/
def Moves (i : Fin Port.slotCount) (conn : Handle) (before : List (UInt8 × Edit))
    (e : UInt8 × Edit) : Prop := Works i before e ∧ e.2.moves = some conn

/-- An edit gives a connection its seat on a slot. -/
def Seats (i : Fin Port.slotCount) (conn : Handle) (before : List (UInt8 × Edit))
    (e : UInt8 × Edit) : Prop := Registers i conn before e ∨ Moves i conn before e

/-- One connection was registered on a slot, and another one was not since. -/
def RegisteredEarlier (i : Fin Port.slotCount) (conn conn' : Handle)
    (edits : List (UInt8 × Edit)) : Prop := Since (Registers i conn') (Registers i conn) edits

/-- A connection was moved on a slot after another one got its seat. -/
def MovedLater (i : Fin Port.slotCount) (conn conn' : Handle) (edits : List (UInt8 × Edit)) :
    Prop := Since (Moves i conn) (Seats i conn') edits

/-- No connection was on any slot twice at once. -/
def SingleSeats (edits : List (UInt8 × Edit)) : Prop :=
  ∀ before ∈ edits.inits, ∀ i, Distinct ((empty.run before).entry i).members

variable {t : PortTable} {slot : UInt8} {edit : Edit} {i : Fin Port.slotCount} {e : UInt8 × Edit}
  {edits before : List (UInt8 × Edit)} {a b : PortMember} {conn conn' : Handle}
  {xs ys : List PortMember}

theorem run_snoc (t : PortTable) (edits : List (UInt8 × Edit)) (e : UInt8 × Edit) :
    t.run (edits ++ [e]) = ((t.run edits).perform e.1 e.2).1 := List.foldl_append

theorem SingleSeats.distinct (h : SingleSeats edits) (i : Fin Port.slotCount) :
    Distinct ((empty.run edits).entry i).members :=
  h edits (List.mem_inits _ _ |>.mpr (List.prefix_refl _)) i

theorem SingleSeats.init (h : SingleSeats (edits ++ [e])) : SingleSeats edits := fun before hb =>
  h before ((List.mem_inits _ _).mpr
    (((List.mem_inits _ _).mp hb).trans (List.prefix_append _ _)))

theorem seats_iff : Seats i conn before e ↔
    Works i before e ∧ (e.2.registers = some conn ∨ e.2.moves = some conn) := by
  rw [Seats, Registers, Moves, and_or_left]

theorem Registers.unique (h : Registers i conn before e) (hne : conn ≠ conn') :
    ¬ Registers i conn' before e := fun h' =>
  hne (Option.some.inj (h.2.symm.trans h'.2))

/-- What an edit comes to on one slot: it has made what it is for, or it has not and the slot
is as it was. -/
theorem InOrder.works_or (h : (empty.run before).InOrder) (i : Fin Port.slotCount)
    (e : UInt8 × Edit) :
    (Works i before e ∧ e.2.Makes ((empty.run before).entry i).members
      ((empty.run (before ++ [e])).entry i).members) ∨
    (¬ Works i before e ∧ (empty.run (before ++ [e])).entry i = (empty.run before).entry i) := by
  have hexact := h.exact e.1 e.2
  rw [run_snoc]
  by_cases hi : e.1.toNat = i.val
  · by_cases hdone : ((empty.run before).perform e.1 e.2).2 = .ok true
    · obtain ⟨j, hj, hmakes⟩ := hexact.done hdone
      obtain rfl : j = i := Fin.ext (hj.symm.trans hi)
      exact .inl ⟨⟨hi, hdone⟩, hmakes⟩
    · exact .inr ⟨fun hw => hdone hw.2, by rw [hexact.unchanged hdone]⟩
  · exact .inr ⟨fun hw => hi hw.1, hexact.elsewhere i hi⟩

/-- Two members of one priority after an edit of their slot. -/
theorem Edit.Makes.seniority (h : edit.Makes xs ys) (hxs : Distinct xs) (hys : Distinct ys)
    (ha : a ∈ ys) (hb : b ∈ ys) (hab : a.conn ≠ b.conn) (hpriority : a.priority = b.priority) :
    ((edit.registers = some b.conn ∨ edit.moves = some b.conn) ∧ Before a b ys) ∨
    ((edit.registers = some a.conn ∨ edit.moves = some a.conn) ∧ ¬ Before a b ys) ∨
    (¬ (edit.registers = some a.conn ∨ edit.moves = some a.conn) ∧
      ¬ (edit.registers = some b.conn ∨ edit.moves = some b.conn) ∧
      a ∈ xs ∧ b ∈ xs ∧ (Before a b ys ↔ Before a b xs)) := by
  cases edit with
  | listen conn priority | insert conn priority =>
    have hseats := PortEntry.Places.seniority h hys ha hb hab hpriority
    simpa [Edit.registers, Edit.moves] using hseats
  | remove conn =>
    obtain ⟨m, hdrops⟩ := h
    have hmem : ∀ {c : PortMember}, c ∈ ys → c ∈ xs := fun hc =>
      hdrops.perm.mem_iff.mpr (List.mem_cons_of_mem m hc)
    exact .inr (.inr ⟨by simp [Edit.registers, Edit.moves], by simp [Edit.registers, Edit.moves],
      hmem ha, hmem hb, hdrops.before_iff (hdrops.conn_ne hxs ha) (hdrops.conn_ne hxs hb)⟩)
  | reprioritize conn priority =>
    obtain ⟨m, zs, hdrops, hplaces⟩ := h
    have hmem : ∀ {c : PortMember}, c ∈ zs → c ∈ xs := fun hc =>
      hdrops.perm.mem_iff.mpr (List.mem_cons_of_mem m hc)
    have hseats := hplaces.seniority hys ha hb hab hpriority
    dsimp only at hseats
    rw [hdrops.conn_eq] at hseats
    obtain hlast | hfirst | ⟨hna, hnb, ha', hb', hiff⟩ := hseats
    · exact .inl (by simpa [Edit.registers, Edit.moves] using hlast)
    · exact .inr (.inl (by simpa [Edit.registers, Edit.moves] using hfirst))
    · refine .inr (.inr ⟨by simpa [Edit.registers, Edit.moves] using hna,
        by simpa [Edit.registers, Edit.moves] using hnb, hmem ha', hmem hb', hiff.trans ?_⟩)
      exact hdrops.before_iff (Ne.symm hna) (Ne.symm hnb)

/-- Of two members of one priority the one comes first that has had its seat for longer. -/
theorem before_iff_seatedEarlier (honce : SingleSeats edits)
    (ha : a ∈ ((empty.run edits).entry i).members) (hb : b ∈ ((empty.run edits).entry i).members)
    (hab : a.conn ≠ b.conn) (hpriority : a.priority = b.priority) :
    Before a b ((empty.run edits).entry i).members ↔
      Since (Seats i b.conn) (Seats i a.conn) edits := by
  induction edits using List.reverseRecOn with
  | nil =>
    rw [run, List.foldl_nil, entry_empty] at ha
    cases ha
  | append_singleton edits e ih =>
    have hinit := honce.init
    rw [since_snoc, seats_iff, seats_iff]
    obtain ⟨hworks, hmakes⟩ | ⟨hidle, hsame⟩ := (inOrder_empty.run edits).works_or i e
    · obtain ⟨hseat, hbefore⟩ | ⟨hseat, hbefore⟩ | ⟨hna, hnb, ha', hb', hiff⟩ :=
        hmakes.seniority (hinit.distinct i) (honce.distinct i) ha hb hab hpriority
      · exact iff_of_true hbefore (.inl ⟨hworks, hseat⟩)
      · refine iff_of_false hbefore ?_
        rintro (⟨-, hseat'⟩ | ⟨-, hnot⟩)
        · exact hab (Edit.seat_unique hseat hseat')
        · exact hnot ⟨hworks, hseat⟩
      · rw [hiff, ih hinit ha' hb']
        simp [hna, hnb]
    · rw [hsame] at ha hb ⊢
      rw [ih hinit ha hb]
      simp [hidle]

/-- Who is on a slot was registered there. -/
theorem since_registers (honce : SingleSeats edits)
    (ha : conn ∈ ((empty.run edits).entry i).members.map (·.conn)) :
    Since (Registers i conn) (fun _ _ => False) edits := by
  induction edits using List.reverseRecOn with
  | nil =>
    rw [run, List.foldl_nil, entry_empty] at ha
    cases ha
  | append_singleton edits e ih =>
    have hbefore := ih honce.init
    rw [since_snoc]
    obtain ⟨hworks, hmakes⟩ | ⟨-, hsame⟩ := (inOrder_empty.run edits).works_or i e
    · by_cases hregisters : e.2.registers = some conn
      · exact .inl ⟨hworks, hregisters⟩
      · refine .inr ⟨hbefore ?_, not_false⟩
        -- an edit that does not register it finds it there
        generalize ((empty.run edits).entry i).members = xs at hmakes ⊢
        generalize ((empty.run (edits ++ [e])).entry i).members = ys at hmakes ha
        generalize e.2 = edit at hmakes hregisters
        cases edit with
        | listen c priority | insert c priority =>
          have hmem := ((PortEntry.Places.perm hmakes).map (·.conn)).mem_iff.mp ha
          exact (List.mem_cons.mp hmem).resolve_left fun h => hregisters (congrArg some h.symm)
        | remove c =>
          obtain ⟨m, hdrops⟩ := hmakes
          exact (hdrops.perm.map (·.conn)).mem_iff.mpr (List.mem_cons_of_mem _ ha)
        | reprioritize c priority =>
          obtain ⟨m, zs, hdrops, hplaces⟩ := hmakes
          exact (hdrops.perm.map (·.conn)).mem_iff.mpr ((hplaces.perm.map (·.conn)).mem_iff.mp ha)
    · rw [hsame] at ha
      exact .inr ⟨hbefore ha, not_false⟩

/-- Who was registered earlier has the older seat unless it was moved later. -/
theorem since_seats_iff (hab : conn ≠ conn') (hearlier : RegisteredEarlier i conn conn' edits) :
    Since (Seats i conn') (Seats i conn) edits ↔ ¬ MovedLater i conn conn' edits := by
  unfold RegisteredEarlier at hearlier
  unfold MovedLater
  induction edits using List.reverseRecOn with
  | nil => exact absurd hearlier not_since_nil
  | append_singleton edits e ih =>
    rw [since_snoc] at hearlier ⊢
    rw [since_snoc]
    simp only [Seats, Registers, Moves] at hearlier ih ⊢
    by_cases hworks : Works i edits e
    · cases hedit : e.2 <;> simp only [hedit, Edit.registers, Edit.moves] at hearlier ⊢ <;> grind
    · simp only [hworks, false_and, false_or, or_false, not_false_iff, and_true] at hearlier ⊢
      exact ih hearlier

/-- Where a member goes that is moved to its own priority. -/
theorem places_of_reprioritize (honce : SingleSeats edits) (hi : slot.toNat = i.val)
    (ha : a ∈ ((empty.run edits).entry i).members) :
    ∃ zs, PortEntry.Drops a.conn a ((empty.run edits).entry i).members zs ∧
      PortEntry.Places a zs (((empty.run edits).perform slot
        (.reprioritize a.conn a.priority)).1.entry i).members := by
  have horder := inOrder_empty.run edits
  have hdistinct := honce.distinct i
  have houtcome : Outcome (empty.run edits) slot (.reprioritize a.conn a.priority) _ :=
    outcome_reprioritize hi (horder i)
  generalize (empty.run edits).perform slot (.reprioritize a.conn a.priority) = after at houtcome ⊢
  cases houtcome with
  | invalid hslot => exact absurd i.isLt (Nat.not_lt.mpr (hi ▸ hslot))
  | taken _ _ _ _ _ _ hedit => cases hedit
  | absent j hj conn hsought hnone =>
    obtain rfl : j = i := Fin.ext (hj.symm.trans hi)
    exact absurd (Option.some.inj hsought) (hnone a ha)
  | done j hj e hmakes =>
    obtain rfl : j = i := Fin.ext (hj.symm.trans hi)
    obtain ⟨m, zs, hdrops, hplaces⟩ := hmakes
    have hm : m ∈ ((empty.run edits).entry j).members :=
      hdrops.perm.mem_iff.mpr List.mem_cons_self
    obtain rfl := hdistinct.eq hm ha hdrops.conn_eq
    rw [entry_setEntry]
    exact ⟨zs, hdrops, hplaces⟩

/-- In a run in which no connection is on a slot twice at once, there is a first and a second
of any two members of a slot to be registered. If they are of one priority, the first stands
before the second exactly if it was not moved after the second got its seat. A member that is
moved to the priority that it has stays where it is exactly if it is the last of that
priority. -/
theorem registration_order_iff (honce : SingleSeats edits) (i : Fin Port.slotCount) :
    let xs := ((empty.run edits).entry i).members
    (∀ a ∈ xs, ∀ b ∈ xs, a.conn ≠ b.conn →
      (RegisteredEarlier i a.conn b.conn edits ↔ ¬ RegisteredEarlier i b.conn a.conn edits) ∧
      (a.priority = b.priority → RegisteredEarlier i a.conn b.conn edits →
        (Before a b xs ↔ ¬ MovedLater i a.conn b.conn edits))) ∧
    (∀ a ∈ xs, ∀ slot : UInt8, slot.toNat = i.val →
      ((((empty.run edits).perform slot (.reprioritize a.conn a.priority)).1.entry i).members = xs ↔
        ∀ b ∈ xs, b.conn ≠ a.conn → b.priority = a.priority → Before b a xs)) := by
  intro xs
  have hdistinct : Distinct xs := honce.distinct i
  refine ⟨fun a ha b hb hab => ⟨?_, fun hpriority hearlier => ?_⟩, fun a ha slot hi => ?_⟩
  · exact since_iff_not_since (fun _ _ h => h.unique hab.symm)
      (since_registers honce (List.mem_map_of_mem hb))
  · rw [before_iff_seatedEarlier honce ha hb hab hpriority]
    exact since_seats_iff hab hearlier
  · obtain ⟨zs, hdrops, hplaces⟩ := places_of_reprioritize honce hi ha
    have hzs : ∀ {b : PortMember}, b ∈ zs ↔ b ∈ xs ∧ b.conn ≠ a.conn := by
      intro b
      rw [show b ∈ xs ↔ b = a ∨ b ∈ zs from hdrops.perm.mem_iff.trans List.mem_cons]
      constructor
      · exact fun hb => ⟨.inr hb, hdrops.conn_ne hdistinct hb⟩
      · rintro ⟨rfl | hb, hne⟩
        · exact absurd rfl hne
        · exact hb
    constructor
    · intro hsame b hb hne hpriority
      rw [hsame] at hplaces
      exact hplaces.before (hzs.mpr ⟨hb, hne⟩) (UInt8.le_of_eq hpriority.symm)
    · intro hlast
      refine hplaces.unique ?_
      -- where it stands is the place that it is given
      have hsorted : PortEntry.Sorted xs := (inOrder_empty.run edits i).sorted
      obtain ⟨pre, post, hxs, rfl, -, -⟩ := hdrops
      change xs = pre ++ a :: post at hxs
      have hbefore : ∀ b ∈ pre, a.priority ≤ b.priority := by
        intro b hb
        rw [PortEntry.Sorted, hxs] at hsorted
        exact (List.pairwise_append.mp hsorted).2.2 b hb a List.mem_cons_self
      refine ⟨pre, post, rfl, hxs, hbefore, fun b hb => ?_⟩
      have ⟨hmem, hne⟩ := hzs.mp (List.mem_append_right pre hb)
      have hbehind : Before a b xs := by
        rw [hxs]
        exact (List.Sublist.cons_cons a (List.singleton_sublist.mpr hb)).trans
          (List.sublist_append_right pre _)
      have hle : b.priority ≤ a.priority := by
        rw [PortEntry.Sorted, hxs] at hsorted
        exact (List.pairwise_cons.mp (List.pairwise_append.mp hsorted).2.1).1 b hb
      refine UInt8.lt_of_le_of_ne hle fun hpriority => ?_
      exact hdistinct.not_before hbehind (hlast b hmem hne hpriority)

/-- Of two connections of priority 10 the one is before the other that was registered earlier,
though the other one has had another priority for a time. And there it stays when it is moved
once more. -/
theorem registration_order_kept :
    let i : Fin Port.slotCount := ⟨3, by decide⟩
    let edits : List (UInt8 × Edit) :=
      [(3, .insert ⟨0, 0⟩ 10), (3, .insert ⟨1, 0⟩ 20), (3, .reprioritize ⟨1, 0⟩ 10)]
    let xs := ((empty.run edits).entry i).members
    let a : PortMember := ⟨⟨0, 0⟩, 10, false⟩
    let b : PortMember := ⟨⟨1, 0⟩, 10, false⟩
    (SingleSeats edits ∧ a ∈ xs ∧ b ∈ xs ∧ RegisteredEarlier i a.conn b.conn edits) ∧
      Before a b xs ∧
      (((empty.run edits).perform 3 (.reprioritize b.conn b.priority)).1.entry i).members = xs := by
  intro i edits xs a b
  have honce : SingleSeats edits := by
    unfold SingleSeats
    decide +kernel
  have ha : a ∈ xs := by decide +kernel
  have hb : b ∈ xs := by decide +kernel
  have hearlier : RegisteredEarlier i a.conn b.conn edits := by
    refine ⟨[(3, .insert ⟨0, 0⟩ 10)], (3, .insert ⟨1, 0⟩ 20), [(3, .reprioritize ⟨1, 0⟩ 10)], rfl,
      ⟨⟨rfl, by decide +kernel⟩, rfl⟩, ?_⟩
    rintro (_ | ⟨_, _ | _⟩) e' rest hafter ⟨-, hregisters⟩ <;> cases hafter
    cases hregisters
  have hmoved : ¬ MovedLater i a.conn b.conn edits := by
    rintro ⟨before, e, after, hedits, ⟨-, hmoves⟩, -⟩
    have hnone : ∀ e ∈ edits, e.2.moves ≠ some a.conn := by decide
    exact hnone e (hedits ▸ by simp) hmoves
  obtain ⟨horder, hstay⟩ := registration_order_iff honce i
  have hbefore := ((horder a ha b hb (by decide)).2 rfl hearlier).mpr hmoved
  refine ⟨⟨honce, ha, hb, hearlier⟩, hbefore, (hstay b hb 3 rfl).mpr fun c hc hne _ => ?_⟩
  have hxs : xs = [a, b] := by decide +kernel
  rcases List.mem_pair.mp (hxs ▸ hc : c ∈ [a, b]) with rfl | rfl
  · exact hbefore
  · exact absurd rfl hne

/-- Two connections of one priority, of which the first one to be registered is given the
priority that it has: it stands behind the other one then. -/
theorem registration_order_lost :
    let i : Fin Port.slotCount := ⟨3, by decide⟩
    let edits : List (UInt8 × Edit) := [(3, .insert ⟨0, 0⟩ 10), (3, .insert ⟨1, 0⟩ 10)]
    let moved := edits ++ [(3, .reprioritize ⟨0, 0⟩ 10)]
    let a : PortMember := ⟨⟨0, 0⟩, 10, false⟩
    let b : PortMember := ⟨⟨1, 0⟩, 10, false⟩
    SingleSeats moved ∧ RegisteredEarlier i a.conn b.conn moved ∧
      ((empty.run edits).entry i).members = [a, b] ∧
      ((empty.run moved).entry i).members = [b, a] := by
  refine ⟨?_, ?_, by decide +kernel, by decide +kernel⟩
  · unfold SingleSeats
    decide +kernel
  · refine ⟨[(3, .insert ⟨0, 0⟩ 10)], (3, .insert ⟨1, 0⟩ 10), [(3, .reprioritize ⟨0, 0⟩ 10)], rfl,
      ⟨⟨rfl, by decide +kernel⟩, rfl⟩, ?_⟩
    rintro (_ | ⟨_, _ | _⟩) e' rest hafter ⟨-, hregisters⟩ <;> cases hafter
    cases hregisters

end PortTable

end Netstack
