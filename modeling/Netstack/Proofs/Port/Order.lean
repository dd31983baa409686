import Netstack.Proofs.Port.Members

/-
The order of a port, and who owns it.

A port serves its members from the front of a list, so the list has to be right whatever was
registered, moved or taken off before, and however often one connection was registered. What
an operation makes of the list of its slot is told by two relations: `Places` puts a member
in behind everyone of its priority or a higher one, and `Drops` takes out the first member
for a connection. Both leave all others in the order in which they were. `Ordered` is what
every table has: lists by falling priority, slots that are open exactly if somebody listens,
and one listener at most where there is a port number to own.
-/

set_option autoImplicit false

namespace Netstack

/-! ## Putting a member in and taking one out -/

namespace PortEntry

variable {m : PortMember} {conn : Handle} {xs ys : List PortMember}

/-- A list of members by falling priority. -/
def Sorted (xs : List PortMember) : Prop := xs.Pairwise fun a b => b.priority ≤ a.priority

/-- One list is another with a member put in behind everyone of its priority or a higher one,
and before everyone of a lower one. -/
def Places (m : PortMember) (xs ys : List PortMember) : Prop :=
  ∃ pre post, xs = pre ++ post ∧ ys = pre ++ m :: post ∧
    (∀ a ∈ pre, m.priority ≤ a.priority) ∧ ∀ b ∈ post, b.priority < m.priority

/-- One list is another without the first member for a connection. -/
def Drops (conn : Handle) (m : PortMember) (xs ys : List PortMember) : Prop :=
  ∃ pre post, xs = pre ++ m :: post ∧ ys = pre ++ post ∧
    m.conn = conn ∧ ∀ a ∈ pre, a.conn ≠ conn

theorem places_place (m : PortMember) (h : Sorted xs) : Places m xs (place m xs) := by
  induction xs with
  | nil => exact ⟨[], [], by simp [place]⟩
  | cons x xs ih =>
    have ⟨hx, hxs⟩ := List.pairwise_cons.mp h
    unfold place
    split
    · next hlt =>
      -- everyone behind the first one of lower priority is of lower priority, too
      refine ⟨[], x :: xs, rfl, rfl, by simp, fun b hb => ?_⟩
      rcases List.mem_cons.mp hb with rfl | hb
      · exact hlt
      · exact UInt8.lt_of_le_of_lt (hx b hb) hlt
    · next hle =>
      have ⟨pre, post, hsplit, hplace, hpre, hpost⟩ := ih hxs
      refine ⟨x :: pre, post, by simp [hsplit], by simp [hplace], fun a ha => ?_, hpost⟩
      rcases List.mem_cons.mp ha with rfl | ha
      · exact UInt8.not_lt.mp hle
      · exact hpre a ha

theorem drops_extract (h : extract conn xs = some (m, ys)) : Drops conn m xs ys := by
  induction xs generalizing ys with
  | nil => simp [extract] at h
  | cons x xs ih =>
    unfold extract at h
    split at h
    · next hx =>
      obtain ⟨hm, hys⟩ : x = m ∧ xs = ys := by simpa using h
      exact ⟨[], xs, by simp [hm], by simp [hys], by simp [← hm, hx], by simp⟩
    · next hx =>
      obtain ⟨⟨m', rest⟩, he, heq⟩ := Option.map_eq_some_iff.mp h
      obtain ⟨hm, hys⟩ : m' = m ∧ x :: rest = ys := by simpa using heq
      obtain ⟨pre, post, hsplit, hrest, hconn, hpre⟩ := ih (hm ▸ he)
      refine ⟨x :: pre, post, by simp [hsplit], by simp [← hys, hrest], hconn, fun a ha => ?_⟩
      rcases List.mem_cons.mp ha with rfl | ha
      · exact hx
      · exact hpre a ha

theorem Places.perm (h : Places m xs ys) : ys.Perm (m :: xs) := by
  have ⟨pre, post, hxs, hys, _, _⟩ := h
  rw [hxs, hys]
  exact List.perm_middle

theorem Drops.perm (h : Drops conn m xs ys) : xs.Perm (m :: ys) := by
  have ⟨pre, post, hxs, hys, _, _⟩ := h
  rw [hxs, hys]
  exact List.perm_middle

theorem Places.sorted (h : Places m xs ys) (hs : Sorted xs) : Sorted ys := by
  have ⟨pre, post, hxs, hys, hpre, hpost⟩ := h
  rw [hxs] at hs
  have ⟨hspre, hspost, hacross⟩ := List.pairwise_append.mp hs
  rw [hys]
  refine List.pairwise_append.mpr ⟨hspre, List.pairwise_cons.mpr ⟨fun b hb => ?_, hspost⟩, ?_⟩
  · exact UInt8.le_of_lt (hpost b hb)
  · intro a ha b hb
    rcases List.mem_cons.mp hb with rfl | hb
    · exact hpre a ha
    · exact hacross a ha b hb

theorem Drops.sorted (h : Drops conn m xs ys) (hs : Sorted xs) : Sorted ys := by
  have ⟨pre, post, hxs, hys, _, _⟩ := h
  rw [hxs] at hs
  rw [hys]
  exact hs.sublist ((List.sublist_cons_self m post).append_left pre)

/-- A slot in order: its list is sorted, it is open exactly if somebody listens on it, and
where it has an owner nobody else listens. -/
structure Ordered (owned : Prop) (e : PortEntry) : Prop where
  sorted : Sorted e.members
  isOpen : e.isOpen = true ↔ ∃ m ∈ e.members, m.listening = true
  exclusive : owned → e.members.countP (·.listening) ≤ 1

theorem ordered_empty (owned : Prop) : Ordered owned {} := by
  refine ⟨List.Pairwise.nil, by simp, by simp⟩

section Updates

variable {owned : Prop} {e : PortEntry}

/-- One more listener, where nobody else listens or the slot has no owner. -/
theorem Ordered.listen (h : Ordered owned e) (hp : Places m e.members ys)
    (hm : m.listening = true) (hfree : owned → e.isOpen = false) : Ordered owned ⟨true, ys⟩ := by
  refine ⟨hp.sorted h.sorted, ?_, fun ho => ?_⟩
  · simp only [true_iff]
    exact ⟨m, hp.perm.mem_iff.mpr List.mem_cons_self, hm⟩
  · -- the list of a closed slot has no listener
    have hclosed : ¬ ∃ a ∈ e.members, a.listening = true := by
      rw [← h.isOpen, hfree ho]
      simp
    have hnone : e.members.countP (·.listening) = 0 := by
      rw [List.countP_eq_zero]
      intro a ha hl
      exact hclosed ⟨a, ha, hl⟩
    show ys.countP (·.listening) ≤ 1
    rw [hp.perm.countP_eq, List.countP_cons, hnone]
    simp [hm]

/-- A slot with as many listeners as before is as open as before. -/
theorem Ordered.of_listeners (h : Ordered owned e) (hs : Sorted ys)
    (hl : ys.countP (·.listening) = e.members.countP (·.listening)) :
    Ordered owned ⟨e.isOpen, ys⟩ := by
  refine ⟨hs, ?_, fun ho => hl ▸ h.exclusive ho⟩
  show e.isOpen = true ↔ ∃ m ∈ ys, m.listening = true
  rw [h.isOpen, ← List.countP_pos_iff, ← List.countP_pos_iff, hl]

theorem Ordered.insert (h : Ordered owned e) (hp : Places m e.members ys)
    (hm : m.listening = false) : Ordered owned ⟨e.isOpen, ys⟩ := by
  apply h.of_listeners (hp.sorted h.sorted)
  rw [hp.perm.countP_eq, List.countP_cons]
  simp [hm]

/-- A member that is moved listens as it did. -/
theorem Ordered.reprioritize {zs : List PortMember} {priority : UInt8} (h : Ordered owned e)
    (hd : Drops conn m e.members zs) (hp : Places { m with priority := priority } zs ys) :
    Ordered owned ⟨e.isOpen, ys⟩ := by
  apply h.of_listeners (hp.sorted (hd.sorted h.sorted))
  rw [hp.perm.countP_eq, hd.perm.countP_eq, List.countP_cons, List.countP_cons]

/-- The slot closes with its last listener. -/
theorem Ordered.remove (h : Ordered owned e) (hd : Drops conn m e.members ys) :
    Ordered owned ⟨e.isOpen && ys.any (·.listening), ys⟩ := by
  have hcount := hd.perm.countP_eq (·.listening)
  rw [List.countP_cons] at hcount
  refine ⟨hd.sorted h.sorted, ?_, fun ho => ?_⟩
  · show (e.isOpen && ys.any (·.listening)) = true ↔ ∃ a ∈ ys, a.listening = true
    rw [Bool.and_eq_true, List.any_eq_true, h.isOpen]
    refine ⟨And.right, fun ⟨a, ha, hl⟩ => ⟨⟨a, ?_, hl⟩, a, ha, hl⟩⟩
    exact hd.perm.mem_iff.mpr (List.mem_cons_of_mem m ha)
  · have hle := h.exclusive ho
    show ys.countP (·.listening) ≤ 1
    omega

end Updates

end PortEntry

/-! ## Runs of operations -/

namespace PortTable

/-- What may be done on a slot. -/
inductive Edit
  | listen (conn : Handle) (priority : UInt8)
  | insert (conn : Handle) (priority : UInt8)
  | remove (conn : Handle)
  | reprioritize (conn : Handle) (priority : UInt8)

/-- What an edit makes of the list of its slot. -/
def Edit.Makes : Edit → List PortMember → List PortMember → Prop
  | listen conn priority, xs, ys => PortEntry.Places ⟨conn, priority, true⟩ xs ys
  | insert conn priority, xs, ys => PortEntry.Places ⟨conn, priority, false⟩ xs ys
  | remove conn, xs, ys => ∃ m, PortEntry.Drops conn m xs ys
  | reprioritize conn priority, xs, ys =>
    ∃ m zs, PortEntry.Drops conn m xs zs ∧ PortEntry.Places { m with priority := priority } zs ys

/-- The connection that an edit looks for on the slot. -/
def Edit.sought : Edit → Option Handle
  | listen _ _ | insert _ _ => none
  | remove conn | reprioritize conn _ => some conn

/-- An edit of a slot: the new table and whether anything was done, or an error. -/
def attempt (t : PortTable) (slot : UInt8) : Edit → Except Error (PortTable × Bool)
  | .listen conn priority => (t.listen slot conn priority).map (·, true)
  | .insert conn priority => (t.insert slot conn priority).map (·, true)
  | .remove conn => t.remove slot conn
  | .reprioritize conn priority => t.reprioritize slot conn priority

/-- The table after an edit, and the reply. An edit that fails gives no other table. -/
def perform (t : PortTable) (slot : UInt8) (edit : Edit) : PortTable × Except Error Bool :=
  match t.attempt slot edit with
  | .ok (t', done) => (t', .ok done)
  | .error e => (t, .error e)

/-- The table after edits of any slots. -/
def run (t : PortTable) (edits : List (UInt8 × Edit)) : PortTable :=
  edits.foldl (fun t (slot, edit) => (t.perform slot edit).1) t

/-- A slot with a port number is owned by whoever listens on it; the shared slot is not. -/
def Owned (i : Fin Port.slotCount) : Prop := i.val < Port.sharedSlot.toNat

/-- Every slot of a table is in order. -/
def InOrder (t : PortTable) : Prop := ∀ i, PortEntry.Ordered (Owned i) (t.entry i)

variable {t : PortTable} {slot : UInt8} {edit : Edit} {i : Fin Port.slotCount}

theorem inOrder_empty : empty.InOrder := by
  intro i
  rw [entry_empty]
  exact PortEntry.ordered_empty _

theorem InOrder.setEntry (h : t.InOrder) {e : PortEntry} (he : PortEntry.Ordered (Owned i) e) :
    (t.setEntry i e).InOrder := by
  intro j
  by_cases hj : i = j
  · rw [← hj, entry_setEntry]
    exact he
  · rw [entry_setEntry_of_ne hj]
    exact h j

/-- What an edit may come to. -/
inductive Outcome (t : PortTable) (slot : UInt8) (edit : Edit) :
    PortTable × Except Error Bool → Prop
  | invalid (hslot : Port.slotCount ≤ slot.toNat) :
      Outcome t slot edit (t, .error (.portInvalid slot))
  /-- somebody would listen where somebody else does -/
  | taken (i : Fin Port.slotCount) (hi : slot.toNat = i.val) (ho : Owned i)
      (hopen : (t.entry i).isOpen = true) (conn : Handle) (priority : UInt8)
      (hedit : edit = .listen conn priority) : Outcome t slot edit (t, .error (.portInUse slot))
  /-- the connection is not on the slot -/
  | absent (i : Fin Port.slotCount) (hi : slot.toNat = i.val) (conn : Handle)
      (hsought : edit.sought = some conn) (hnone : ∀ m ∈ (t.entry i).members, m.conn ≠ conn) :
      Outcome t slot edit (t, .ok false)
  /-- the slot is changed as asked for -/
  | done (i : Fin Port.slotCount) (hi : slot.toNat = i.val) (e : PortEntry)
      (hmakes : edit.Makes (t.entry i).members e.members)
      (hordered : PortEntry.Ordered (Owned i) e) : Outcome t slot edit (t.setEntry i e, .ok true)

theorem owned_iff (hi : slot.toNat = i.val) : Owned i ↔ slot ≠ Port.sharedSlot := by
  have hlt : i.val < 33 := i.isLt
  have hshared : Port.sharedSlot.toNat = 32 := rfl
  rw [Owned, ← hi, ne_eq, ← UInt8.toNat_inj]
  omega

section Outcomes

variable {conn : Handle} {priority : UInt8}

theorem perform_of_attempt {t' : PortTable} {done : Bool}
    (h : t.attempt slot edit = .ok (t', done)) : t.perform slot edit = (t', .ok done) := by
  rw [perform, h]

theorem perform_of_error {e : Error} (h : t.attempt slot edit = .error e) :
    t.perform slot edit = (t, .error e) := by
  rw [perform, h]

theorem outcome_invalid (hslot : Port.slotCount ≤ slot.toNat) :
    Outcome t slot edit (t.perform slot edit) := by
  have hindex : index slot = .error (.portInvalid slot) := dif_neg (Nat.not_lt.mpr hslot)
  have hattempt : t.attempt slot edit = .error (.portInvalid slot) := by
    cases edit <;> simp only [attempt, PortTable.listen, PortTable.insert, PortTable.remove,
      PortTable.reprioritize, hindex] <;> rfl
  rw [perform_of_error hattempt]
  exact .invalid hslot

theorem outcome_listen (hi : slot.toNat = i.val) (h : PortEntry.Ordered (Owned i) (t.entry i)) :
    Outcome t slot (.listen conn priority) (t.perform slot (.listen conn priority)) := by
  have hindex : index slot = .ok i := index_eq_ok_iff.mpr hi
  by_cases htaken : slot ≠ Port.sharedSlot ∧ (t.entry i).isOpen = true
  · have hattempt : t.attempt slot (.listen conn priority) = .error (.portInUse slot) := by
      simp only [attempt, PortTable.listen, hindex, bind, Except.bind, if_pos htaken]
      rfl
    rw [perform_of_error hattempt]
    exact .taken i hi ((owned_iff hi).mpr htaken.1) htaken.2 conn priority rfl
  · have hattempt : t.attempt slot (.listen conn priority) =
        .ok (t.setEntry i { (t.entry i).insert ⟨conn, priority, true⟩ with isOpen := true },
          true) := by
      simp only [attempt, PortTable.listen, hindex, bind, Except.bind, if_neg htaken]
      rfl
    have hplaces := PortEntry.places_place ⟨conn, priority, true⟩ h.sorted
    rw [perform_of_attempt hattempt]
    refine .done i hi _ hplaces (h.listen hplaces rfl fun ho => ?_)
    simpa [(owned_iff hi).mp ho] using htaken

theorem outcome_insert (hi : slot.toNat = i.val) (h : PortEntry.Ordered (Owned i) (t.entry i)) :
    Outcome t slot (.insert conn priority) (t.perform slot (.insert conn priority)) := by
  have hattempt : t.attempt slot (.insert conn priority) =
      .ok (t.setEntry i ((t.entry i).insert ⟨conn, priority, false⟩), true) := by
    simp only [attempt, PortTable.insert, index_eq_ok_iff.mpr hi]
    rfl
  have hplaces := PortEntry.places_place ⟨conn, priority, false⟩ h.sorted
  rw [perform_of_attempt hattempt]
  exact .done i hi _ hplaces (h.insert hplaces rfl)

theorem outcome_remove (hi : slot.toNat = i.val) (h : PortEntry.Ordered (Owned i) (t.entry i)) :
    Outcome t slot (.remove conn) (t.perform slot (.remove conn)) := by
  have hindex := index_eq_ok_iff.mpr hi
  cases hfound : PortEntry.extract conn (t.entry i).members with
  | none =>
    have hattempt : t.attempt slot (.remove conn) = .ok (t, false) := by
      simp only [attempt, PortTable.remove, hindex, bind, Except.bind, hfound]
      rfl
    rw [perform_of_attempt hattempt]
    exact .absent i hi conn rfl (PortEntry.extract_eq_none_iff.mp hfound)
  | some found =>
    have hdrops := PortEntry.drops_extract hfound
    have hattempt : t.attempt slot (.remove conn) = .ok (t.setEntry i
        ⟨(t.entry i).isOpen && found.2.any (·.listening), found.2⟩, true) := by
      simp only [attempt, PortTable.remove, hindex, bind, Except.bind, hfound]
      rfl
    rw [perform_of_attempt hattempt]
    exact .done i hi _ ⟨found.1, hdrops⟩ (h.remove hdrops)

theorem outcome_reprioritize (hi : slot.toNat = i.val)
    (h : PortEntry.Ordered (Owned i) (t.entry i)) :
    Outcome t slot (.reprioritize conn priority)
      (t.perform slot (.reprioritize conn priority)) := by
  have hindex := index_eq_ok_iff.mpr hi
  cases hfound : PortEntry.extract conn (t.entry i).members with
  | none =>
    have hattempt : t.attempt slot (.reprioritize conn priority) = .ok (t, false) := by
      simp only [attempt, PortTable.reprioritize, hindex, bind, Except.bind, hfound]
      rfl
    rw [perform_of_attempt hattempt]
    exact .absent i hi conn rfl (PortEntry.extract_eq_none_iff.mp hfound)
  | some found =>
    have hattempt : t.attempt slot (.reprioritize conn priority) = .ok (t.setEntry i
        ({ t.entry i with members := found.2 }.insert { found.1 with priority := priority }),
          true) := by
      simp only [attempt, PortTable.reprioritize, hindex, bind, Except.bind, hfound]
      rfl
    have hdrops := PortEntry.drops_extract hfound
    -- what is left is sorted, so there is a place for the new priority
    have hplaces := PortEntry.places_place { found.1 with priority := priority }
      (hdrops.sorted h.sorted)
    rw [perform_of_attempt hattempt]
    exact .done i hi _ ⟨found.1, found.2, hdrops, hplaces⟩ (h.reprioritize hdrops hplaces)

theorem outcome_perform (h : t.InOrder) (slot : UInt8) (edit : Edit) :
    Outcome t slot edit (t.perform slot edit) := by
  by_cases hslot : slot.toNat < Port.slotCount
  · have hi : slot.toNat = (⟨slot.toNat, hslot⟩ : Fin Port.slotCount).val := rfl
    cases edit with
    | listen conn priority => exact outcome_listen hi (h _)
    | insert conn priority => exact outcome_insert hi (h _)
    | remove conn => exact outcome_remove hi (h _)
    | reprioritize conn priority => exact outcome_reprioritize hi (h _)
  · exact outcome_invalid (Nat.not_lt.mp hslot)

end Outcomes

theorem InOrder.perform (h : t.InOrder) (slot : UInt8) (edit : Edit) :
    (t.perform slot edit).1.InOrder := by
  have houtcome := outcome_perform h slot edit
  generalize t.perform slot edit = after at houtcome
  cases houtcome with
  | invalid | taken | absent => exact h
  | done i hi e hmakes hordered => exact h.setEntry hordered

theorem InOrder.run (h : t.InOrder) (edits : List (UInt8 × Edit)) : (t.run edits).InOrder := by
  induction edits generalizing t with
  | nil => exact h
  | cons e edits ih => exact ih (h.perform e.1 e.2)

/-- All that an edit does: if the reply is that it was done, it has changed the list of its
slot as asked for; else it has changed nothing. No other slot is ever touched. -/
structure Exact (t : PortTable) (slot : UInt8) (edit : Edit) : Prop where
  done : (t.perform slot edit).2 = .ok true → ∃ i, slot.toNat = i.val ∧
    edit.Makes (t.entry i).members ((t.perform slot edit).1.entry i).members
  unchanged : (t.perform slot edit).2 ≠ .ok true → (t.perform slot edit).1 = t
  elsewhere : ∀ j : Fin Port.slotCount, slot.toNat ≠ j.val →
    (t.perform slot edit).1.entry j = t.entry j
  /-- an edit that looks for a connection finds nothing only if it is not on the slot -/
  absent : (t.perform slot edit).2 = .ok false → ∃ i conn, slot.toNat = i.val ∧
    edit.sought = some conn ∧ ∀ m ∈ (t.entry i).members, m.conn ≠ conn
  /-- it fails only if there is no such slot, or if somebody would listen on the port of
  somebody else who does -/
  failed : ∀ e, (t.perform slot edit).2 = .error e →
    (e = .portInvalid slot ∧ Port.slotCount ≤ slot.toNat) ∨
    (e = .portInUse slot ∧ ∃ i conn priority, slot.toNat = i.val ∧ Owned i ∧
      edit = .listen conn priority ∧ ∃ m ∈ (t.entry i).members, m.listening = true)

theorem InOrder.exact (h : t.InOrder) (slot : UInt8) (edit : Edit) : Exact t slot edit := by
  have houtcome := outcome_perform h slot edit
  constructor <;> generalize t.perform slot edit = after at houtcome
  · intro hdone
    cases houtcome with
    | invalid | taken | absent => simp at hdone
    | done i hi e hmakes =>
      refine ⟨i, hi, ?_⟩
      rw [entry_setEntry]
      exact hmakes
  · intro hdone
    cases houtcome with
    | invalid | taken | absent => rfl
    | done => exact absurd rfl hdone
  · intro j hj
    cases houtcome with
    | invalid | taken | absent => rfl
    | done i hi e hmakes =>
      have hne : i ≠ j := fun hij => hj (hij ▸ hi)
      exact entry_setEntry_of_ne hne t e
  · intro hfalse
    cases houtcome with
    | invalid | taken | done => simp at hfalse
    | absent i hi conn hsought hnone => exact ⟨i, conn, hi, hsought, hnone⟩
  · intro e he
    cases houtcome with
    | absent | done => simp at he
    | invalid hslot => exact .inl ⟨(Except.error.inj he).symm, hslot⟩
    | taken i hi ho hopen conn priority hedit =>
      exact .inr ⟨(Except.error.inj he).symm, i, conn, priority, hi, ho, hedit,
        (h i).isOpen.mp hopen⟩

/-- Whatever was done on a table, every list is sorted by falling priority, a slot is open
exactly if somebody listens on it, and at most one connection listens where there is a port
number. An edit puts one member in behind its equals, takes out the first member for a
connection, or does both; everybody else stays in order, and nothing at all is changed by an
edit that fails or does not find its connection. -/
theorem order_and_exclusivity (edits : List (UInt8 × Edit)) :
    (empty.run edits).InOrder ∧ ∀ slot edit, Exact (empty.run edits) slot edit := by
  have h := inOrder_empty.run edits
  exact ⟨h, h.exact⟩

-- a connection that is on a port twice is moved where it stands first
example :
    (empty.run [(4, .insert ⟨1, 0⟩ 7), (4, .listen ⟨1, 0⟩ 7), (4, .insert ⟨2, 0⟩ 5),
      (4, .reprioritize ⟨1, 0⟩ 5)]).members 4 =
      .ok [⟨⟨1, 0⟩, 7, true⟩, ⟨⟨2, 0⟩, 5, false⟩, ⟨⟨1, 0⟩, 5, false⟩] := by
  cbv

end PortTable

end Netstack
