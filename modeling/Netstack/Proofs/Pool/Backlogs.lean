import Mathlib.Data.Finset.Card
import Mathlib.Data.Finset.Filter
import Mathlib.Data.Finset.Range
import Netstack.Proofs.Pool.Family
import Netstack.Proofs.Pool.Slots
import Netstack.Proofs.Pool.Stores
import Netstack.Proofs.Queue.Fifo
import Netstack.Proofs.Winnow

/-
Which children wait to be accepted, and who goes along when a connection is freed.

`p.Backlogs w` says that the children in the backlog of slot `i` are `w i`, for every slot.
A child that is offered goes behind the others, accepting takes from the front, and
listening starts with none. Everything else leaves the backlogs alone, but for `free`: it
takes along the children in the backlog of the connection, and theirs. What it does to the
whole pool is `Census.Frees`, and it is proved along the recursion, which is as deep as there
are live connections.
-/

set_option autoImplicit false

namespace Netstack

namespace Role

variable {r : Role} {xs : List Handle}

/-- The children in the backlog. Only a server has one. -/
def Awaits (r : Role) (xs : List Handle) : Prop :=
  match r.backlog? with
  | some backlog => backlog.Holds xs
  | none => xs = []

theorem Awaits.of_backlog?_eq {r' : Role} (h : r.Awaits xs) (hb : r'.backlog? = r.backlog?) :
    r'.Awaits xs := by
  unfold Awaits
  rw [hb]
  exact h

theorem Awaits.pending (h : r.Awaits xs) : r.pending = xs := by
  cases r with
  | client => exact h.symm
  | child parent => exact h.symm
  | server backlog children => exact (Fifo.Holds.drain h).1

/-- A child has no backlog. -/
theorem Awaits.of_parent? {parent : Handle} (h : r.Awaits xs) (hp : r.parent? = some parent) :
    xs = [] := by
  cases r <;> first | exact h | cases hp

end Role

namespace Pool

variable {p q : Pool} {h : Handle} {i : Nat} {w : Nat → List Handle} {xs : List Handle}

/-- The children that wait in every slot. -/
def Backlogs (p : Pool) (w : Nat → List Handle) : Prop := ∀ i, (p.slotAt i).role.Awaits (w i)

theorem Backlogs.pending (hw : p.Backlogs w) (i : Nat) : (p.slotAt i).role.pending = w i :=
  (hw i).pending

/-- The handles in the backlog of a connection. -/
def backlogOf (p : Pool) (h : Handle) : List Handle := (p.slotAt h.index).role.pending

theorem Backlogs.backlogOf_eq (hw : p.Backlogs w) (h : Handle) : p.backlogOf h = w h.index :=
  hw.pending h.index

/-! ## Operations that touch no backlog -/

/-- No backlog is another one than before. -/
structure SameBacklogs (p q : Pool) : Prop where
  backlog_eq : ∀ i, (q.slotAt i).role.backlog? = (p.slotAt i).role.backlog?

theorem SameBacklogs.refl (p : Pool) : p.SameBacklogs p := ⟨fun _ => rfl⟩

theorem SameBacklogs.trans {r : Pool} (h₁ : p.SameBacklogs q) (h₂ : q.SameBacklogs r) :
    p.SameBacklogs r := ⟨fun i => (h₂.backlog_eq i).trans (h₁.backlog_eq i)⟩

theorem SameBacklogs.backlogs (hs : p.SameBacklogs q) (hw : p.Backlogs w) : q.Backlogs w :=
  fun i => (hw i).of_backlog?_eq (hs.backlog_eq i)

theorem SameStores.sameBacklogs (hs : p.SameStores q) : p.SameBacklogs q := ⟨hs.backlog⟩

theorem sameBacklogs_modify (i : Nat) {f : Slot → Slot}
    (hf : ∀ s, (f s).role.backlog? = s.role.backlog?) : p.SameBacklogs (p.modify i f) :=
  ⟨view_modify (fun s => s.role.backlog?) i hf⟩

theorem sameBacklogs_emit (event : ConnEvent) : p.SameBacklogs (p.emit event) :=
  ⟨fun _ => rfl⟩

/-- A connection that is closed keeps its backlog. -/
theorem sameBacklogs_close (h : Handle) : p.SameBacklogs (p.close h).1 := by
  cases hs : p.slot? h with
  | none =>
    rw [close, hs]
    exact .refl _
  | some s =>
    cases ha : s.phase.isActive with
    | false =>
      rw [close, hs]
      dsimp only
      rw [ha]
      exact .refl _
    | true =>
      rw [close_of_active hs ha]
      refine (sameStores_detach h s).sameBacklogs.trans ?_
      refine SameBacklogs.trans ?_ (sameBacklogs_emit _)
      exact sameBacklogs_modify _ fun s => by rw [Slot.role_ended]

theorem sameBacklogs_setQueue (i : Nat) (queue : Fifo Buffer) :
    p.SameBacklogs (p.setQueue i queue) := sameBacklogs_modify _ fun _ => rfl

theorem sameBacklogs_afterPush (h : Handle) (result : Except (Rejected Buffer) Unit) :
    p.SameBacklogs (p.afterPush h result) := by
  unfold afterPush
  split
  · exact sameBacklogs_modify _ fun _ => rfl
  · exact sameBacklogs_emit _

theorem sameBacklogs_rxPush (h : Handle) (packet : Buffer) :
    p.SameBacklogs (p.rxPush h packet).1 := by
  unfold rxPush
  split
  · exact .refl _
  · exact (sameBacklogs_setQueue _ _).trans (sameBacklogs_afterPush _ _)

theorem sameBacklogs_lookPacket (h : Handle) : p.SameBacklogs (p.lookPacket h).1 := by
  unfold lookPacket
  split
  · exact .refl _
  · split
    · split
      · exact sameBacklogs_setQueue _ _
      · exact sameBacklogs_setQueue _ _
      · next queue _ =>
        have hback := (sameBacklogs_setQueue (p := p) h.index queue).trans
          (sameBacklogs_modify h.index (f := Slot.unsignal ConnBits.receive) fun _ => rfl)
        split <;> exact hback
    · exact .refl _

theorem sameBacklogs_rxPop (h : Handle) (timeout : Timeout) :
    p.SameBacklogs (p.rxPop h timeout).1 := by
  rw [rxPop_fst]
  exact sameBacklogs_lookPacket h

theorem sameBacklogs_rxFlush (h : Handle) : p.SameBacklogs (p.rxFlush h).1 := by
  unfold rxFlush onQueue
  split
  · exact .refl _
  · exact sameBacklogs_setQueue _ _

/-! ## Children come and go -/

/-- The backlog of one slot changes. -/
theorem Backlogs.update (hw : p.Backlogs w) (hi : (q.slotAt i).role.Awaits xs)
    (hne : ∀ j, j ≠ i → ∀ ys, (p.slotAt j).role.Awaits ys → (q.slotAt j).role.Awaits ys) :
    q.Backlogs (Function.update w i xs) := by
  intro j
  by_cases hj : j = i
  · subst hj
    rw [Function.update_self]
    exact hi
  · rw [Function.update_of_ne hj]
    exact hne j hj _ (hw j)

theorem Backlogs.modify {f : Slot → Slot} (hw : p.Backlogs w) (hi : i < p.slots.size)
    (hf : (f (p.slotAt i)).role.Awaits xs) :
    (p.modify i f).Backlogs (Function.update w i xs) := by
  refine hw.update ?_ fun j hj ys hys => ?_
  · rw [slotAt_modify hi]
    exact hf
  · rw [slotAt_modify_of_ne (Ne.symm hj)]
    exact hys

/-- A slot that is not in use has no backlog. -/
theorem Backlogs.vacant (hw : p.Backlogs w) (hfam : p.census.Family)
    (hfree : (p.slotAt i).phase = .free) : w i = [] := by
  have hkin : (p.slotAt i).role.kin = .client := hfam.vacant i hfree
  have hi := hw i
  cases hr : (p.slotAt i).role with
  | client =>
    rw [hr] at hi
    exact hi
  | child parent =>
    rw [hr] at hi
    exact hi
  | server backlog children =>
    rw [hr] at hkin
    cases hkin

theorem Backlogs.alloc (hw : p.Backlogs w) (hfam : p.census.Family) : p.alloc.1.Backlogs w := by
  obtain ⟨e, he⟩ | ⟨i, t, hi, hfree, hprep, heq⟩ := alloc_stages p
  · rw [he]
    exact hw
  · rw [heq]
    have hkin : t.role.kin = .client := congrArg Status.kin (Slot.status_prepared hprep)
    have hnew : t.role.Awaits [] := by
      cases hr : t.role with
      | client => rfl
      | child parent => rfl
      | server backlog children =>
        rw [hr] at hkin
        cases hkin
    have hsame := hw.modify (f := fun _ => t) hi hnew
    rw [← hw.vacant hfam hfree, Function.update_eq_self] at hsame
    exact (sameBacklogs_emit _).backlogs hsame

/-- A connection that listens starts with an empty backlog. -/
theorem Backlogs.listen (hw : p.Backlogs w) (h : Handle) (backlog : Nat) :
    (∃ e, p.listen h backlog = (p, .error e)) ∨
    ∃ t, p.census.Live h ∧ (p.census.status h.index).phase = .bound ∧
      (p.listen h backlog).1.census = (p.census.alter h.index Status.listening).withPorts t ∧
      (p.listen h backlog).1.Backlogs (Function.update w h.index []) := by
  unfold Pool.listen
  cases hnew : (Fifo.new backlog : Except Error (Fifo Handle)) with
  | error e => exact .inl ⟨e, rfl⟩
  | ok queue =>
    obtain ⟨-, hs⟩ | ⟨s, hs?, hs, hl, hstatus⟩ := slot_cases p h
    · exact .inl ⟨_, by rw [hs]⟩
    · rw [hs, hstatus]
      dsimp only
      by_cases hp : s.phase = .bound
      · rw [if_neg (not_not_intro hp)]
        cases p.ports.listen s.options.lport h s.options.priority with
        | error e => exact .inl ⟨e, rfl⟩
        | ok t =>
          refine .inr ⟨t, hl, hp, ?_, ?_⟩
          · dsimp only
            rw [census_announce]
            exact census_modify (p := { p with ports := t }) (index_lt_of_slot? hs?) rfl
          · refine (sameStores_announce _ _ _ _).sameBacklogs.backlogs ?_
            exact ((sameStores_withPorts t).sameBacklogs.backlogs hw).modify (index_lt_of_slot? hs?)
              (Fifo.holds_new hnew)
      · rw [if_pos hp]
        exact .inl ⟨_, rfl⟩

/-! ## Accepting -/

theorem isPendingChild_iff {parent c : Handle} :
    p.isPendingChild parent c = true ↔ ∃ peer, p.census.ChildFor parent peer c := by
  have hparts : (∃ peer, p.census.ChildFor parent peer c) ↔
      p.census.Live c ∧ (p.census.status c.index).phase = .connected ∧
        (p.census.status c.index).kin.parent? = some parent :=
    ⟨fun ⟨_, h⟩ => ⟨h.live, h.connected, h.parent⟩, fun ⟨hl, hp, hk⟩ => ⟨_, hl, hp, hk, rfl⟩⟩
  rw [hparts]
  unfold isPendingChild
  cases hs : p.slot? c with
  | none => exact iff_of_false (by simp) fun h => not_live_iff.2 hs h.1
  | some s =>
    rw [status_of_slot? hs, iff_true_intro (live_of_slot? hs), true_and]
    show _ ↔ s.phase = .connected ∧ s.role.kin.parent? = some parent
    rw [Role.parent?_kin]
    simp

/-- Whose child somebody is can be told from the census. -/
theorem isPendingChild_congr (hc : q.census = p.census) (h c : Handle) :
    q.isPendingChild h c = p.isPendingChild h c :=
  Bool.eq_iff_iff.2 (by rw [isPendingChild_iff, isPendingChild_iff, hc])

/-- The search through a backlog takes the first handle that still is a child, and drops whatever
comes before it. -/
theorem nextPending_eq_find? {backlog : Fifo Handle} (hb : backlog.Holds xs) (parent : Handle) :
    (p.nextPending parent xs.length backlog).2 = xs.find? (p.isPendingChild parent) ∧
      (p.nextPending parent xs.length backlog).1.Holds
        (xs.dropWhile fun c => !p.isPendingChild parent c).tail := by
  induction xs generalizing backlog with
  | nil => exact ⟨rfl, hb⟩
  | cons x xs ih =>
    rw [List.length_cons, nextPending]
    obtain ⟨hd, -⟩ | ⟨-, hnil, -⟩ | ⟨x', xs', q', heq, ht, hq'⟩ := hb.take_cases
    · cases hb.destroyed hd
    · cases hnil
    · obtain ⟨rfl, rfl⟩ := List.cons.inj heq
      rw [ht]
      dsimp only
      cases hx : p.isPendingChild parent x with
      | true =>
        rw [if_pos rfl, List.find?_cons_of_pos hx, List.dropWhile_cons_of_neg (by simp [hx])]
        exact ⟨rfl, hq'⟩
      | false =>
        rw [if_neg (by simp), List.find?_cons_of_neg (by simp [hx]),
          List.dropWhile_cons_of_pos (by simp [hx])]
        exact ih hq'

/-- Handles are taken from the front of the backlog until one still is a child. -/
theorem nextPending_cases {backlog : Fifo Handle} (hb : backlog.Holds xs) (parent : Handle) :
    ∃ taken rest, xs = taken ++ rest ∧
      (p.nextPending parent xs.length backlog).1.Holds rest ∧
      (∀ c ∈ taken, p.isPendingChild parent c = true →
        (p.nextPending parent xs.length backlog).2 = some c) ∧
      ∀ c, (p.nextPending parent xs.length backlog).2 = some c → c ∈ taken := by
  obtain ⟨hfound, hrest⟩ := nextPending_eq_find? (p := p) hb parent
  rw [hfound]
  exact ⟨_, _, (takeWhile_append_find?_append_tail _ xs).symm, hrest,
    fun c hc => find?_eq_of_mem_taken hc,
    fun c hc => List.mem_append_right _ (Option.mem_toList.2 hc)⟩

/-- As long as there is something in the backlog the search goes on. -/
theorem holds_nil_of_nextPending {backlog : Fifo Handle} (hb : backlog.Holds xs)
    {parent : Handle} (hnone : (p.nextPending parent xs.length backlog).2 = none) :
    (p.nextPending parent xs.length backlog).1.Holds [] := by
  obtain ⟨hfound, hrest⟩ := nextPending_eq_find? (p := p) hb parent
  have hall : xs.dropWhile (fun c => !p.isPendingChild parent c) = [] :=
    List.dropWhile_eq_nil_iff.2 fun c hc => by
      simpa using List.find?_eq_none.1 (hfound.symm.trans hnone) c hc
  rw [hall] at hrest
  exact hrest

/-- Looking for a child takes the first one out of the backlog, if the connection is one that
listens and has its event group. -/
theorem Backlogs.find (hw : p.Backlogs w) (h : Handle) :
    (∃ e, p.lookChild h = (p, .error e)) ∨
    (p.census.Live h ∧ (p.lookChild h).2 = .ok ((w h.index).find? (p.isPendingChild h)) ∧
      (p.lookChild h).1.Backlogs (Function.update w h.index
        ((w h.index).dropWhile fun c => !p.isPendingChild h c).tail)) := by
  unfold Pool.lookChild
  obtain ⟨-, hs⟩ | ⟨s, hs?, hs, hl, -⟩ := slot_cases p h
  · exact .inl ⟨_, by rw [hs]⟩
  rw [hs]
  dsimp only
  split
  · next backlog children hrole hphase =>
    cases s.events with
    | none => exact .inl ⟨_, rfl⟩
    | some group =>
      right
      have hslot : p.slotAt h.index = s := (slot?_eq_some_iff_slotAt.1 hs?).1
      have hb : backlog.Holds (w h.index) := by
        have := hw h.index
        rw [hslot, hrole] at this
        exact this
      dsimp only
      rw [hb.length]
      obtain ⟨hfound, hrest⟩ := nextPending_eq_find? (p := p) hb h
      generalize p.nextPending h (w h.index).length backlog = next at hfound hrest
      obtain ⟨backlog', child⟩ := next
      have hback : (p.modify h.index fun s =>
          { s with role := s.role.withBacklog backlog' }).Backlogs (Function.update w h.index
            ((w h.index).dropWhile fun c => !p.isPendingChild h c).tail) := by
        refine hw.modify (index_lt_of_slot? hs?) ?_
        rw [hslot, hrole]
        exact hrest
      refine ⟨hl, ?_, ?_⟩
      · rw [← hfound]
        cases child <;> rfl
      · cases child with
        | some c => exact hback
        | none =>
          refine SameBacklogs.backlogs ?_ hback
          exact sameBacklogs_modify h.index fun _ => rfl
  · exact .inl ⟨_, rfl⟩

/-- What accepting does to the backlog of a listening connection: the first handles are taken
out, and the one of them that still is a child is the answer. -/
theorem Backlogs.lookChild (hw : p.Backlogs w) (h : Handle) :
    (∃ e, p.lookChild h = (p, .error e)) ∨
    (p.census.Live h ∧ ∃ taken rest child, w h.index = taken ++ rest ∧
      (p.lookChild h).2 = .ok child ∧
      (p.lookChild h).1.Backlogs (Function.update w h.index rest) ∧
      (∀ c ∈ taken, p.isPendingChild h c = true → child = some c) ∧
      ∀ c, child = some c → c ∈ taken) := by
  obtain he | ⟨hl, hfound, hback⟩ := hw.find h
  · exact .inl he
  · exact .inr ⟨hl, _, _, _, (takeWhile_append_find?_append_tail _ _).symm, hfound, hback,
      fun c hc => find?_eq_of_mem_taken hc,
      fun c hc => List.mem_append_right _ (Option.mem_toList.2 hc)⟩

theorem Backlogs.accept (hw : p.Backlogs w) (h : Handle) (timeout : Timeout) :
    (∃ e, p.accept h timeout = (p, .error e)) ∨
    (p.census.Live h ∧ ∃ taken rest, w h.index = taken ++ rest ∧
      (p.accept h timeout).1.Backlogs (Function.update w h.index rest) ∧
      (∀ c ∈ taken, p.isPendingChild h c = true → (p.accept h timeout).2 = .ok c) ∧
      ∀ c, (p.accept h timeout).2 = .ok c → c ∈ taken) := by
  unfold Pool.accept
  obtain ⟨e, he⟩ | ⟨hl, taken, rest, child, hxs, hchild, hback, hfound, htaken⟩ := hw.lookChild h
  · rw [he]
    exact .inl ⟨e, rfl⟩
  · refine .inr ⟨hl, taken, rest, hxs, ?_⟩
    generalize p.lookChild h = looked at hchild hback
    obtain ⟨q, answer⟩ := looked
    obtain rfl : answer = .ok child := hchild
    cases child with
    | none =>
      refine ⟨hback, fun c hc hpc => ?_, ?_⟩
      · cases hfound c hc hpc
      · rintro c ⟨⟩
    | some child =>
      refine ⟨hback, fun c hc hpc => ?_, ?_⟩
      · cases hfound c hc hpc
        rfl
      · rintro c ⟨⟩
        exact htaken child rfl

end Pool

/-! ## Offering a child -/

/-- A slot that was free is used for a child. Everybody else is as before. -/
structure Census.Spawns (σ τ : Census) (child : Handle) : Prop where
  free : (σ.status child.index).phase = .free
  others : ∀ i, i ≠ child.index → (τ.status i).Alike (σ.status i)

namespace Pool

namespace Offering

variable {p q : Pool} {w : Nat → List Handle} {parent : Handle} {peer : Peer} {s t : Slot}
  {backlog backlog' : Fifo Handle} {children : List (Peer × Handle)} {i : Nat}

theorem holds (o : p.Offering parent peer s backlog children i t) (hw : p.Backlogs w) :
    backlog.Holds (w parent.index) := by
  have h := hw parent.index
  rw [o.slotAt_parent, o.role] at h
  exact h

/-- The child finds room: it is connected, and waits behind the others. -/
theorem joined (o : p.Offering parent peer s backlog children i t) (hw : p.Backlogs w)
    (hempty : w i = []) (hoffer : backlog.offer ⟨i, t.generation⟩ = (backlog', .ok ()))
    (hchild : q.slotAt i = makeChild parent s.options peer t)
    (hparent : q.slotAt parent.index = { s with
      role := .server backlog' ((peer, ⟨i, t.generation⟩) :: children) }.signal ConnBits.accept)
    (hrest : ∀ j, j ≠ i → j ≠ parent.index → q.slotAt j = p.slotAt j) :
    p.census.Spawns q.census ⟨i, t.generation⟩ ∧
      q.census.ChildFor parent peer ⟨i, t.generation⟩ ∧
      q.Backlogs
        (Function.update w parent.index (w parent.index ++ [⟨i, t.generation⟩])) := by
  have hb : backlog'.Holds (w parent.index ++ [⟨i, t.generation⟩]) := by
    obtain ⟨-, hq⟩ | ⟨-, -, hq⟩ | ⟨-, -, q', hq, hq'⟩ := (o.holds hw).offer_cases ⟨i, t.generation⟩
    · rw [hq] at hoffer
      cases hoffer
    · rw [hq] at hoffer
      cases hoffer
    · rw [hq] at hoffer
      cases hoffer
      exact hq'
  have hstatus : q.census.status i = (makeChild parent s.options peer t).status := by
    rw [status_census, hchild]
  refine ⟨⟨o.free, fun j hj => ?_⟩, ⟨?_, ?_, ?_, ?_⟩, hw.update ?_ fun j hj ys hys => ?_⟩
  · rw [status_census, status_census]
    by_cases hp : j = parent.index
    · -- a server had no parent and has none
      rw [hp, hparent, o.slotAt_parent]
      refine ⟨rfl, rfl, ?_, rfl, rfl⟩
      show none = s.role.kin.parent?
      rw [o.role]
      rfl
    · rw [hrest j hj hp]
      exact .refl _
  · rw [Census.Live, hstatus]
    exact ⟨rfl, by simp [makeChild, Slot.status]⟩
  · rw [hstatus]
    rfl
  · rw [hstatus]
    rfl
  · rw [hstatus]
    rfl
  · rw [hparent]
    exact hb
  · by_cases hi : j = i
    · subst hi
      have hnone : ys = [] := by rw [← hys.pending, hw.pending, hempty]
      rw [hchild]
      exact hnone
    · rw [hrest j hi hj]
      exact hys

/-- The child finds no room: its slot is free again. -/
theorem rejected (o : p.Offering parent peer s backlog children i t) (hw : p.Backlogs w)
    (hempty : w i = []) (hclient : (q.slotAt i).role = .client)
    (hrest : ∀ j, j ≠ i → q.slotAt j = p.slotAt j) :
    p.census.Spawns q.census ⟨i, t.generation⟩ ∧ q.Backlogs w := by
  refine ⟨⟨o.free, fun j hj => ?_⟩, fun j => ?_⟩
  · rw [status_census, status_census, hrest j hj]
    exact .refl _
  · by_cases hi : j = i
    · rw [hi, hclient, hempty]
      exact rfl
    · rw [hrest j hi]
      exact hw j

end Offering

variable {p : Pool} {h : Handle} {w : Nat → List Handle}

theorem Backlogs.offerChild (hw : p.Backlogs w) (hfam : p.census.Family) (parent : Handle)
    (peer : Peer) :
    (p.offerChild parent peer).1 = p ∨
    ∃ child q, (p.offerChild parent peer).1 = q ∧ p.census.Spawns q.census child ∧
      ((p.census.Live parent ∧ (p.offerChild parent peer).2 = .ok child ∧
          q.census.ChildFor parent peer child ∧
          q.Backlogs (Function.update w parent.index (w parent.index ++ [child]))) ∨
        ((q.census.status child.index).phase = .free ∧ q.Backlogs w)) := by
  obtain ⟨e, he⟩ | ⟨_, _, _, _, -, -, -, -, he⟩ | ⟨s, backlog, children, i, t, q, o, -, h⟩ :=
    offerChild_slots p parent peer
  · rw [he]
    exact .inl rfl
  · rw [he]
    exact .inl rfl
  have hempty : w i = [] := hw.vacant hfam o.free
  refine .inr ⟨⟨i, t.generation⟩, q, ?_⟩
  obtain ⟨backlog', hoffer, he, hchild, hparent, hrest⟩ | ⟨e, he, hfree, hclient, hrest⟩ := h
  · obtain ⟨hspawns, hfor, hback⟩ := o.joined hw hempty hoffer hchild hparent hrest
    exact ⟨by rw [he], hspawns, .inl ⟨live_of_slot? o.parent, by rw [he], hfor, hback⟩⟩
  · obtain ⟨hspawns, hback⟩ := o.rejected hw hempty hclient hrest
    exact ⟨by rw [he], hspawns, .inr ⟨hfree, hback⟩⟩

end Pool

/-! ## Freeing -/

namespace Census

variable {σ ρ τ : Census} {w w₁ w₂ : Nat → List Handle} {roots roots' : List Handle} {h c : Handle}

theorem live_iff_of_alike (ha : (τ.status c.index).Alike (σ.status c.index)) :
    τ.Live c ↔ σ.Live c := by
  rw [Live, Live, ha.generation, ha.phase]

/-- What freeing connections does, told from before and after. They are gone, and with them
goes who waited in the backlog of a connection that is gone. Nobody else is touched. -/
structure Frees (σ : Census) (w : Nat → List Handle) (roots : List Handle) (τ : Census)
    (w' : Nat → List Handle) : Prop where
  size : τ.size = σ.size
  freed : ∀ h ∈ roots, ¬ τ.Live h
  alike : ∀ i, (τ.status i).phase ≠ .free → (τ.status i).Alike (σ.status i)
  kept : ∀ i, (τ.status i).phase ≠ .free → w' i = w i
  taken : ∀ i, (σ.status i).phase ≠ .free → (τ.status i).phase = .free →
    ∀ c ∈ w i, ¬ τ.Live c
  cause : ∀ c, σ.Live c → ¬ τ.Live c → c ∈ roots ∨
    ∃ i, (σ.status i).phase ≠ .free ∧ (τ.status i).phase = .free ∧ c ∈ w i

namespace Frees

theorem live (hf : σ.Frees w roots τ w₁) (hl : τ.Live c) : σ.Live c :=
  (live_iff_of_alike (hf.alike c.index hl.2)).1 hl

theorem used (hf : σ.Frees w roots τ w₁) {i : Nat} (hi : (τ.status i).phase ≠ .free) :
    (σ.status i).phase ≠ .free := (hf.alike i hi).phase ▸ hi

/-- Freeing stale handles does nothing. -/
theorem of_stale (hr : ∀ h ∈ roots, ¬ σ.Live h) : σ.Frees w roots σ w :=
  ⟨rfl, hr, fun _ _ => .refl _, fun _ _ => rfl, fun _ hu hf => absurd hf hu,
    fun _ hl hn => absurd hl hn⟩

theorem of_stale_singleton (hn : ¬ σ.Live h) : σ.Frees w [h] σ w :=
  of_stale fun _ hk => List.mem_singleton.1 hk ▸ hn

theorem trans (h₁ : σ.Frees w roots ρ w₁) (h₂ : ρ.Frees w₁ roots' τ w₂) :
    σ.Frees w (roots ++ roots') τ w₂ where
  size := h₂.size.trans h₁.size
  freed h hh hl := by
    obtain hh | hh := List.mem_append.1 hh
    · exact h₁.freed h hh (h₂.live hl)
    · exact h₂.freed h hh hl
  alike i hi := (h₂.alike i hi).trans (h₁.alike i (h₂.used hi))
  kept i hi := (h₂.kept i hi).trans (h₁.kept i (h₂.used hi))
  taken i hu hf c hc hl := by
    by_cases hρ : (ρ.status i).phase = .free
    · exact h₁.taken i hu hρ c hc (h₂.live hl)
    · exact h₂.taken i hρ hf c ((h₁.kept i hρ).symm ▸ hc) hl
  cause c hl hn := by
    by_cases hρ : ρ.Live c
    · obtain hc | ⟨i, hu, hf, hc⟩ := h₂.cause c hρ hn
      · exact .inl (List.mem_append_right _ hc)
      · exact .inr ⟨i, h₁.used hu, hf, h₁.kept i hu ▸ hc⟩
    · obtain hc | ⟨i, hu, hf, hc⟩ := h₁.cause c hl hρ
      · exact .inl (List.mem_append_left _ hc)
      · exact .inr ⟨i, hu, not_not.1 fun hτ => h₂.used hτ hf, hc⟩

/-- A closed connection is given back, and then who waited in its backlog is freed. -/
theorem of_vacated (hl : σ.Live h)
    (halike : ∀ i, i ≠ h.index → (ρ.status i).Alike (σ.status i)) (hsize : ρ.size = σ.size)
    (hfree : (ρ.status h.index).phase = .free)
    (hf : ρ.Frees (Function.update w h.index []) (w h.index) τ w₁) : σ.Frees w [h] τ w₁ := by
  have hne : ∀ i, (ρ.status i).phase ≠ .free → i ≠ h.index := by
    rintro i hi rfl
    exact hi hfree
  have hgone : (τ.status h.index).phase = .free := not_not.1 fun hτ => hf.used hτ hfree
  refine ⟨hf.size.trans hsize, ?_, ?_, ?_, ?_, ?_⟩
  · intro k hk hlive
    rw [List.mem_singleton.1 hk] at hlive
    exact hlive.2 hgone
  · intro i hi
    exact (hf.alike i hi).trans (halike i (hne i (hf.used hi)))
  · intro i hi
    rw [hf.kept i hi, Function.update_of_ne (hne i (hf.used hi))]
  · intro i hu hi c hc
    by_cases hih : i = h.index
    · subst hih
      exact hf.freed c hc
    · refine hf.taken i ?_ hi c ?_
      · rw [(halike i hih).phase]
        exact hu
      · rw [Function.update_of_ne hih]
        exact hc
  · intro c hc hn
    by_cases hch : c.index = h.index
    · exact .inl (List.mem_singleton.2 (hc.eq_of_index_eq hl hch))
    · right
      have hρ : ρ.Live c := (live_iff_of_alike (halike c.index hch)).2 hc
      obtain hin | ⟨i, hu, hi, hin⟩ := hf.cause c hρ hn
      · exact ⟨h.index, hl.2, hgone, hin⟩
      · rw [Function.update_of_ne (hne i hu)] at hin
        exact ⟨i, (halike i (hne i hu)).phase ▸ hu, hi, hin⟩

end Frees

/-- The slots that are in use. -/
def used (σ : Census) : Finset Nat :=
  (Finset.range σ.size).filter fun i => (σ.status i).phase ≠ .free

theorem Frees.card_used (hf : σ.Frees w roots τ w₁) : τ.used.card ≤ σ.used.card := by
  refine Finset.card_le_card fun i hi => ?_
  obtain ⟨hlt, hu⟩ := Finset.mem_filter.1 hi
  exact Finset.mem_filter.2 ⟨hf.size ▸ hlt, hf.used hu⟩

end Census

namespace Pool

open Census (Frees)

variable {p : Pool} {h : Handle} {w : Nat → List Handle}

/-- What is left of a pool when a connection is given back, before its backlog is emptied. -/
structure GivenBack (p : Pool) (h : Handle) (w : Nat → List Handle) (q : Pool) : Prop where
  alike : ∀ i, i ≠ h.index → (q.census.status i).Alike (p.census.status i)
  size : q.census.size = p.census.size
  free : (q.census.status h.index).phase = .free
  backlogs : q.Backlogs (Function.update w h.index [])

theorem givenBack_of_close (hw : p.Backlogs w) (hl : p.census.Live h) :
    p.GivenBack h w ((p.close h).1.modify h.index Slot.vacated) := by
  have hok := closed_of_close_eq_ok (close_eq_ok_of_live hl)
  obtain ⟨s, hs⟩ := live_iff.1 hok.2.1
  have hback := (sameBacklogs_close h).backlogs hw
  refine ⟨?_, ?_, ?_, hback.modify (index_lt_of_slot? hs) rfl⟩
  · intro i hi
    rw [census_vacate hok.2.1, Census.status_alter_of_ne hi]
    obtain ⟨-, he⟩ | ⟨-, -, he⟩ | ⟨-, -, -, hcensus⟩ := close_cases p h
    · rw [he]
      exact .refl _
    · rw [he]
      exact .refl _
    · rw [hcensus]
      exact Census.alike_shut hi
  · rw [census_vacate hok.2.1]
    show (p.close h).1.census.size = p.census.size
    obtain ⟨-, he⟩ | ⟨-, -, he⟩ | ⟨-, -, -, hcensus⟩ := close_cases p h
    · rw [he]
    · rw [he]
    · rw [hcensus]
      exact Census.size_detach h
  · rw [census_vacate hok.2.1, Census.status_alter_self]
    rfl

/-- There is one connection less. -/
theorem GivenBack.card_used {q : Pool} (hq : p.GivenBack h w q) (hl : p.census.Live h) :
    q.census.used.card < p.census.used.card := by
  obtain ⟨s, hs⟩ := live_iff.1 hl
  refine Finset.card_lt_card (Finset.ssubset_iff_of_subset ?_ |>.2 ⟨h.index, ?_, ?_⟩)
  · intro i hi
    obtain ⟨hlt, hu⟩ := Finset.mem_filter.1 hi
    have hne : i ≠ h.index := by
      rintro rfl
      exact hu hq.free
    exact Finset.mem_filter.2 ⟨hq.size ▸ hlt, (hq.alike i hne).phase ▸ hu⟩
  · exact Finset.mem_filter.2 ⟨Finset.mem_range.2 (index_lt_of_slot? hs), hl.2⟩
  · exact fun hi => (Finset.mem_filter.1 hi).2 hq.free

/-- Connections are freed one after another, by a function that frees one of them in a pool
with at most `n` connections. -/
theorem foldl_frees {f : Pool → Handle → Pool} {n : Nat}
    (hf : ∀ q v c, q.Backlogs v → q.census.used.card ≤ n →
      ∃ w', (f q c).Backlogs w' ∧ q.census.Frees v [c] (f q c).census w')
    (roots : List Handle) (hw : p.Backlogs w) (hn : p.census.used.card ≤ n) :
    ∃ w', (roots.foldl f p).Backlogs w' ∧ p.census.Frees w roots (roots.foldl f p).census w' := by
  induction roots generalizing p w with
  | nil => exact ⟨w, hw, .of_stale (by simp)⟩
  | cons c roots ih =>
    obtain ⟨w₁, hw₁, hf₁⟩ := hf p w c hw hn
    obtain ⟨w₂, hw₂, hf₂⟩ := ih hw₁ (Nat.le_trans hf₁.card_used hn)
    exact ⟨w₂, hw₂, hf₁.trans hf₂⟩

/-- The recursion of `free`. Its depth is bounded by the number of live connections, and as
each level gives one back, it is never cut off. -/
theorem freeWithin_frees (depth : Nat) (hw : p.Backlogs w) (hd : p.census.used.card ≤ depth)
    (h : Handle) : ∃ w', (freeWithin depth p h).1.Backlogs w' ∧
      p.census.Frees w [h] (freeWithin depth p h).1.census w' := by
  induction depth generalizing p h w with
  | zero =>
    refine ⟨w, hw, .of_stale_singleton fun hl => ?_⟩
    have hlt := (givenBack_of_close hw hl).card_used hl
    exact Nat.not_lt_zero _ (Nat.lt_of_lt_of_le hlt hd)
  | succ depth ih =>
    by_cases hl : p.census.Live h
    · have hclose : p.close h = ((p.close h).1, .ok ()) := Prod.ext rfl (close_eq_ok_of_live hl)
      have hq := givenBack_of_close hw hl
      have hpending : (((p.close h).1.slotAt h.index).role).pending = w h.index :=
        ((sameBacklogs_close h).backlogs hw).pending h.index
      obtain ⟨w', hw', hf⟩ := foldl_frees (fun q v c hv hc => ih hv hc c) (w h.index) hq.backlogs
        (Nat.le_of_lt_succ (Nat.lt_of_lt_of_le (hq.card_used hl) hd))
      rw [freeWithin, hclose]
      dsimp only
      rw [hpending]
      exact ⟨w', (sameBacklogs_emit _).backlogs hw', .of_vacated hl hq.alike hq.size hq.free hf⟩
    · have hfail : p.close h = (p, .error .staleHandle) := by
        rw [close, not_live_iff.1 hl]
      rw [freeWithin, hfail]
      exact ⟨w, hw, .of_stale_singleton hl⟩

/-- A connection is freed together with those who wait in its backlog, and in theirs. -/
theorem free_frees (hw : p.Backlogs w) (h : Handle) :
    ∃ w', (p.free h).1.Backlogs w' ∧ p.census.Frees w [h] (p.free h).1.census w' := by
  refine freeWithin_frees _ hw ?_ h
  refine Nat.le_trans (Finset.card_filter_le _ _) ?_
  rw [Finset.card_range]
  exact Nat.le_refl _

end Pool

end Netstack
