import Netstack.Proofs.Pool.Operations

/-
What announcing, closing and offering do to the slots themselves.

The census leaves out queues, backlogs and event groups. Where they matter, an operation is
described by its slots: which ones are as they were, and what the others are now. Closing
comes down to detaching the connection and ending its slot, and a connection that was made
for a child and found no room leaves its parent as if it had never been there.
-/

set_option autoImplicit false

namespace Netstack

namespace Role

/-- A child that is forgotten leaves no trace, if its peer had none before. -/
theorem forget_adopt {r : Role} {peer : Peer} (h : r.kin.children.lookup peer = none)
    (child : Handle) : (r.adopt peer child).forget peer = r := by
  cases r with
  | client => rfl
  | child parent => rfl
  | server backlog children =>
    have hothers : children.filter (fun c => c.1 ≠ peer) = children := by
      rw [List.filter_eq_self]
      intro c hc
      have hne := List.lookup_eq_none_iff.1 h c hc
      rw [bne_iff_ne] at hne
      exact decide_eq_true hne.symm
    show server backlog (((peer, child) :: children).filter fun c => c.1 ≠ peer) = _
    rw [List.filter_cons_of_neg (by simp), hothers]

end Role

/-- The slot of a connection that was closed while it was active. -/
def Slot.ended (limits : Limits) (s : Slot) : Slot :=
  if limits.releaseOnClose then s.shut.released else s.shut

namespace Slot

@[simp] theorem role_ended (limits : Limits) (s : Slot) : (s.ended limits).role = s.role := by
  unfold ended
  split <;> rfl

end Slot

namespace Pool

variable {p : Pool} {h parent child : Handle} {s t : Slot} {peer : Peer}

theorem modify_modify (p : Pool) (i : Nat) (f g : Slot → Slot) :
    (p.modify i f).modify i g = p.modify i (g ∘ f) := by
  have hslots : (p.slots.modify i f).modify i g = p.slots.modify i (g ∘ f) := by
    apply Array.ext_getElem?
    intro j
    by_cases hj : i = j <;> simp [Array.getElem?_modify, hj]
  rw [modify, modify, modify, hslots]

theorem slotAt_emit (p : Pool) (event : ConnEvent) (i : Nat) :
    (p.emit event).slotAt i = p.slotAt i := rfl

theorem modify_emit (p : Pool) (event : ConnEvent) (i : Nat) (f : Slot → Slot) :
    (p.emit event).modify i f = (p.modify i f).emit event := rfl

@[simp] theorem ports_emit (p : Pool) (event : ConnEvent) : (p.emit event).ports = p.ports := rfl

@[simp] theorem ports_modify (p : Pool) (i : Nat) (f : Slot → Slot) :
    (p.modify i f).ports = p.ports := rfl

/-! ## Changing and announcing -/

theorem announce_of_events {g : EventGroup} {clear set : EventBits} {event : ConnEvent}
    (hs : p.slot? h = some s) (hg : s.events = some g) :
    p.announce h clear set event =
      ((p.modify h.index fun s => (s.unsignal clear).signal set).emit event, .ok ()) := by
  unfold announce events
  rw [slot_eq_ok_iff.2 hs]
  simp only [Bind.bind, Except.bind, hg]
  rfl

theorem announce_of_no_events {clear set : EventBits} {event : ConnEvent}
    (hs : p.slot? h = some s) (hg : s.events = none) :
    p.announce h clear set event = (p, .error .destroyed) := by
  unfold announce events
  rw [slot_eq_ok_iff.2 hs]
  simp only [Bind.bind, Except.bind, hg]
  rfl

/-- The slot of a connection after a change that keeps its generation. -/
theorem slot?_modify {f : Slot → Slot} (hs : p.slot? h = some s)
    (hg : (f s).generation = s.generation) (hp : (f s).phase ≠ .free) :
    (p.modify h.index f).slot? h = some (f s) := by
  obtain ⟨hat, hgen, -⟩ := slot?_eq_some_iff_slotAt.1 hs
  rw [slot?_eq_some_iff_slotAt, slotAt_modify (index_lt_of_slot? hs), hat]
  exact ⟨rfl, hg.trans hgen, hp⟩

/-! ## Closing -/

theorem limits_detach (p : Pool) (h : Handle) (s : Slot) : (p.detach h s).limits = p.limits := by
  unfold detach forgetChild unregister
  dsimp only
  split <;> split <;> (try split) <;> (try split) <;> rfl

/-- What is left of a connection when it is closed. -/
theorem close_of_active (hs : p.slot? h = some s) (ha : s.phase.isActive = true) :
    p.close h =
      (((p.detach h s).modify h.index (Slot.ended p.limits)).emit (.closed h), .ok ()) := by
  unfold close
  rw [hs]
  dsimp only
  rw [ha, if_neg (by simp), show ((p.detach h s).modify h.index Slot.shut).limits =
    (p.detach h s).limits from rfl, limits_detach]
  cases hr : p.limits.releaseOnClose with
  | false =>
    rw [if_neg (by simp), show Slot.ended p.limits = Slot.shut by
      funext s; rw [Slot.ended, hr, if_neg (by simp)]]
  | true =>
    rw [if_pos rfl, modify_modify, show Slot.ended p.limits = Slot.released ∘ Slot.shut by
      funext s; rw [Slot.ended, hr, if_pos rfl]; rfl]

/-- A connection on no port is detached from its parent only. -/
theorem detach_of_unregistered (hr : s.registered = false) (hk : s.role = .child parent) :
    p.detach h s = p.forgetChild parent s.peer := by
  unfold detach
  rw [hk, hr, if_neg (by simp)]
  rfl

/-! ## Offering a child -/

/-- A listening connection without a child for a peer, and a slot for one. -/
structure Offering (p : Pool) (parent : Handle) (peer : Peer) (s : Slot) (backlog : Fifo Handle)
    (children : List (Peer × Handle)) (i : Nat) (t : Slot) : Prop where
  parent : p.slot? parent = some s
  role : s.role = .server backlog children
  listens : s.phase = .listen
  unknown : children.lookup peer = none
  size : i < p.slots.size
  free : (p.slotAt i).phase = .free
  prepared : (p.slotAt i).prepared p.limits = .ok t

namespace Offering

variable {backlog : Fifo Handle} {children : List (Peer × Handle)} {i : Nat}

theorem slotAt_parent (o : p.Offering parent peer s backlog children i t) :
    p.slotAt parent.index = s := (slot?_eq_some_iff_slotAt.1 o.parent).1

theorem ne (o : p.Offering parent peer s backlog children i t) : i ≠ parent.index := by
  intro heq
  have hl := o.listens
  rw [← o.slotAt_parent, ← heq, o.free] at hl
  cases hl

end Offering

/-- The pool with a slot made the child of a listening connection, not yet in the backlog. -/
def adopted (p : Pool) (parent : Handle) (peer : Peer) (o : Options) (i : Nat) (t : Slot) : Pool :=
  ((((p.modify i fun _ => t).emit (.allocated ⟨i, t.generation⟩)).modify i
    (makeChild parent o peer)).modify parent.index fun s =>
      { s with role := s.role.adopt peer ⟨i, t.generation⟩ })

namespace Offering

variable {backlog : Fifo Handle} {children : List (Peer × Handle)} {i : Nat}

theorem slotAt_adopted_child (o : p.Offering parent peer s backlog children i t) :
    (p.adopted parent peer s.options i t).slotAt i = makeChild parent s.options peer t := by
  rw [adopted, slotAt_modify_of_ne o.ne.symm, slotAt_modify]
  · exact congrArg _ (slotAt_modify o.size _)
  · rw [show ((p.modify i fun _ => t).emit _).slots.size = (p.modify i fun _ => t).slots.size
      from rfl, size_modify]
    exact o.size

theorem slotAt_adopted_parent (o : p.Offering parent peer s backlog children i t) :
    (p.adopted parent peer s.options i t).slotAt parent.index =
      { s with role := s.role.adopt peer ⟨i, t.generation⟩ } := by
  have hsize : parent.index < p.slots.size := index_lt_of_slot? o.parent
  rw [adopted, slotAt_modify, slotAt_modify_of_ne o.ne]
  · have hsame : ((p.modify i fun _ => t).emit (.allocated ⟨i, t.generation⟩)).slotAt
        parent.index = s := (slotAt_modify_of_ne o.ne _ _).trans o.slotAt_parent
    rw [hsame]
  · rw [size_modify]
    show parent.index < (p.modify i fun _ => t).slots.size
    rw [size_modify]
    exact hsize

theorem slotAt_adopted_of_ne {j : Nat} (hi : j ≠ i) (hp : j ≠ parent.index) :
    (p.adopted parent peer s.options i t).slotAt j = p.slotAt j := by
  rw [adopted, slotAt_modify_of_ne hp.symm, slotAt_modify_of_ne hi.symm]
  exact slotAt_modify_of_ne hi.symm _ _

theorem slot?_adopted_child (o : p.Offering parent peer s backlog children i t) :
    (p.adopted parent peer s.options i t).slot? ⟨i, t.generation⟩ =
      some (makeChild parent s.options peer t) := by
  rw [slot?_eq_some_iff_slotAt]
  exact ⟨o.slotAt_adopted_child, rfl, by simp [makeChild]⟩

/-- A child that is freed again before it gets into the backlog leaves all slots but its own
as they were. -/
theorem free_adopted (o : p.Offering parent peer s backlog children i t)
    (hreg : t.registered = false) :
    ∃ q, (p.adopted parent peer s.options i t).free ⟨i, t.generation⟩ = (q, .ok ()) ∧
      q.ports = p.ports ∧ (q.slotAt i).phase = .free ∧ (q.slotAt i).role = .client ∧
      ∀ j, j ≠ i → q.slotAt j = p.slotAt j := by
  have hchild := o.slot?_adopted_child
  have hstatus := status_of_slot? hchild
  -- the parent is there, and forgets the peer that it had no child for
  have hlive : (p.adopted parent peer s.options i t).slot? parent =
      some { s with role := s.role.adopt peer ⟨i, t.generation⟩ } := by
    obtain ⟨-, hg, hp⟩ := slot?_eq_some_iff_slotAt.1 o.parent
    exact slot?_eq_some_iff_slotAt.2 ⟨o.slotAt_adopted_parent, hg, hp⟩
  have hunknown : s.role.kin.children.lookup peer = none := by
    rw [o.role]
    exact o.unknown
  have hsize : (p.adopted parent peer s.options i t).slots.size = p.slots.size := by
    simp [adopted, modify, emit]
  have hdetach : (p.adopted parent peer s.options i t).detach ⟨i, t.generation⟩
      (makeChild parent s.options peer t) =
      (p.adopted parent peer s.options i t).modify parent.index fun s =>
        { s with role := s.role.forget peer } := by
    have hrole : (makeChild parent s.options peer t).role = .child parent := rfl
    rw [detach_of_unregistered (s := makeChild parent s.options peer t) hreg hrole, forgetChild,
      show (makeChild parent s.options peer t).peer = peer from rfl, hlive]
  have hkin : ((p.adopted parent peer s.options i t).census.status i).kin.parent? =
      some parent := by
    rw [hstatus]
    rfl
  have hfree := free_eq_of_parent? (live_of_slot? hchild) hkin
  rw [close_of_active hchild rfl, hdetach] at hfree
  dsimp only at hfree
  rw [modify_emit, modify_modify] at hfree
  have hi : i < ((p.adopted parent peer s.options i t).modify parent.index fun s =>
      { s with role := s.role.forget peer }).slots.size := by
    rw [size_modify, hsize]
    exact o.size
  refine ⟨_, hfree, ?_, ?_, ?_, ?_⟩
  · simp only [ports_emit, ports_modify, adopted]
  · rw [slotAt_emit, slotAt_emit, slotAt_modify hi]
    rfl
  · rw [slotAt_emit, slotAt_emit, slotAt_modify hi]
    rfl
  · intro j hj
    rw [slotAt_emit, slotAt_emit, slotAt_modify_of_ne hj.symm]
    by_cases hp : j = parent.index
    · subst hp
      rw [slotAt_modify (by rw [hsize]; exact index_lt_of_slot? o.parent),
        o.slotAt_adopted_parent, o.slotAt_parent]
      dsimp only
      rw [Role.forget_adopt hunknown]
    · rw [slotAt_modify_of_ne (Ne.symm hp), slotAt_adopted_of_ne hj hp]

end Offering

/-- `offerChild` fails early, finds the child of the peer, or makes one and puts it into the
backlog. -/
theorem offerChild_parts (p : Pool) (parent : Handle) (peer : Peer) :
    (∃ e, p.offerChild parent peer = (p, .error e)) ∨
    (∃ s backlog children c, p.slot? parent = some s ∧ s.role = .server backlog children ∧
      s.phase = .listen ∧ children.lookup peer = some c ∧ p.offerChild parent peer = (p, .ok c)) ∨
    ∃ s backlog children i t, p.Offering parent peer s backlog children i t ∧
      p.offerChild parent peer =
        (p.adopted parent peer s.options i t).joinBacklog parent ⟨i, t.generation⟩ := by
  unfold offerChild
  obtain ⟨-, hs⟩ | ⟨s, hs?, hs, -, -⟩ := slot_cases p parent
  · rw [hs]
    exact .inl ⟨_, rfl⟩
  rw [hs]
  dsimp only
  split
  · next backlog children hrole hlisten =>
    cases hlook : children.lookup peer with
    | some c => exact .inr (.inl ⟨s, backlog, children, c, hs?, hrole, hlisten, hlook, rfl⟩)
    | none =>
      cases s.events with
      | none => exact .inl ⟨_, rfl⟩
      | some group =>
        obtain ⟨e, he⟩ | ⟨i, t, hi, hfree, hprep, heq⟩ := alloc_stages p
        · rw [he]
          exact .inl ⟨_, rfl⟩
        · rw [heq]
          exact .inr (.inr ⟨s, backlog, children, i, t,
            ⟨hs?, hrole, hlisten, hlook, hi, hfree, hprep⟩, rfl⟩)
  · exact .inl ⟨_, rfl⟩

/-- What `offerChild` does to the slots. A child that finds no room in the backlog leaves
every slot but its own as it was, and its own free. -/
theorem offerChild_slots (p : Pool) (parent : Handle) (peer : Peer) :
    (∃ e, p.offerChild parent peer = (p, .error e)) ∨
    (∃ s backlog children c, p.slot? parent = some s ∧ s.role = .server backlog children ∧
      s.phase = .listen ∧ children.lookup peer = some c ∧ p.offerChild parent peer = (p, .ok c)) ∨
    ∃ s backlog children i t q, p.Offering parent peer s backlog children i t ∧
      q.ports = p.ports ∧
      ((∃ backlog', backlog.offer ⟨i, t.generation⟩ = (backlog', .ok ()) ∧
          p.offerChild parent peer = (q, .ok ⟨i, t.generation⟩) ∧
          q.slotAt i = makeChild parent s.options peer t ∧
          q.slotAt parent.index = { s with
            role := .server backlog' ((peer, ⟨i, t.generation⟩) :: children) }.signal
              ConnBits.accept ∧
          ∀ j, j ≠ i → j ≠ parent.index → q.slotAt j = p.slotAt j) ∨
        ∃ e, p.offerChild parent peer = (q, .error e) ∧
          (q.slotAt i).phase = .free ∧ (q.slotAt i).role = .client ∧
          ∀ j, j ≠ i → q.slotAt j = p.slotAt j) := by
  obtain hfail | hfound | ⟨s, backlog, children, i, t, o, heq⟩ := offerChild_parts p parent peer
  · exact .inl hfail
  · exact .inr (.inl hfound)
  right
  right
  rw [heq]
  have hparent := o.slotAt_adopted_parent
  have hrole : ((p.adopted parent peer s.options i t).slotAt parent.index).role =
      .server backlog ((peer, ⟨i, t.generation⟩) :: children) := by
    rw [hparent, o.role]
    rfl
  unfold joinBacklog
  rw [hrole]
  dsimp only
  cases hoffer : backlog.offer ⟨i, t.generation⟩ with
  | mk backlog' result =>
    cases result with
    | ok u =>
      dsimp only
      refine ⟨s, backlog, children, i, t, _, o, ?_, .inl ⟨backlog', hoffer, rfl, ?_, ?_, ?_⟩⟩
      · simp only [ports_emit, ports_modify, adopted]
      · rw [slotAt_emit, slotAt_modify_of_ne o.ne.symm, o.slotAt_adopted_child]
      · have hsize : parent.index < (p.adopted parent peer s.options i t).slots.size := by
          rw [show (p.adopted parent peer s.options i t).slots.size = p.slots.size by
            simp [adopted, modify, emit]]
          exact index_lt_of_slot? o.parent
        rw [slotAt_emit, slotAt_modify hsize, hparent, o.role]
        rfl
      · intro j hi hp
        rw [slotAt_emit, slotAt_modify_of_ne hp.symm, Offering.slotAt_adopted_of_ne hi hp]
    | error rejected =>
      have hreg : t.registered = false :=
        congrArg Status.registered (Slot.status_prepared o.prepared)
      obtain ⟨q, hfree, hports, hphase, hclient, hslots⟩ := o.free_adopted hreg
      dsimp only
      rw [hfree]
      exact ⟨s, backlog, children, i, t, q, o, hports, .inr ⟨_, rfl, hphase, hclient, hslots⟩⟩

end Pool

end Netstack
