import Netstack.Proofs.Pool.Moves

/-
One lemma for each operation of a pool: what it answers, and which moves it makes.

The lemmas are disjunctions. In the first case the census stays as it is, mostly because
the operation failed; the others give the moves with everything that was checked before
them. An operation that fails only after its move, because the event group was given up,
is among the others.
-/

set_option autoImplicit false

namespace Netstack

namespace Role

theorem pending_of_parent? {r : Role} {parent : Handle} (h : r.parent? = some parent) :
    r.pending = [] := by
  cases r <;> first | rfl | cases h

theorem kin_eq_server_iff {r : Role} {children : List (Peer × Handle)} :
    r.kin = .server children ↔ ∃ backlog, r = .server backlog children := by
  cases r <;> simp [kin]

end Role

namespace Slot

/-- A slot that is handed out anew keeps nothing of its last use that others could see but
its generation. -/
theorem status_prepared {limits : Limits} {s t : Slot} (h : s.prepared limits = .ok t) :
    t.status = s.status.claimed := by
  unfold prepared at h
  cases hq : s.rxQueue with
  | some queue =>
    rw [hq] at h
    cases h
    rfl
  | none =>
    rw [hq] at h
    dsimp only at h
    cases hnew : (Fifo.new limits.connQueueLen : Except Error (Fifo Buffer)) with
    | error e =>
      rw [hnew] at h
      cases h
    | ok queue =>
      rw [hnew] at h
      cases h
      rfl

end Slot

namespace Pool

variable {p : Pool}

theorem slot_cases (p : Pool) (h : Handle) :
    (¬ p.census.Live h ∧ p.slot h = .error .staleHandle) ∨
    ∃ s, p.slot? h = some s ∧ p.slot h = .ok s ∧ p.census.Live h ∧
      p.census.status h.index = s.status := by
  cases hs : p.slot? h with
  | none => exact .inl ⟨not_live_iff.2 hs, by rw [slot, hs]⟩
  | some s => exact .inr ⟨s, rfl, slot_eq_ok_iff.2 hs, live_of_slot? hs, status_of_slot? hs⟩

theorem slot_of_not_live {h : Handle} (hn : ¬ p.census.Live h) :
    p.slot h = .error .staleHandle := by
  rw [slot, not_live_iff.1 hn]

/-! ## Handing out a slot -/

/-- The first free slot is prepared, if there is one and it can be. -/
theorem alloc_stages (p : Pool) :
    (∃ e, p.alloc = (p, .error e)) ∨
    ∃ i t, i < p.slots.size ∧ (p.slotAt i).phase = .free ∧
      (p.slotAt i).prepared p.limits = .ok t ∧
      p.alloc = ((p.modify i fun _ => t).emit (.allocated ⟨i, t.generation⟩),
        .ok ⟨i, t.generation⟩) := by
  unfold alloc
  cases hi : p.slots.findIdx? fun s => s.phase = .free with
  | none => exact .inl ⟨_, rfl⟩
  | some i =>
    dsimp only
    obtain ⟨hlt, hfree, -⟩ := Array.findIdx?_eq_some_iff_getElem.1 hi
    have hslot : p.slotAt i = p.slots[i] := by simp [slotAt, hlt]
    cases hprep : (p.slotAt i).prepared p.limits with
    | error e => exact .inl ⟨e, rfl⟩
    | ok t =>
      refine .inr ⟨i, t, hlt, ?_, hprep, rfl⟩
      rw [hslot]
      simpa using hfree

theorem alloc_cases (p : Pool) :
    (∃ e, p.alloc = (p, .error e)) ∨
    ∃ i, i < p.slots.size ∧ (p.census.status i).phase = .free ∧
      p.alloc.2 = .ok ⟨i, (p.census.status i).generation⟩ ∧
      p.alloc.1.census = p.census.alter i Status.claimed := by
  obtain hfail | ⟨i, t, hlt, hfree, hprep, heq⟩ := alloc_stages p
  · exact .inl hfail
  · right
    have hstatus : t.status = (p.slotAt i).status.claimed := Slot.status_prepared hprep
    rw [heq]
    refine ⟨i, hlt, hfree, ?_, ?_⟩
    · exact congrArg (fun g => Except.ok (⟨i, g⟩ : Handle)) (congrArg Status.generation hstatus)
    · rw [census_emit]
      exact census_modify hlt hstatus

/-! ## Getting two ends -/

theorem bind_cases (p : Pool) (h : Handle) (port : UInt8) :
    (∃ e, p.bind h port = (p, .error e)) ∨
    ∃ lport, p.census.Live h ∧ (p.census.status h.index).phase = .closed ∧
      p.ports.checkBind port = .ok lport ∧
      (p.bind h port).1.census = p.census.alter h.index (Status.attached lport) := by
  unfold bind
  obtain ⟨-, hs⟩ | ⟨s, hs?, hs, hl, hstatus⟩ := slot_cases p h
  · exact .inl ⟨_, by rw [hs]⟩
  · rw [hs, hstatus]
    dsimp only
    by_cases hp : s.phase = .closed
    · rw [if_neg (not_not_intro hp)]
      cases hb : p.ports.checkBind port with
      | error e => exact .inl ⟨e, rfl⟩
      | ok lport =>
        refine .inr ⟨lport, hl, hp, rfl, ?_⟩
        dsimp only
        rw [census_announce]
        exact census_modify (index_lt_of_slot? hs?) rfl
    · rw [if_pos hp]
      exact .inl ⟨_, rfl⟩

theorem listen_cases (p : Pool) (h : Handle) (backlog : Nat) :
    (∃ e, p.listen h backlog = (p, .error e)) ∨
    ∃ t, p.census.Live h ∧ (p.census.status h.index).phase = .bound ∧
      p.ports.listen (p.census.status h.index).options.lport h
        (p.census.status h.index).options.priority = .ok t ∧
      (p.listen h backlog).1.census = (p.census.alter h.index Status.listening).withPorts t := by
  unfold listen
  cases (Fifo.new backlog : Except Error (Fifo Handle)) with
  | error e => exact .inl ⟨e, rfl⟩
  | ok queue =>
    obtain ⟨-, hs⟩ | ⟨s, hs?, hs, hl, hstatus⟩ := slot_cases p h
    · exact .inl ⟨_, by rw [hs]⟩
    · rw [hs, hstatus]
      dsimp only
      by_cases hp : s.phase = .bound
      · rw [if_neg (not_not_intro hp)]
        cases ht : p.ports.listen s.options.lport h s.options.priority with
        | error e => exact .inl ⟨e, rfl⟩
        | ok t =>
          refine .inr ⟨t, hl, hp, ht, ?_⟩
          dsimp only
          rw [census_announce]
          exact census_modify (p := { p with ports := t }) (index_lt_of_slot? hs?) rfl
      · rw [if_pos hp]
        exact .inl ⟨_, rfl⟩

theorem connect_cases (p : Pool) (h : Handle) (peer : Peer) :
    (∃ e, p.connect h peer = (p, .error e)) ∨
    ∃ lport t, p.census.Live h ∧
      ((p.census.status h.index).phase = .closed ∨ (p.census.status h.index).phase = .bound) ∧
      p.ports.insert lport h (p.census.status h.index).options.priority = .ok t ∧
      (p.connect h peer).1.census =
        (p.census.alter h.index (Status.linked lport peer)).withPorts t := by
  unfold connect
  by_cases hport : portMax < peer.port
  · rw [if_pos hport]
    exact .inl ⟨_, rfl⟩
  · rw [if_neg hport]
    obtain ⟨-, hs⟩ | ⟨s, hs?, hs, hl, hstatus⟩ := slot_cases p h
    · exact .inl ⟨_, by rw [hs]⟩
    · rw [hs, hstatus]
      dsimp only
      by_cases hp : s.phase ≠ .closed ∧ s.phase ≠ .bound
      · rw [if_pos hp]
        exact .inl ⟨_, rfl⟩
      · rw [if_neg hp]
        -- the shared slot or the port it is bound to: the table takes either in the same way
        generalize (if s.phase = .closed then Port.sharedSlot else s.options.lport) = lport
        cases ht : p.ports.insert lport h s.options.priority with
        | error e => exact .inl ⟨e, rfl⟩
        | ok t =>
          refine .inr ⟨lport, t, hl, ?_, ht, ?_⟩
          · rw [not_and_or, not_not, not_not] at hp
            exact hp
          · dsimp only
            rw [census_announce]
            exact census_modify (p := { p with ports := t }) (index_lt_of_slot? hs?) rfl

theorem setPriority_cases (p : Pool) (h : Handle) (priority : UInt8) :
    (¬ p.census.Live h ∧ p.setPriority h priority = (p, .error .staleHandle)) ∨
    (p.census.Live h ∧ (p.setPriority h priority).1.census = p.census.rank h priority) := by
  unfold setPriority
  obtain ⟨hn, hs⟩ | ⟨s, hs?, hs, hl, hstatus⟩ := slot_cases p h
  · exact .inl ⟨hn, by rw [hs]⟩
  · refine .inr ⟨hl, ?_⟩
    rw [hs]
    -- the slot first; the port table only if the connection is on it
    have hm : (p.modify h.index fun s =>
        { s with options := { s.options with priority := priority } }).census =
        p.census.alter h.index (Status.ranked priority) :=
      census_modify (index_lt_of_slot? hs?) rfl
    unfold Census.rank
    rw [hstatus, ports_census]
    dsimp only
    rw [show s.status.registered = s.registered from rfl,
      show s.status.options = s.options from rfl]
    cases hr : s.registered with
    | false => exact hm
    | true =>
      rw [if_pos rfl, if_pos rfl,
        show (p.modify h.index _).ports = p.ports from rfl]
      cases ht : p.ports.reprioritize s.options.lport h priority with
      | error e => exact hm
      | ok t =>
        dsimp only
        rw [census_withPorts, hm]

theorem updateOptions_cases (p : Pool) (h : Handle) (f : Options → Options) :
    (p.updateOptions h f).1 = p ∨
    (p.census.Live h ∧ (p.updateOptions h f).1.census =
      p.census.alter h.index fun s => { s with options := f s.options }) := by
  unfold updateOptions
  obtain ⟨-, hs⟩ | ⟨s, hs?, hs, hl, -⟩ := slot_cases p h
  · left
    rw [hs]
  · right
    rw [hs]
    exact ⟨hl, census_modify (index_lt_of_slot? hs?) rfl⟩

/-! ## Children -/

/-- A connection that is somebody's child has no backlog, so freeing it ends there. -/
theorem free_eq_of_parent? {h parent : Handle} (hl : p.census.Live h)
    (hk : (p.census.status h.index).kin.parent? = some parent) :
    p.free h = (((p.close h).1.modify h.index Slot.vacated).emit (.freed h), .ok ()) := by
  have hok := close_eq_ok_of_live hl
  -- closing keeps the parent, and only a server has a backlog
  have hkept : ((p.close h).1.census.status h.index).kin.parent? = some parent := by
    obtain ⟨-, he⟩ | ⟨-, -, he⟩ | ⟨-, -, -, hcensus⟩ := close_cases p h
    · rw [he]
      exact hk
    · rw [he]
      exact hk
    · rw [hcensus, Census.status_shut_self]
      exact (Census.alike_detach h h.index).parent.trans hk
  have hpending : (((p.close h).1.slotAt h.index).role).pending = [] :=
    Role.pending_of_parent? ((Role.parent?_kin _).symm.trans hkept)
  obtain ⟨s, hs⟩ := live_iff.1 hl
  obtain ⟨depth, hd⟩ := Nat.exists_eq_succ_of_ne_zero
    (Nat.ne_of_gt (Nat.lt_of_le_of_lt (Nat.zero_le _) (index_lt_of_slot? hs)))
  have hclose : p.close h = ((p.close h).1, .ok ()) := Prod.ext rfl hok
  unfold free
  rw [hd, freeWithin, hclose]
  dsimp only
  rw [hpending, List.foldl_nil]

theorem free_of_parent? {h parent : Handle} (hl : p.census.Live h)
    (ha : (p.census.status h.index).phase.isActive = true)
    (hk : (p.census.status h.index).kin.parent? = some parent) :
    (p.free h).2 = .ok () ∧
      (p.free h).1.census = (p.census.shut h).alter h.index Status.vacated := by
  obtain ⟨hn, -⟩ | ⟨-, hc, -⟩ | ⟨-, -, hok, hcensus⟩ := close_cases p h
  · exact absurd hl hn
  · rw [hc] at ha
    cases ha
  · rw [free_eq_of_parent? hl hk]
    refine ⟨rfl, ?_⟩
    rw [census_emit, census_vacate (closed_of_close_eq_ok hok).2.1, hcensus]

/-- A new child either gets into the backlog of its parent, or is freed again. -/
theorem joinBacklog_cases {parent child : Handle}
    (hserver : ∃ children, (p.census.status parent.index).kin = .server children)
    (hl : p.census.Live child) (hp : (p.census.status child.index).phase = .connected)
    (hk : (p.census.status child.index).kin.parent? = some parent) :
    ((p.joinBacklog parent child).2 = .ok child ∧
      (p.joinBacklog parent child).1.census = p.census) ∨
    ∃ e, (p.joinBacklog parent child).2 = .error e ∧
      (p.joinBacklog parent child).1.census =
        (p.census.shut child).alter child.index Status.vacated := by
  obtain ⟨children, hkin⟩ := hserver
  obtain ⟨backlog, hrole⟩ := Role.kin_eq_server_iff.1 hkin
  unfold joinBacklog
  rw [hrole]
  dsimp only
  cases hoffer : backlog.offer child with
  | mk backlog' result =>
    cases result with
    | ok u =>
      left
      refine ⟨rfl, ?_⟩
      exact census_modify_eq _ fun s => by simp [Slot.status, Slot.signal]
    | error rejected =>
      right
      -- the child was just made, so freeing it cannot fail
      obtain ⟨hok, hcensus⟩ := free_of_parent? hl (by rw [hp]; rfl) hk
      have hfree : p.free child = ((p.free child).1, .ok ()) := Prod.ext rfl hok
      dsimp only
      rw [hfree]
      exact ⟨_, rfl, hcensus⟩

/-- Making a connection the child of another. -/
theorem census_makeChild {parent child : Handle} {peer : Peer} {o : Options}
    (hp : parent.index < p.slots.size) (hc : child.index < p.slots.size)
    (ho : (p.census.status parent.index).options = o) :
    ((p.modify child.index (makeChild parent o peer)).modify parent.index fun s =>
      { s with role := s.role.adopt peer child }).census = p.census.adopt parent child peer := by
  have hmake : (p.modify child.index (makeChild parent o peer)).census =
      p.census.alter child.index (Status.fostered parent o peer) := census_modify hc rfl
  rw [census_modify (g := fun t => { t with kin := t.kin.adopt peer child })
    (by rw [size_modify]; exact hp) (by simp [Slot.status]), hmake, Census.adopt, ho]

/-- The pool with a slot handed out and made the child of a listening connection. -/
def withChild (p : Pool) (parent child : Handle) (peer : Peer) (o : Options) : Pool :=
  (p.alloc.1.modify child.index (makeChild parent o peer)).modify parent.index fun s =>
    { s with role := s.role.adopt peer child }

/-- `offerChild` fails early, finds that the peer has its child, or makes a child that goes
to the backlog. -/
theorem offerChild_stages (p : Pool) (parent : Handle) (peer : Peer) :
    (∃ e, p.offerChild parent peer = (p, .error e)) ∨
    (∃ children c, p.census.Live parent ∧ (p.census.status parent.index).kin = .server children ∧
      children.lookup peer = some c ∧ p.offerChild parent peer = (p, .ok c)) ∨
    ∃ child o, p.census.Offer parent child peer ∧
      (p.withChild parent child peer o).census = p.census.offered parent child peer ∧
      p.offerChild parent peer = (p.withChild parent child peer o).joinBacklog parent child := by
  unfold offerChild
  obtain ⟨-, hs⟩ | ⟨s, hs?, hs, hl, hstatus⟩ := slot_cases p parent
  · rw [hs]
    exact .inl ⟨_, rfl⟩
  rw [hs]
  dsimp only
  split
  · next backlog children hrole hphase =>
    have hkin : (p.census.status parent.index).kin = .server children := by
      rw [hstatus, Slot.status, hrole]
      rfl
    have hlisten : (p.census.status parent.index).phase = .listen := by
      rw [hstatus]
      exact hphase
    cases hlook : children.lookup peer with
    | some c => exact .inr (.inl ⟨children, c, hl, hkin, hlook, rfl⟩)
    | none =>
      cases hev : s.events with
      | none => exact .inl ⟨_, rfl⟩
      | some group =>
        obtain ⟨e, he⟩ | ⟨i, hi, hfree, hok, hclaim⟩ := alloc_cases p
        · rw [he]
          exact .inl ⟨_, rfl⟩
        · -- everything was checked before the slot was handed out
          have o : p.census.Offer parent ⟨i, (p.census.status i).generation⟩ peer :=
            ⟨hl, hlisten, ⟨children, hkin, hlook⟩, hi, hfree, rfl⟩
          have halloc : p.alloc = (p.alloc.1, .ok ⟨i, (p.census.status i).generation⟩) :=
            Prod.ext rfl hok
          refine .inr (.inr ⟨_, s.options, o, ?_, by rw [halloc]; rfl⟩)
          have hsize : p.alloc.1.slots.size = p.slots.size := congrArg Census.size hclaim
          rw [withChild, census_makeChild (by rw [hsize]; exact index_lt_of_slot? hs?)
            (by rw [hsize]; exact o.size)
            (by rw [hclaim, Census.status_alter_of_ne o.ne, hstatus]; rfl), hclaim]
          rfl
  · exact .inl ⟨_, rfl⟩

/-- What `offerChild` does to the census: nothing, if it fails early or the peer has its
child already; else a slot is claimed and adopted, and the child is ended again if it
finds no room in the backlog. -/
theorem offerChild_cases (p : Pool) (parent : Handle) (peer : Peer) :
    (∃ e, p.offerChild parent peer = (p, .error e)) ∨
    (∃ children c, p.census.Live parent ∧ (p.census.status parent.index).kin = .server children ∧
      children.lookup peer = some c ∧ p.offerChild parent peer = (p, .ok c)) ∨
    ∃ child, p.census.Offer parent child peer ∧
      (((p.offerChild parent peer).2 = .ok child ∧
          (p.offerChild parent peer).1.census = p.census.offered parent child peer) ∨
        ∃ e, (p.offerChild parent peer).2 = .error e ∧
          (p.offerChild parent peer).1.census =
            ((p.census.offered parent child peer).shut child).alter child.index
              Status.vacated) := by
  obtain hfail | hfound | ⟨child, opts, o, hcensus, heq⟩ := offerChild_stages p parent peer
  · exact .inl hfail
  · exact .inr (.inl hfound)
  · refine .inr (.inr ⟨child, o, ?_⟩)
    obtain ⟨children, hkin, -⟩ := o.server
    have hjoin := joinBacklog_cases (p := p.withChild parent child peer opts)
      ⟨(peer, child) :: children, by rw [hcensus, o.status_parent, hkin]; rfl⟩
      (by rw [hcensus]; exact o.live_child) (by rw [hcensus]; exact o.connected_child)
      (by rw [hcensus, o.status_child]; rfl)
    rw [hcensus, ← heq] at hjoin
    exact hjoin

/-- Finding the connection for a packet changes nothing, unless a listener is offered a child. -/
theorem resolveInbound_fst (p : Pool) (dstPort : UInt8) (peer : Peer) :
    (p.resolveInbound dstPort peer).1 = p ∨
      ∃ conn, (p.resolveInbound dstPort peer).1 = (p.offerChild conn peer).1 := by
  unfold resolveInbound
  split
  · exact .inl rfl
  · exact .inl rfl
  · next conn _ =>
    refine .inr ⟨conn, ?_⟩
    split <;> rename_i hq <;> rw [hq]

end Pool

end Netstack
