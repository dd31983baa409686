import Mathlib.Logic.Relation
import Netstack.Proofs.Pool.Backlogs
import Netstack.Proofs.Pool.Mail
import Netstack.Proofs.Queue.Refinement

/-
What one slot goes through.

The census says what the operations of a pool do to phases, ports and children. Here it is
said what they do to the rest of a slot as well, to its queues and its event group: `Slot.Move`
lists the changes that a slot can undergo, each with what is known where it is made, and
`Pool.Shifts` says that every slot of a pool went through some of them. There is one lemma for
each operation. What every move keeps is then kept by every operation, however many slots it
touches. To begin to listen is told apart (`Slot.Change`, `Pool.Changes`), as it is the only
change that gives a slot another backlog.

Left out are the calls that wait for room in a receive queue. They queue a packet when they are
resumed, whatever has become of the connection by then, which is a move of another kind.
-/

set_option autoImplicit false

namespace Netstack

namespace Role

@[simp] theorem backlog?_adopt (peer : Peer) (h : Handle) (r : Role) :
    (r.adopt peer h).backlog? = r.backlog? := by
  cases r <;> rfl

end Role

namespace Slot

/-- What a change of the connection is announced by: some event bits are cleared, others set. -/
def announced (clear set : EventBits) (s : Slot) : Slot := (s.unsignal clear).signal set

/-- Without an event group there is nothing to announce a change on. -/
theorem announced_of_no_events {s : Slot} (h : s.events = none) (clear set : EventBits) :
    s.announced clear set = s := by
  unfold announced signal unsignal
  rw [h, Option.map_none, Option.map_none, ← h]

/-- What a slot may go through in one operation, apart from beginning to listen. A queue that
changes keeps its capacity, and stays in service or out of it. -/
inductive Move (limits : Limits) : Slot → Slot → Prop
  /-- it is handed out -/
  | prepare {s t : Slot} (free : s.phase = .free) (prepared : s.prepared limits = .ok t) :
      Move limits s t
  /-- it is handed out to the child of a listening connection -/
  | foster {s t : Slot} (free : s.phase = .free) (prepared : s.prepared limits = .ok t)
      (parent : Handle) (o : Options) (peer : Peer) :
      Move limits s (Pool.makeChild parent o peer t)
  | bind {s : Slot} (closed : s.phase = .closed) (o : Options) :
      Move limits s ({ s with phase := .bound, options := o }.announced
        (ConnBits.closed ||| ConnBits.interrupt) ConnBits.bound)
  | connect {s : Slot} (idle : s.phase = .closed ∨ s.phase = .bound) (o : Options) :
      Move limits s ({ s with
        phase := .connected, registered := true, opened := true, options := o }.announced
          (ConnBits.closed ||| ConnBits.interrupt) ConnBits.connect)
  | options {s : Slot} (o : Options) : Move limits s { s with options := o }
  /-- another set of children, with the same ones in the backlog -/
  | children {s : Slot} {r : Role} (same : r.backlog? = s.role.backlog?) :
      Move limits s { s with role := r }
  /-- a child joins the backlog -/
  | join {s : Slot} {backlog backlog' : Fifo Handle} {children : List (Peer × Handle)}
      (role : s.role = .server backlog children)
      (steady : backlog.Steady backlog')
      (more : ∀ ys, backlog.Holds ys → ∃ ys', backlog'.Holds ys') :
      Move limits s ({ s with role := .server backlog' children }.signal ConnBits.accept)
  /-- a child leaves the backlog -/
  | leave {s : Slot} {backlog backlog' : Fifo Handle} {children : List (Peer × Handle)}
      (role : s.role = .server backlog children)
      (steady : backlog.Steady backlog')
      (less : ∀ ys, backlog.Holds ys → ∃ ys', backlog'.Holds ys' ∧ (ys = [] → ys' = [])) :
      Move limits s { s with role := .server backlog' children }
  /-- no child is found in the backlog -/
  | deserted {s : Slot} {backlog backlog' : Fifo Handle} {children : List (Peer × Handle)}
      (role : s.role = .server backlog children)
      (steady : backlog.Steady backlog')
      (empty : ∀ ys, backlog.Holds ys → backlog'.Holds []) :
      Move limits s ({ s with role := .server backlog' children }.unsignal ConnBits.accept)
  /-- a packet is queued -/
  | receive {s : Slot} {queue queue' : Fifo Buffer} (active : s.phase.isActive = true)
      (found : s.rxQueue = some queue) (steady : queue.Steady queue')
      (more : ∀ xs, queue.Holds xs → ∃ xs', queue'.Holds xs') :
      Move limits s ({ s with rxQueue := some queue' }.signal ConnBits.receive)
  /-- packets are taken from the queue -/
  | take {s : Slot} {queue queue' : Fifo Buffer} (found : s.rxQueue = some queue)
      (steady : queue.Steady queue')
      (less : ∀ xs, queue.Holds xs → ∃ xs', queue'.Holds xs' ∧ (xs = [] → xs' = [])) :
      Move limits s { s with rxQueue := some queue' }
  /-- no packet is found in the queue -/
  | miss {s : Slot} {queue queue' : Fifo Buffer} (found : s.rxQueue = some queue)
      (steady : queue.Steady queue') (empty : ∀ xs, queue.Holds xs → queue'.Holds []) :
      Move limits s ({ s with rxQueue := some queue' }.unsignal ConnBits.receive)
  | close {s : Slot} (active : s.phase.isActive = true) : Move limits s (s.ended limits)
  | vacate {s : Slot} (closed : s.phase = .closed) : Move limits s s.vacated
  /-- a packet was sent -/
  | send {s : Slot} : Move limits s (s.signal ConnBits.send)
  /-- somebody starts or ends to wait for event bits, and leaves all of them -/
  | wait {s : Slot} {g g' : EventGroup} (found : s.events = some g) (same : g'.bits = g.bits) :
      Move limits s { s with events := some g' }

/-- What a slot may go through in one operation. -/
inductive Change (limits : Limits) : Slot → Slot → Prop
  | move {s t : Slot} (made : Move limits s t) : Change limits s t
  | listen {s : Slot} {queue : Fifo Handle} (bound : s.phase = .bound) (empty : queue.Holds []) :
      Change limits s ({ s with
        role := .server queue [], phase := .listen, registered := true, opened := true }.announced
          0 ConnBits.listen)

end Slot

namespace Pool

variable {p q r : Pool} {h : Handle} {i : Nat} {s : Slot} {P : Slot → Prop}
  {R R' : Limits → Slot → Slot → Prop}

/-- Every slot went through any number of changes of some kind. -/
structure Through (R : Limits → Slot → Slot → Prop) (p q : Pool) : Prop where
  limits : q.limits = p.limits
  slot : ∀ i, Relation.ReflTransGen (R p.limits) (p.slotAt i) (q.slotAt i)

/-- Every slot went through some moves. -/
abbrev Shifts : Pool → Pool → Prop := Through Slot.Move

/-- Every slot went through some moves, or began to listen. -/
abbrev Changes : Pool → Pool → Prop := Through Slot.Change

theorem Through.refl (p : Pool) : Through R p p := ⟨rfl, fun _ => .refl⟩

theorem Through.trans (h₁ : Through R p q) (h₂ : Through R q r) : Through R p r := by
  refine ⟨h₂.limits.trans h₁.limits, fun i => (h₁.slot i).trans ?_⟩
  have hslot := h₂.slot i
  rw [h₁.limits] at hslot
  exact hslot

/-- What one change keeps of a slot is kept. -/
theorem Through.keeps (hs : Through R p q) (hmove : ∀ s t, R p.limits s t → P s → P t)
    (i : Nat) (hp : P (p.slotAt i)) : P (q.slotAt i) := by
  have hslot := hs.slot i
  generalize q.slotAt i = t at hslot
  induction hslot with
  | refl => exact hp
  | tail _ move ih => exact hmove _ _ move ih

theorem Shifts.changes (hs : p.Shifts q) : p.Changes q :=
  ⟨hs.limits, fun i => Relation.ReflTransGen.mono (fun _ _ => .move) _ _ (hs.slot i)⟩

theorem through_of_slots (hl : q.limits = p.limits) (hs : ∀ i, q.slotAt i = p.slotAt i) :
    Through R p q := by
  refine ⟨hl, fun i => ?_⟩
  rw [hs]

theorem through_modify {f : Slot → Slot} (hf : i < p.slots.size →
    Relation.ReflTransGen (R p.limits) (p.slotAt i) (f (p.slotAt i))) :
    Through R p (p.modify i f) := by
  refine ⟨rfl, fun j => ?_⟩
  obtain ⟨rfl, hi, hset⟩ | hsame := slotAt_modify_cases p i j f
  · rw [hset]
    exact hf hi
  · rw [hsame]

/-- The slot of a connection makes a move. -/
theorem through_modify_of_slot? {f : Slot → Slot} (hs : p.slot? h = some s)
    (hf : R p.limits s (f s)) : Through R p (p.modify h.index f) := by
  refine through_modify fun _ => ?_
  rw [(slot?_eq_some_iff_slotAt.1 hs).1]
  exact .single hf

theorem through_emit (event : ConnEvent) : Through R p (p.emit event) :=
  through_of_slots rfl fun _ => rfl

/-! ## Handing out -/

theorem shifts_alloc (p : Pool) : p.Shifts p.alloc.1 := by
  obtain ⟨e, he⟩ | ⟨i, t, hi, hfree, hprep, heq⟩ := alloc_stages p
  · rw [he]
    exact .refl p
  · rw [heq]
    exact (through_modify fun _ => .single (.prepare hfree hprep)).trans (through_emit _)

/-! ## Getting two ends -/

/-- A change that is announced, on whatever event group there is. -/
theorem slotAt_announce {f : Slot → Slot} (hs : p.slot? h = some s)
    (hg : (f s).generation = s.generation) (hp : (f s).phase ≠ .free) (clear set : EventBits)
    (event : ConnEvent) :
    ((p.modify h.index f).announce h clear set event).1.slotAt h.index =
        (f s).announced clear set ∧
      ∀ i, i ≠ h.index →
        ((p.modify h.index f).announce h clear set event).1.slotAt i = p.slotAt i := by
  have hfound := slot?_modify hs hg hp
  have hslot := (slot?_eq_some_iff_slotAt.1 hfound).1
  have hothers : ∀ i, i ≠ h.index → (p.modify h.index f).slotAt i = p.slotAt i :=
    fun i hi => slotAt_modify_of_ne hi.symm p f
  cases hev : (f s).events with
  | none =>
    rw [announce_of_no_events hfound hev, Slot.announced_of_no_events hev]
    exact ⟨hslot, hothers⟩
  | some g =>
    rw [announce_of_events hfound hev]
    refine ⟨?_, fun i hi => ?_⟩
    · rw [slotAt_emit, slotAt_modify (index_lt_of_slot? hfound), hslot]
      rfl
    · rw [slotAt_emit, slotAt_modify_of_ne hi.symm]
      exact hothers i hi

theorem limits_announce (clear set : EventBits) (event : ConnEvent) :
    (p.announce h clear set event).1.limits = p.limits := by
  unfold announce
  split <;> rfl

/-- The move of a slot that a change makes together with its announcement. -/
theorem through_announce {f : Slot → Slot} {clear set : EventBits} (hs : p.slot? h = some s)
    (hg : (f s).generation = s.generation) (hp : (f s).phase ≠ .free)
    (hmove : R p.limits s ((f s).announced clear set)) (event : ConnEvent) :
    Through R p ((p.modify h.index f).announce h clear set event).1 := by
  obtain ⟨hself, hothers⟩ := slotAt_announce hs hg hp clear set event
  refine ⟨limits_announce clear set event, fun i => ?_⟩
  by_cases hi : i = h.index
  · rw [hi, hself, (slot?_eq_some_iff_slotAt.1 hs).1]
    exact .single hmove
  · rw [hothers i hi]

theorem through_withPorts (t : PortTable) : Through R p ({ p with ports := t } : Pool) :=
  through_of_slots rfl fun _ => rfl

theorem shifts_bind (p : Pool) (h : Handle) (port : UInt8) : p.Shifts (p.bind h port).1 := by
  unfold bind
  obtain ⟨-, hs⟩ | ⟨s, hs?, hs, -, -⟩ := slot_cases p h
  · rw [hs]
    exact .refl p
  rw [hs]
  dsimp only
  split
  · exact .refl p
  · next hclosed =>
    split
    · exact .refl p
    · exact through_announce hs? rfl (by simp) (.bind (not_not.1 hclosed) _) _

/-- A connection begins to listen, and nobody else does anything. -/
theorem changes_listen (p : Pool) (h : Handle) (backlog : Nat) :
    p.Changes (p.listen h backlog).1 := by
  unfold listen
  cases hnew : (Fifo.new backlog : Except Error (Fifo Handle)) with
  | error e => exact .refl p
  | ok queue =>
    obtain ⟨-, hs⟩ | ⟨s, hs?, hs, -, -⟩ := slot_cases p h
    · rw [hs]
      exact .refl p
    rw [hs]
    dsimp only
    split
    · exact .refl p
    · next hbound =>
      split
      · exact .refl p
      · next t _ =>
        refine (through_withPorts t).trans ?_
        exact through_announce (p := { p with ports := t }) hs? rfl (by simp)
          (.listen (not_not.1 hbound) (Fifo.holds_new hnew)) _

theorem shifts_connect (p : Pool) (h : Handle) (peer : Peer) : p.Shifts (p.connect h peer).1 := by
  unfold connect
  split
  · exact .refl p
  obtain ⟨-, hs⟩ | ⟨s, hs?, hs, -, -⟩ := slot_cases p h
  · rw [hs]
    exact .refl p
  rw [hs]
  dsimp only
  split
  · exact .refl p
  · next hidle =>
    rw [not_and_or, not_not, not_not] at hidle
    split
    · exact .refl p
    · next t _ =>
      refine (through_withPorts t).trans ?_
      exact through_announce (p := { p with ports := t }) hs? rfl (by simp) (.connect hidle _) _

theorem shifts_updateOptions (p : Pool) (h : Handle) (f : Options → Options) :
    p.Shifts (p.updateOptions h f).1 := by
  unfold updateOptions
  obtain ⟨-, hs⟩ | ⟨s, hs?, hs, -, -⟩ := slot_cases p h
  · rw [hs]
    exact .refl p
  · rw [hs]
    exact through_modify_of_slot? hs? (.options _)

theorem shifts_setPriority (p : Pool) (h : Handle) (priority : UInt8) :
    p.Shifts (p.setPriority h priority).1 := by
  unfold setPriority
  obtain ⟨-, hs⟩ | ⟨s, hs?, hs, -, -⟩ := slot_cases p h
  · rw [hs]
    exact .refl p
  rw [hs]
  dsimp only
  -- the slot first; the port table is no slot
  have hslot : p.Shifts (p.modify h.index fun s =>
      { s with options := { s.options with priority := priority } }) :=
    through_modify_of_slot? hs? (.options _)
  split
  · split
    · exact hslot
    · exact hslot.trans (through_withPorts _)
  · exact hslot

/-! ## Closing and freeing -/

theorem shifts_forgetChild (p : Pool) (parent : Handle) (peer : Peer) :
    p.Shifts (p.forgetChild parent peer) := by
  unfold forgetChild
  split
  · next s hs => exact through_modify_of_slot? hs (.children (s.role.backlog?_forget peer))
  · exact .refl p

theorem shifts_unregister (p : Pool) (port : UInt8) (h : Handle) :
    p.Shifts (p.unregister port h) := by
  unfold unregister
  split
  · exact through_withPorts _
  · exact .refl p

theorem shifts_detach (p : Pool) (h : Handle) (s : Slot) : p.Shifts (p.detach h s) := by
  -- first the parent, then the port
  have hport : ∀ q, p.Shifts q →
      p.Shifts (if s.registered then q.unregister s.options.lport h else q) := by
    intro q hq
    split
    · exact hq.trans (shifts_unregister _ _ _)
    · exact hq
  unfold detach
  cases s.role.parent? with
  | none => exact hport p (.refl p)
  | some parent => exact hport _ (shifts_forgetChild p parent s.peer)

/-- Detaching a connection leaves its phase. -/
theorem phase_detach (hs : p.slot? h = some s) :
    ((p.detach h s).slotAt h.index).phase = s.phase := by
  have hphase := (Census.alike_detach (σ := p.census) h h.index).phase
  rw [← census_detach hs, status_of_slot? hs] at hphase
  exact hphase

theorem shifts_close (p : Pool) (h : Handle) : p.Shifts (p.close h).1 := by
  cases hs : p.slot? h with
  | none =>
    rw [close, hs]
    exact .refl p
  | some s =>
    cases ha : s.phase.isActive with
    | false =>
      rw [close, hs]
      dsimp only
      rw [ha]
      exact .refl p
    | true =>
      rw [close_of_active hs ha, ← limits_detach p h s]
      refine (shifts_detach p h s).trans ?_
      refine Through.trans (through_modify fun _ => .single (.close ?_)) (through_emit _)
      rw [phase_detach hs]
      exact ha

theorem shifts_free (p : Pool) (h : Handle) : p.Shifts (p.free h).1 := by
  refine freeWithin_induction (R := Shifts) .refl (fun _ _ _ => .trans) shifts_close ?_
    (fun _ => through_emit) _ p h
  intro q k _ hc
  exact through_modify fun _ => .single (.vacate hc)

/-! ## Children -/

theorem more_of_offer {backlog backlog' : Fifo Handle} {child : Handle}
    (ho : backlog.offer child = (backlog', .ok ())) (ys : List Handle) (hb : backlog.Holds ys) :
    ∃ ys', backlog'.Holds ys' := by
  obtain ⟨-, he⟩ | ⟨-, -, he⟩ | ⟨-, -, q', he, hq'⟩ := hb.offer_cases child <;> rw [ho] at he <;>
    cases he
  exact ⟨_, hq'⟩

theorem shifts_joinBacklog (p : Pool) (parent child : Handle) :
    p.Shifts (p.joinBacklog parent child).1 := by
  unfold joinBacklog
  split
  · next backlog children hrole =>
    split
    · -- there is no room, and the child is freed again
      have hfree := shifts_free p child
      split <;> rename_i hq <;> rw [hq] at hfree <;> exact hfree
    · next backlog' hoffer =>
      have hsteady := Fifo.steady_offer backlog child
      rw [hoffer] at hsteady
      refine Through.trans (through_modify fun _ => ?_) (through_emit _)
      rw [hrole]
      exact .single (.join hrole hsteady (more_of_offer hoffer))
  · exact .refl p

/-- The slot of a new child is handed out and fostered at once; its parent adopts it. -/
theorem Offering.shifts_adopted {parent : Handle} {peer : Peer} {backlog : Fifo Handle}
    {children : List (Peer × Handle)} {t : Slot}
    (o : p.Offering parent peer s backlog children i t) :
    p.Shifts (p.adopted parent peer s.options i t) := by
  refine ⟨rfl, fun j => ?_⟩
  by_cases hi : j = i
  · rw [hi, o.slotAt_adopted_child]
    exact .single (.foster o.free o.prepared _ _ _)
  · by_cases hp : j = parent.index
    · rw [hp, o.slotAt_adopted_parent, o.slotAt_parent]
      exact .single (.children (Role.backlog?_adopt _ _ _))
    · rw [slotAt_adopted_of_ne hi hp]

theorem shifts_offerChild (p : Pool) (parent : Handle) (peer : Peer) :
    p.Shifts (p.offerChild parent peer).1 := by
  obtain ⟨e, he⟩ | ⟨_, _, _, _, -, -, -, -, he⟩ | ⟨s, backlog, children, i, t, o, he⟩ :=
    offerChild_parts p parent peer
  · rw [he]
    exact .refl p
  · rw [he]
    exact .refl p
  · rw [he]
    exact o.shifts_adopted.trans (shifts_joinBacklog _ _ _)

theorem shifts_resolveInbound (p : Pool) (port : UInt8) (peer : Peer) :
    p.Shifts (p.resolveInbound port peer).1 := by
  obtain he | ⟨conn, he⟩ := resolveInbound_fst p port peer
  · rw [he]
    exact .refl p
  · rw [he]
    exact shifts_offerChild p conn peer

/-- Looking for a child takes handles out, and leaves the backlog as it is apart from them. -/
theorem steady_nextPending (parent : Handle) (n : Nat) (backlog : Fifo Handle) :
    backlog.Steady (p.nextPending parent n backlog).1 := by
  induction n generalizing backlog with
  | zero => exact .refl backlog
  | succ n ih =>
    have htake := Fifo.steady_take backlog
    unfold nextPending
    split <;> rename_i hq <;> rw [hq] at htake
    · split
      · exact htake
      · exact htake.trans (ih _)
    · exact htake

theorem less_of_nextPending {backlog backlog' : Fifo Handle} {c : Option Handle}
    (hnext : p.nextPending h backlog.ring.length backlog = (backlog', c)) (ys : List Handle)
    (hb : backlog.Holds ys) : ∃ ys', backlog'.Holds ys' ∧ (ys = [] → ys' = []) := by
  obtain ⟨taken, rest, hys, hrest, -, -⟩ := nextPending_cases (p := p) hb h
  rw [← hb.length, hnext] at hrest
  refine ⟨rest, hrest, ?_⟩
  rintro rfl
  exact (List.append_eq_nil_iff.1 hys.symm).2

theorem empty_of_nextPending {backlog backlog' : Fifo Handle}
    (hnext : p.nextPending h backlog.ring.length backlog = (backlog', none)) (ys : List Handle)
    (hb : backlog.Holds ys) : backlog'.Holds [] := by
  rw [hb.length] at hnext
  have hempty : (p.nextPending h ys.length backlog).1.Holds [] :=
    holds_nil_of_nextPending hb (by rw [hnext])
  rw [hnext] at hempty
  exact hempty

/-- Looking for a child takes some from the front of the backlog, or all. -/
theorem shifts_lookChild (p : Pool) (h : Handle) : p.Shifts (p.lookChild h).1 := by
  unfold lookChild
  obtain ⟨-, hs⟩ | ⟨s, hs?, hs, -, -⟩ := slot_cases p h
  · rw [hs]
    exact .refl p
  rw [hs]
  dsimp only
  split
  · next backlog children hrole _ =>
    cases s.events with
    | none => exact .refl p
    | some group =>
      have hsteady := steady_nextPending (p := p) h backlog.ring.length backlog
      cases hnext : p.nextPending h backlog.ring.length backlog with
      | mk backlog' child =>
        rw [hnext] at hsteady
        cases child with
        | some c =>
          refine through_modify_of_slot? hs? ?_
          rw [hrole]
          exact .leave hrole hsteady (less_of_nextPending hnext)
        | none =>
          dsimp only
          rw [modify_modify]
          refine through_modify_of_slot? hs? ?_
          dsimp only [Function.comp_apply]
          rw [hrole]
          exact .deserted hrole hsteady (empty_of_nextPending hnext)
  · exact .refl p

theorem shifts_accept (p : Pool) (h : Handle) (timeout : Timeout) :
    p.Shifts (p.accept h timeout).1 := by
  rw [accept_fst]
  exact shifts_lookChild p h

/-! ## Packets -/

/-- A packet is queued for an active connection and announced, or the queue stays as it is. -/
theorem shifts_rxPush (p : Pool) (h : Handle) (packet : Buffer) :
    p.Shifts (p.rxPush h packet).1 := by
  unfold rxPush
  cases hin : p.inlet h with
  | error e => exact .refl p
  | ok queue =>
    obtain ⟨hopen, hi⟩ := inlet_eq_ok hin
    obtain ⟨s, hs⟩ := live_iff.1 (isOpen_iff.1 hopen).1
    have hactive := (isOpen_iff.1 hopen).2
    rw [status_of_slot? hs] at hactive
    rw [inbox_of_slot? hs] at hi
    dsimp only
    cases hpush : queue.push packet (some p.limits.queueTimeout) with
    | mk queue' result =>
      have hcases := fun xs (hq : queue.Holds xs) =>
        hq.push_cases packet (some p.limits.queueTimeout)
      have hsteady := Fifo.steady_push queue packet (some p.limits.queueTimeout)
      rw [hpush] at hcases hsteady
      cases result with
      | ok u =>
        dsimp only [afterPush]
        rw [setQueue, modify_modify]
        refine through_modify_of_slot? hs (.receive hactive hi hsteady fun xs hq => ?_)
        obtain ⟨-, he⟩ | ⟨-, -, q', he, -⟩ | ⟨-, -, q', he, hq'⟩ := hcases xs hq <;> cases he
        exact ⟨_, hq'⟩
      | error rejected =>
        refine Through.trans ?_ (through_emit (.dropped h))
        refine through_modify_of_slot? hs (.take hi hsteady fun xs hq => ?_)
        obtain ⟨-, he⟩ | ⟨-, -, q', he, hq'⟩ | ⟨-, -, q', he, -⟩ := hcases xs hq <;> cases he
        · exact ⟨xs, hq, id⟩
        · exact ⟨xs, hq', id⟩

/-- Looking for a packet takes one from the queue, or finds that there is none. -/
theorem shifts_lookPacket (p : Pool) (h : Handle) : p.Shifts (p.lookPacket h).1 := by
  unfold lookPacket
  obtain ⟨-, hs⟩ | ⟨s, hs?, hs, -, -⟩ := slot_cases p h
  · rw [hs]
    exact .refl p
  rw [hs]
  dsimp only
  cases hrx : s.rxQueue with
  | none => exact .refl p
  | some queue =>
    cases s.events with
    | none => exact .refl p
    | some group =>
      dsimp only
      cases htake : queue.take with
      | mk queue' answer =>
        have hcases := fun xs (hq : queue.Holds xs) => hq.take_cases
        have hsteady := Fifo.steady_take queue
        rw [htake] at hcases hsteady
        cases answer with
        | error e =>
          refine through_modify_of_slot? hs? (.take hrx hsteady fun xs hq => ?_)
          obtain ⟨-, he⟩ | ⟨-, -, he⟩ | ⟨_, _, _, -, he, -⟩ := hcases xs hq <;> cases he
          exact ⟨xs, hq, id⟩
        | ok found =>
          cases found with
          | some packet =>
            refine through_modify_of_slot? hs? (.take hrx hsteady fun xs hq => ?_)
            obtain ⟨-, he⟩ | ⟨-, -, he⟩ | ⟨_, ys, _, rfl, he, hq'⟩ := hcases xs hq <;> cases he
            exact ⟨ys, hq', by rintro ⟨⟩⟩
          | none =>
            have hmiss : p.Shifts ((p.setQueue h.index queue').modify h.index
                (Slot.unsignal ConnBits.receive)) := by
              rw [setQueue, modify_modify]
              refine through_modify_of_slot? hs? (.miss hrx hsteady fun xs hq => ?_)
              obtain ⟨-, he⟩ | ⟨-, rfl, he⟩ | ⟨_, _, _, -, he, -⟩ := hcases xs hq <;> cases he
              exact hq
            dsimp only
            split <;> exact hmiss

theorem shifts_rxPop (p : Pool) (h : Handle) (timeout : Timeout) :
    p.Shifts (p.rxPop h timeout).1 := by
  rw [rxPop_fst]
  exact shifts_lookPacket p h

theorem shifts_rxFlush (p : Pool) (h : Handle) : p.Shifts (p.rxFlush h).1 := by
  unfold rxFlush onQueue rxQueue
  obtain ⟨-, hs⟩ | ⟨s, hs?, hs, -, -⟩ := slot_cases p h
  · rw [hs]
    exact .refl p
  rw [hs]
  simp only [Bind.bind, Except.bind]
  cases hrx : s.rxQueue with
  | none => exact .refl p
  | some queue =>
    refine through_modify_of_slot? hs? (.take hrx (Fifo.steady_drain queue) fun xs hq => ?_)
    exact ⟨[], hq.drain.2, fun _ => rfl⟩

/-! ## Waiting for event bits -/

/-- The event group of a slot changes, but not its bits. -/
theorem shifts_setEvents {g g' : EventGroup} (hg : (p.slotAt i).events = some g)
    (hbits : g'.bits = g.bits) : p.Shifts (p.setEvents i g') :=
  through_modify fun _ => .single (.wait hg hbits)

theorem shifts_gate (p : Pool) (i : Nat) (f : Gate → Gate) :
    p.Shifts (p.modify i fun s =>
      { s with events := s.events.map fun g => { g with gate := f g.gate } }) := by
  refine through_modify fun _ => ?_
  cases hev : (p.slotAt i).events with
  | none =>
    rw [Option.map_none, ← hev]
  | some g => exact .single (.wait hev rfl)

theorem shifts_sleep (p : Pool) (i : Nat) : p.Shifts (p.sleep i) := shifts_gate p i Gate.enter

theorem shifts_rise (p : Pool) (i : Nat) : p.Shifts (p.rise i) :=
  shifts_gate p i fun g => g.giveUp.leave

theorem shifts_beginPop (p : Pool) (h : Handle) (waits : Bool) :
    p.Shifts (p.beginPop h waits).1 := by
  have hlook := shifts_lookPacket p h
  obtain he | he := beginPop_fst p h waits
  · rw [he]
    exact hlook
  · rw [he]
    exact hlook.trans (shifts_sleep _ _)

theorem shifts_beginAccept (p : Pool) (h : Handle) (waits : Bool) :
    p.Shifts (p.beginAccept h waits).1 := by
  have hlook := shifts_lookChild p h
  obtain he | he := beginAccept_fst p h waits
  · rw [he]
    exact hlook
  · rw [he]
    exact hlook.trans (shifts_sleep _ _)

/-- Somebody who leaves the bits waits for them, or has waited. -/
theorem shifts_beginWait (p : Pool) (h : Handle) {call : EventGroup.Call}
    (hkeep : call.options.keepBits = true) (waits : Bool) :
    p.Shifts (p.beginWait h call waits).1 := by
  unfold beginWait events
  obtain ⟨-, hs⟩ | ⟨s, hs?, hs, -, -⟩ := slot_cases p h
  · rw [hs]
    exact .refl p
  rw [hs]
  simp only [Bind.bind, Except.bind]
  cases hev : s.events with
  | none => exact .refl p
  | some g =>
    refine shifts_setEvents (g := g) ?_ ?_
    · rw [(slot?_eq_some_iff_slotAt.1 hs?).1, hev]
    · unfold EventGroup.beginWait
      split
      · rfl
      · simp [EventGroup.finish, WaitOptions.leaves, hkeep]

theorem shifts_wakeBits (p : Pool) (i : Nat) {call : EventGroup.Call}
    (hkeep : call.options.keepBits = true) : p.Shifts (p.wakeBits i call).1 := by
  unfold wakeBits
  cases hev : (p.slotAt i).events with
  | none => exact .refl p
  | some g =>
    have hbits : (g.wakeWait call).1.bits = g.bits := by
      unfold EventGroup.wakeWait
      dsimp only
      split
      · simp [EventGroup.finish, WaitOptions.leaves, hkeep]
      · rfl
    dsimp only
    split <;> rename_i hq <;> rw [hq] at hbits <;> exact shifts_setEvents hev hbits

/-- Whether a call takes a packet or a child, or watches: it queues nothing, and leaves the
bits for others to see. -/
def Call.isConsumer : Call → Bool
  | .pop _ | .accept _ => true
  | .bits _ call => call.options.keepBits
  | .push _ _ | .pushRaw _ _ => false

theorem shifts_wake (p : Pool) {call : Call} (hc : call.isConsumer = true) :
    p.Shifts (p.wake call).1 := by
  cases call with
  | push h packet => cases hc
  | pushRaw i packet => cases hc
  | pop h =>
    have hbits : p.Shifts (p.wakeBits h.index (watching packetBits)).1 :=
      shifts_wakeBits p h.index rfl
    unfold wake
    dsimp only
    split <;> rename_i hq <;> rw [hq] at hbits
    · exact hbits.trans (shifts_beginPop _ _ _)
    · exact hbits
  | accept h =>
    have hbits : p.Shifts (p.wakeBits h.index (watching childBits)).1 :=
      shifts_wakeBits p h.index rfl
    unfold wake
    dsimp only
    split <;> rename_i hq <;> rw [hq] at hbits
    · exact hbits.trans (shifts_beginAccept _ _ _)
    · exact hbits
  | bits i call =>
    have hbits := shifts_wakeBits p i hc
    unfold wake
    dsimp only
    split <;> rename_i hq <;> rw [hq] at hbits <;> exact hbits

theorem shifts_expire (p : Pool) {call : Call} (hc : call.isConsumer = true) :
    p.Shifts (p.expire call).1 := by
  cases call with
  | push h packet => cases hc
  | pushRaw i packet => cases hc
  | pop h =>
    rw [expire_pop_fst]
    exact (shifts_rise p h.index).trans (shifts_lookPacket _ h)
  | accept h =>
    rw [expire_accept_fst]
    exact (shifts_rise p h.index).trans (shifts_lookChild _ h)
  | bits i call =>
    unfold expire
    dsimp only
    cases hev : (p.slotAt i).events with
    | none => exact .refl p
    | some g =>
      refine shifts_setEvents hev ?_
      simp [EventGroup.expireWait, EventGroup.lastWait, EventGroup.finish, WaitOptions.leaves,
        show call.options.keepBits = true from hc]

/-- What sending announces on the sender's event group. -/
theorem shifts_announceSent (p : Pool) (h : Handle) :
    p.Shifts (p.onEvents h fun g => (g.set ConnBits.send, ())).1 := by
  unfold onEvents events
  obtain ⟨-, hs⟩ | ⟨s, hs?, hs, -, -⟩ := slot_cases p h
  · rw [hs]
    exact .refl p
  rw [hs]
  simp only [Bind.bind, Except.bind]
  cases hev : s.events with
  | none => exact .refl p
  | some g =>
    refine through_modify_of_slot? hs? ?_
    have hsend : ({ s with events := some (g.set ConnBits.send) } : Slot) =
        s.signal ConnBits.send := by
      rw [Slot.signal, hev, Option.map_some]
    rw [hsend]
    exact .send

/-! ## Every operation -/

/-- Whether an operation leaves nothing behind that queues a packet later. -/
def Op.isInTurn : Op → Bool
  | .beginPush _ _ => false
  | _ => true

end Pool

namespace System

open Pool (Op)

variable {s : System}

/-- Calls that sleep may be resumed in between, if all of them are consumers. -/
theorem shifts_step {op : Op} (hop : op.isInTurn = true) (hno : ∀ h n, op ≠ .listen h n)
    (hs : ∀ call ∈ s.asleep, call.isConsumer = true) :
    s.pool.Shifts (s.step op).1.pool := by
  cases op with
  | alloc => exact Pool.shifts_alloc _
  | bind h port => exact Pool.shifts_bind _ h port
  | listen h backlog => exact absurd rfl (hno h backlog)
  | connect h peer => exact Pool.shifts_connect _ h peer
  | setPriority h priority => exact Pool.shifts_setPriority _ h priority
  | setRecvTimeout h timeout => exact Pool.shifts_updateOptions _ h _
  | setSendTimeout h timeout => exact Pool.shifts_updateOptions _ h _
  | offerChild parent peer => exact Pool.shifts_offerChild _ parent peer
  | resolveInbound port peer => exact Pool.shifts_resolveInbound _ port peer
  | accept h timeout => exact Pool.shifts_accept _ h timeout
  | rxPush h packet => exact Pool.shifts_rxPush _ h packet
  | rxPop h timeout => exact Pool.shifts_rxPop _ h timeout
  | rxFlush h => exact Pool.shifts_rxFlush _ h
  | close h => exact Pool.shifts_close _ h
  | free h => exact Pool.shifts_free _ h
  | options _ | phase _ | info _ | events _ | rxQueue _ => exact .refl _
  | attachMonitor | dropMonitor | readEvents => exact Pool.through_of_slots rfl fun _ => rfl
  | beginPush h packet => cases hop
  | beginPop h =>
    rw [step, pool_settle]
    exact Pool.shifts_beginPop _ h true
  | beginAccept h =>
    rw [step, pool_settle]
    exact Pool.shifts_beginAccept _ h true
  | wake k =>
    obtain he | ⟨call, hcall, he⟩ := step_wake_cases s k
    · rw [he]
      exact .refl _
    · rw [he, pool_settle]
      exact Pool.shifts_wake _ (hs call (List.mem_of_getElem? hcall))
  | expire k =>
    obtain he | ⟨call, hcall, he⟩ := step_expire_cases s k
    · rw [he]
      exact .refl _
    · rw [he]
      exact Pool.shifts_expire _ (hs call (List.mem_of_getElem? hcall))

theorem changes_step {op : Op} (hop : op.isInTurn = true)
    (hs : ∀ call ∈ s.asleep, call.isConsumer = true) :
    s.pool.Changes (s.step op).1.pool := by
  cases op with
  | listen h backlog => exact Pool.changes_listen _ h backlog
  | _ => exact Pool.Shifts.changes (shifts_step hop (by rintro _ _ ⟨⟩) hs)

end System

end Netstack
