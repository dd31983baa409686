import Netstack.Proofs.Pool.Twins

/-
Giving up the resources of closed connections, or keeping them, as it shows in the answers.

Two pools of one configuration differ only in whether they release queue and event group
on close, and the same operations are asked of both. They answer alike for as long as no
connection is opened again that has ended: there the pool that keeps the event group binds
or connects it, and the other one, which has none any more, fails with `destroyed`. So the
answers are the same throughout exactly if this never happens.
-/

set_option autoImplicit false

namespace Netstack

namespace Pool

/-- The two pools answer alike, and are twins again. -/
def Agree {α : Type} (x y : Pool × α) : Prop := x.2 = y.2 ∧ Twins x.1 y.1

variable {k r : Pool} {h : Handle}

theorem Twins.agree {α : Type} (t : Twins k r) (a : α) : Agree (k, a) (r, a) := ⟨rfl, t⟩

/-! ## Closing and freeing -/

theorem Twins.forgetChild (t : Twins k r) (parent : Handle) (peer : Peer) :
    Twins (k.forgetChild parent peer) (r.forgetChild parent peer) := by
  unfold Pool.forgetChild
  obtain ⟨hs, hu, -⟩ | ⟨s, u, hs, hu, -, -, hat, hat', -, htwin⟩ := t.slot_cases parent
  · rw [hs, hu]
    exact t
  · rw [hs, hu]
    refine t.modify ?_
    rw [hat, hat']
    refine htwin.alter (f := fun s => { s with role := s.role.forget peer }) ?_
      (fun _ => rfl) (fun _ => rfl) (.inl rfl)
    exact congrArg (fun s : Slot => { s with role := s.role.forget peer }) htwin.bare

theorem Twins.unregister (t : Twins k r) (port : UInt8) (h : Handle) :
    Twins (k.unregister port h) (r.unregister port h) := by
  unfold Pool.unregister
  rw [t.ports]
  cases r.ports.remove port h with
  | error e => exact t
  | ok removed => exact t.withPorts removed.1

theorem Twins.detach {s u : Slot} (t : Twins k r) (h : Handle)
    (htwin : Slot.Twin k.limits.connQueueLen s u) : Twins (k.detach h s) (r.detach h u) := by
  -- first the parent, and then the port
  have hport : ∀ {k' r' : Pool}, Twins k' r' →
      Twins (if s.registered then k'.unregister s.options.lport h else k')
        (if s.registered then r'.unregister s.options.lport h else r') := by
    intro k' r' t'
    cases s.registered with
    | false => exact t'
    | true => exact t'.unregister _ _
  unfold Pool.detach
  rw [← htwin.role, ← htwin.registered, ← htwin.options, ← htwin.peer]
  cases s.role.parent? with
  | none => exact hport t
  | some parent => exact hport (t.forgetChild parent s.peer)

theorem Twins.close (t : Twins k r) (h : Handle) : Agree (k.close h) (r.close h) := by
  obtain ⟨hs, hu, -⟩ | ⟨s, u, hs, hu, -, -, hat, hat', -, htwin⟩ := t.slot_cases h
  · rw [Pool.close, Pool.close, hs, hu]
    exact t.agree _
  cases ha : s.phase.isActive with
  | false =>
    rw [Pool.close, Pool.close, hs, hu]
    dsimp only
    rw [← htwin.phase, ha]
    exact t.agree _
  | true =>
    rw [close_of_active hs ha, close_of_active hu (by rw [← htwin.phase]; exact ha)]
    have hdetach := t.detach h htwin
    have hslot := hdetach.slot h.index
    refine ⟨rfl, (hdetach.modify ?_).emit _ _⟩
    refine hslot.ended ?_ t.keeps t.releases
    -- detaching leaves the phase alone
    have halike := Census.alike_detach (σ := k.census) h h.index
    rw [← census_detach hs] at halike
    have hphase : ((k.detach h s).slotAt h.index).phase = s.phase :=
      halike.phase.trans (congrArg Status.phase (status_of_slot? hs))
    rw [hphase]
    exact ha

theorem Twins.freeWithin (depth : Nat) (t : Twins k r) (h : Handle) :
    Agree (freeWithin depth k h) (freeWithin depth r h) := by
  induction depth generalizing k r h with
  | zero => exact t.agree _
  | succ depth ih =>
    have hclosed := closed_of_close_eq_ok (p := k) (h := h)
    obtain ⟨hanswer, htwins⟩ := t.close h
    unfold Pool.freeWithin
    generalize k.close h = x at hanswer htwins hclosed
    generalize r.close h = y at hanswer htwins
    obtain ⟨k', a⟩ := x
    obtain ⟨r', b⟩ := y
    dsimp only at hanswer htwins hclosed
    subst hanswer
    cases a with
    | error e => exact htwins.agree _
    | ok u =>
      have hslot := htwins.slot h.index
      have hvacated := htwins.modify (hslot.vacated (hclosed rfl).2.2)
      -- the same children are pending, and are freed one after another
      have hpending : ∀ (pending : List Handle) (k r : Pool), Twins k r →
          Twins (pending.foldl (fun p child => (Pool.freeWithin depth p child).1) k)
            (pending.foldl (fun p child => (Pool.freeWithin depth p child).1) r) := by
        intro pending
        induction pending with
        | nil => exact fun _ _ t => t
        | cons child rest ihp => exact fun k r t => ihp _ _ (ih t child).2
      dsimp only
      rw [← hslot.role]
      exact ⟨rfl, (hpending _ _ _ hvacated).emit _ _⟩

theorem Twins.free (t : Twins k r) (h : Handle) : Agree (k.free h) (r.free h) := by
  unfold Pool.free
  rw [t.size]
  exact t.freeWithin _ h

/-! ## Handing out and opening -/

/-- Both pools hand out the same slot, or fail alike. -/
theorem Twins.alloc_cases (t : Twins k r) :
    (∃ e, k.alloc = (k, .error e) ∧ r.alloc = (r, .error e)) ∨
    ∃ i s u,
      k.alloc = ((k.modify i fun _ => s).emit (.allocated ⟨i, s.generation⟩),
        .ok ⟨i, s.generation⟩) ∧
      r.alloc = ((r.modify i fun _ => u).emit (.allocated ⟨i, s.generation⟩),
        .ok ⟨i, s.generation⟩) ∧
      i < k.slots.size ∧ (k.slotAt i).phase = .free ∧
      Slot.Twin k.limits.connQueueLen s u ∧ s.phase = .closed ∧ s.hasEnded = false := by
  have hfirst : (k.slots.findIdx? fun s => s.phase = .free) =
      r.slots.findIdx? fun s => s.phase = .free := by
    have hphases : k.slots.map Slot.phase = r.slots.map Slot.phase := by
      apply Array.ext_getElem?
      intro i
      rw [Array.getElem?_map, Array.getElem?_map]
      by_cases hi : i < k.slots.size
      · have hslot := (t.slot i).phase
        simp only [slotAt, hi, t.size ▸ hi, getElem?_pos, Option.getD_some] at hslot
        simp [hi, t.size ▸ hi, hslot]
      · simp [hi, t.size ▸ hi]
    have hmap := congrArg (Array.findIdx? fun phase => phase = Phase.free) hphases
    rw [Array.findIdx?_map, Array.findIdx?_map] at hmap
    exact hmap
  unfold Pool.alloc
  rw [← hfirst]
  cases hi : k.slots.findIdx? fun s => s.phase = .free with
  | none => exact .inl ⟨_, rfl, rfl⟩
  | some i =>
    obtain ⟨hlt, hfree, -⟩ := Array.findIdx?_eq_some_iff_getElem.1 hi
    have hphase : (k.slotAt i).phase = .free := by
      rw [show k.slotAt i = k.slots[i] by simp [slotAt, hlt]]
      simpa using hfree
    obtain ⟨e, hk, hr⟩ | ⟨s, u, hk, hr, htwin, hclosed, hno⟩ :=
      (t.slot i).prepared hphase t.connQueueLen
    · dsimp only
      rw [hk, hr]
      exact .inl ⟨e, rfl, rfl⟩
    · dsimp only
      rw [hk, hr]
      exact .inr ⟨i, s, u, rfl, by rw [htwin.generation], hlt, hphase, htwin, hclosed, hno⟩

theorem Twins.alloc (t : Twins k r) : Agree k.alloc r.alloc := by
  obtain ⟨e, hk, hr⟩ | ⟨i, s, u, hk, hr, -, -, htwin, -⟩ := t.alloc_cases
  · rw [hk, hr]
    exact t.agree _
  · rw [hk, hr]
    exact ⟨rfl, (t.modify htwin).emit _ _⟩

/-- One pool opens a connection. The other does so too, unless the connection has ended:
then it fails with `destroyed`. -/
def Opens (ended : Bool) (x y : Pool × Except Error Unit) : Prop :=
  (∃ e, x.2 = .error e ∧ Agree x y) ∨
  (x.2 = .ok () ∧ (ended = false → Agree x y) ∧ (ended = true → y.2 = .error .destroyed))

theorem Agree.opens {ended : Bool} {e : Error} (t : Twins k r) :
    Opens ended (k, .error e) (r, .error e) := .inl ⟨e, rfl, t.agree _⟩

/-- A connection is changed and announced. -/
theorem Twins.opens {s u : Slot} (t : Twins k r) (hs : k.slot? h = some s)
    (hu : r.slot? h = some u) (ports : PortTable) (f : Slot → Slot) (clear set : EventBits)
    (event : ConnEvent) (hbare : ∀ s, (f s).bare = (f s.bare).bare)
    (hgen : ∀ s, (f s).generation = s.generation)
    (hqueue : ∀ s, (f s).rxQueue = s.rxQueue) (hevents : ∀ s, (f s).events = s.events)
    (hactive : ∀ s, (f s).phase.isActive = true) (hset : set &&& ConnBits.closed = 0) :
    Opens s.hasEnded
      (({ k with ports := ports }.modify h.index f).announce h clear set event)
      (({ r with ports := ports }.modify h.index f).announce h clear set event) := by
  obtain ⟨hat, -, hfree⟩ := slot?_eq_some_iff_slotAt.1 hs
  obtain ⟨hat', -, hfree'⟩ := slot?_eq_some_iff_slotAt.1 hu
  have htwin := t.slot h.index
  rw [hat, hat'] at htwin
  have hlive : ∀ s, (f s).phase ≠ .free := by
    intro s hp
    have ha := hactive s
    rw [hp] at ha
    cases ha
  have hks : ({ k with ports := ports }.modify h.index f).slot? h = some (f s) :=
    slot?_modify (p := { k with ports := ports }) hs (hgen s) (hlive s)
  have hru : ({ r with ports := ports }.modify h.index f).slot? h = some (f u) :=
    slot?_modify (p := { r with ports := ports }) hu (hgen u) (hlive u)
  obtain ⟨g, hg⟩ := Option.isSome_iff_exists.1 (htwin.equipped hfree).2
  right
  rw [announce_of_events hks ((hevents s).trans hg)]
  refine ⟨rfl, fun hno => ?_, fun hyes => ?_⟩
  · obtain ⟨g', hg'⟩ := Option.isSome_iff_exists.1 (htwin.given hfree hno).2
    rw [announce_of_events hru ((hevents u).trans hg')]
    refine ⟨rfl, Twins.emit ?_ _ _⟩
    rw [modify_modify, modify_modify]
    refine (t.withPorts ports).modify ?_
    -- first the change and then the bits, and the closed bit stays clear
    have halter : Slot.Twin k.limits.connQueueLen (f s) (f u) := by
      refine htwin.alter ?_ hqueue hevents (.inr ⟨hactive s, hfree, hno⟩)
      rw [hbare s, hbare u, htwin.bare]
    have hno' : (f s).hasEnded = false := by
      rw [Slot.hasEnded, hevents, ← Slot.hasEnded]
      exact hno
    have htwins := (halter.unsignal clear hno').signal hset
    show Slot.Twin k.limits.connQueueLen (((f (k.slotAt h.index)).unsignal clear).signal set)
      (((f (r.slotAt h.index)).unsignal clear).signal set)
    rw [hat, hat']
    exact htwins
  · rw [announce_of_no_events hru ((hevents u).trans (htwin.gone hfree hyes).2.2)]

theorem Twins.bind (t : Twins k r) (h : Handle) (port : UInt8) :
    Opens (k.slotAt h.index).hasEnded (k.bind h port) (r.bind h port) := by
  unfold Pool.bind
  obtain ⟨-, -, hs, hu⟩ | ⟨s, u, hs?, hu?, hs, hu, hat, -, -, htwin⟩ := t.slot_cases h
  · rw [hs, hu]
    exact Agree.opens t
  rw [hs, hu, hat]
  dsimp only
  rw [← htwin.phase, ← t.ports]
  by_cases hp : s.phase = .closed
  · rw [if_neg (not_not_intro hp), if_neg (not_not_intro hp)]
    cases k.ports.checkBind port with
    | error e => exact Agree.opens t
    | ok lport =>
      have hports : ({ r with ports := k.ports } : Pool) = r := by rw [t.ports]
      have hopens := t.opens hs? hu? k.ports
        (fun s => { s with phase := .bound, options := { s.options with lport := lport } })
        (ConnBits.closed ||| ConnBits.interrupt) ConnBits.bound (.bound h lport)
        (fun _ => rfl) (fun _ => rfl) (fun _ => rfl) (fun _ => rfl) (fun _ => rfl) (by decide)
      rw [hports] at hopens
      exact hopens
  · rw [if_pos hp, if_pos hp]
    exact Agree.opens t

theorem Twins.connect (t : Twins k r) (h : Handle) (peer : Peer) :
    Opens (k.slotAt h.index).hasEnded (k.connect h peer) (r.connect h peer) := by
  unfold Pool.connect
  by_cases hport : portMax < peer.port
  · rw [if_pos hport, if_pos hport]
    exact Agree.opens t
  rw [if_neg hport, if_neg hport]
  obtain ⟨-, -, hs, hu⟩ | ⟨s, u, hs?, hu?, hs, hu, hat, -, -, htwin⟩ := t.slot_cases h
  · rw [hs, hu]
    exact Agree.opens t
  rw [hs, hu, hat]
  dsimp only
  rw [← htwin.phase, ← htwin.options, ← t.ports]
  by_cases hp : s.phase ≠ .closed ∧ s.phase ≠ .bound
  · rw [if_pos hp, if_pos hp]
    exact Agree.opens t
  · rw [if_neg hp, if_neg hp]
    generalize (if s.phase = .closed then Port.sharedSlot else s.options.lport) = lport
    cases k.ports.insert lport h s.options.priority with
    | error e => exact Agree.opens t
    | ok ports =>
      exact t.opens hs? hu? ports _ _ _ _ (fun _ => rfl) (fun _ => rfl) (fun _ => rfl)
        (fun _ => rfl) (fun _ => rfl) (by decide)

/-- Only a bound connection can listen, and that has not ended. -/
theorem Twins.listen (t : Twins k r) (h : Handle) (backlog : Nat) :
    Agree (k.listen h backlog) (r.listen h backlog) := by
  unfold Pool.listen
  cases (Fifo.new backlog : Except Error (Fifo Handle)) with
  | error e => exact t.agree _
  | ok queue =>
    obtain ⟨-, -, hs, hu⟩ | ⟨s, u, hs?, hu?, hs, hu, hat, -, -, htwin⟩ := t.slot_cases h
    · rw [hs, hu]
      exact t.agree _
    rw [hs, hu]
    dsimp only
    rw [← htwin.phase, ← htwin.options, ← t.ports]
    by_cases hp : s.phase = .bound
    · rw [if_neg (not_not_intro hp), if_neg (not_not_intro hp)]
      cases k.ports.listen s.options.lport h s.options.priority with
      | error e => exact t.agree _
      | ok ports =>
        have hno : s.hasEnded = false := htwin.hasEnded (by rw [hp]; rfl)
        obtain ⟨e, -, hagree⟩ | ⟨-, hagree, -⟩ := t.opens hs? hu? ports
          (fun s => { s with
            role := .server queue [], phase := .listen, registered := true, opened := true })
          0 ConnBits.listen (.listening h s.options.lport)
          (fun _ => rfl) (fun _ => rfl) (fun _ => rfl) (fun _ => rfl) (fun _ => rfl) (by decide)
        · exact hagree
        · exact hagree hno
    · rw [if_pos hp, if_pos hp]
      exact t.agree _

/-! ## Children -/

theorem Twins.joinBacklog (t : Twins k r) (parent child : Handle) :
    Agree (k.joinBacklog parent child) (r.joinBacklog parent child) := by
  have hslot := t.slot parent.index
  unfold Pool.joinBacklog
  rw [← hslot.role]
  cases hrole : (k.slotAt parent.index).role with
  | client => exact t.agree _
  | child parent => exact t.agree _
  | server backlog children =>
    dsimp only
    cases backlog.offer child with
    | mk backlog' result =>
      cases result with
      | error rejected =>
        dsimp only
        obtain ⟨hanswer, htwins⟩ := t.free child
        generalize k.free child = x at hanswer htwins
        generalize r.free child = y at hanswer htwins
        obtain ⟨k', a⟩ := x
        obtain ⟨r', b⟩ := y
        dsimp only at hanswer htwins
        subst hanswer
        cases a with
        | error e => exact htwins.agree _
        | ok u => exact htwins.agree _
      | ok u =>
        refine ⟨rfl, (t.modify ?_).emit _ _⟩
        refine Slot.Twin.signal (k := { k.slotAt parent.index with
          role := (k.slotAt parent.index).role.withBacklog backlog' }) ?_ (by decide)
        refine hslot.alter (f := fun s => { s with role := s.role.withBacklog backlog' }) ?_
          (fun _ => rfl) (fun _ => rfl) (.inl rfl)
        exact congrArg (fun s : Slot => { s with role := s.role.withBacklog backlog' }) hslot.bare

theorem Twins.offerChild (t : Twins k r) (parent : Handle) (peer : Peer) :
    Agree (k.offerChild parent peer) (r.offerChild parent peer) := by
  unfold Pool.offerChild
  obtain ⟨-, -, hs, hu⟩ | ⟨s, u, -, -, hs, hu, -, -, hfree, htwin⟩ := t.slot_cases parent
  · rw [hs, hu]
    exact t.agree _
  rw [hs, hu]
  dsimp only
  rw [← htwin.role, ← htwin.phase, ← htwin.options]
  split
  · next backlog children _ hlisten =>
    -- a listening connection is active, so both pools have its event group
    obtain ⟨g, hg⟩ := Option.isSome_iff_exists.1 (htwin.equipped hfree).2
    obtain ⟨g', hg'⟩ := Option.isSome_iff_exists.1
      (htwin.given hfree (htwin.hasEnded (by rw [hlisten]; rfl))).2
    rw [hg, hg']
    cases children.lookup peer with
    | some c => exact t.agree _
    | none =>
      obtain ⟨e, hk, hr⟩ | ⟨i, sk, sr, hk, hr, hi, -, hchild, hclosed, hno⟩ := t.alloc_cases
      · rw [hk, hr]
        exact t.agree _
      · rw [hk, hr]
        refine Twins.joinBacklog ?_ _ _
        have halloc := (t.modify (i := i) (f := fun _ => sk) (g := fun _ => sr) hchild).emit
          (.allocated ⟨i, sk.generation⟩) (.allocated ⟨i, sk.generation⟩)
        -- the slot that was handed out becomes the child, and the parent gets an entry
        have hmade : Twins
            (((k.modify i fun _ => sk).emit (.allocated ⟨i, sk.generation⟩)).modify i
              (Pool.makeChild parent s.options peer))
            (((r.modify i fun _ => sr).emit (.allocated ⟨i, sk.generation⟩)).modify i
              (Pool.makeChild parent s.options peer)) := by
          refine halloc.modify ?_
          rw [slotAt_emit, slotAt_emit, slotAt_modify hi, slotAt_modify (t.size ▸ hi)]
          exact hchild.makeChild hclosed hno _ _ _
        have hparent := hmade.slot parent.index
        refine hmade.modify ?_
        refine hparent.alter
          (f := fun s => { s with role := s.role.adopt peer ⟨i, sk.generation⟩ }) ?_
          (fun _ => rfl) (fun _ => rfl) (.inl rfl)
        exact congrArg
          (fun s : Slot => { s with role := s.role.adopt peer ⟨i, sk.generation⟩ }) hparent.bare
  · exact t.agree _

theorem Twins.isPendingChild (t : Twins k r) (parent child : Handle) :
    k.isPendingChild parent child = r.isPendingChild parent child := by
  unfold Pool.isPendingChild
  obtain ⟨hs, hu, -⟩ | ⟨s, u, hs, hu, -, -, -, -, -, htwin⟩ := t.slot_cases child
  · rw [hs, hu]
  · rw [hs, hu]
    dsimp only
    rw [htwin.phase, htwin.role]

theorem Twins.nextPending (t : Twins k r) (parent : Handle) (n : Nat) (backlog : Fifo Handle) :
    k.nextPending parent n backlog = r.nextPending parent n backlog := by
  induction n generalizing backlog with
  | zero => rfl
  | succ n ih =>
    unfold Pool.nextPending
    split
    · next backlog' child _ =>
      rw [t.isPendingChild, ih]
    · rfl

theorem Twins.lookChild (t : Twins k r) (h : Handle) :
    Agree (k.lookChild h) (r.lookChild h) := by
  unfold Pool.lookChild
  obtain ⟨-, -, hs, hu⟩ | ⟨s, u, hs?, -, hs, hu, hat, hat', hfree, htwin⟩ := t.slot_cases h
  · rw [hs, hu]
    exact t.agree _
  rw [hs, hu]
  dsimp only
  rw [← htwin.role, ← htwin.phase]
  split
  · next backlog children _ hlisten =>
    have hno := htwin.hasEnded (by rw [hlisten]; rfl)
    obtain ⟨g, hg⟩ := Option.isSome_iff_exists.1 (htwin.equipped hfree).2
    obtain ⟨g', hg'⟩ := Option.isSome_iff_exists.1 (htwin.given hfree hno).2
    rw [hg, hg', ← t.nextPending]
    generalize k.nextPending h backlog.ring.length backlog = next
    obtain ⟨backlog', found⟩ := next
    dsimp only
    have hback : Twins
        (k.modify h.index fun s => { s with role := s.role.withBacklog backlog' })
        (r.modify h.index fun s => { s with role := s.role.withBacklog backlog' }) := by
      refine t.modify ?_
      rw [hat, hat']
      refine htwin.alter (f := fun s => { s with role := s.role.withBacklog backlog' }) ?_
        (fun _ => rfl) (fun _ => rfl) (.inl rfl)
      exact congrArg (fun s : Slot => { s with role := s.role.withBacklog backlog' }) htwin.bare
    cases found with
    | some child => exact hback.agree _
    | none =>
      refine ⟨rfl, hback.modify ((hback.slot h.index).unsignal _ ?_)⟩
      rw [slotAt_modify (index_lt_of_slot? hs?), hat]
      exact hno
  · exact t.agree _

theorem Twins.accept (t : Twins k r) (h : Handle) (timeout : Timeout) :
    Agree (k.accept h timeout) (r.accept h timeout) := by
  obtain ⟨hanswer, htwins⟩ := t.lookChild h
  unfold Pool.accept
  generalize k.lookChild h = x at hanswer htwins
  generalize r.lookChild h = y at hanswer htwins
  obtain ⟨k', a⟩ := x
  obtain ⟨r', b⟩ := y
  dsimp only at hanswer htwins
  subst hanswer
  match a with
  | .error e => exact htwins.agree _
  | .ok none => exact htwins.agree _
  | .ok (some child) => exact htwins.agree _

theorem Twins.taker? (t : Twins k r) (peer : Peer) : k.taker? peer = r.taker? peer := by
  funext m
  unfold Pool.taker?
  obtain ⟨hs, hu, -⟩ | ⟨s, u, hs, hu, -, -, -, -, -, htwin⟩ := t.slot_cases m.conn
  · rw [hs, hu]
  · rw [hs, hu]
    dsimp only
    rw [htwin.phase, htwin.options]

theorem Twins.resolveInbound (t : Twins k r) (dstPort : UInt8) (peer : Peer) :
    Agree (k.resolveInbound dstPort peer) (r.resolveInbound dstPort peer) := by
  have hcandidates : k.candidates dstPort = r.candidates dstPort := by
    rw [candidates, candidates, t.ports]
  unfold Pool.resolveInbound
  rw [hcandidates, t.taker?]
  match (r.candidates dstPort).findSome? (r.taker? peer) with
  | none => exact t.agree _
  | some (.direct conn) => exact t.agree _
  | some (.listener conn) =>
    obtain ⟨hanswer, htwins⟩ := t.offerChild conn peer
    dsimp only
    generalize k.offerChild conn peer = x at hanswer htwins
    generalize r.offerChild conn peer = y at hanswer htwins
    obtain ⟨k', a⟩ := x
    obtain ⟨r', b⟩ := y
    dsimp only at hanswer htwins
    subst hanswer
    cases a with
    | error e => exact htwins.agree _
    | ok child => exact htwins.agree _

/-! ## Packets -/

/-- What an active connection takes packets with, in both pools. -/
theorem Twins.inlet_cases (t : Twins k r) (h : Handle) :
    (∃ e, k.inlet h = .error e ∧ r.inlet h = .error e) ∨
    ∃ qk qr xs, k.inlet h = .ok qk ∧ r.inlet h = .ok qr ∧
      (k.slotAt h.index).phase.isActive = true ∧
      qk.Represents { capacity := k.limits.connQueueLen, items := xs } ∧
      qr.Represents { capacity := k.limits.connQueueLen, items := xs } := by
  unfold inlet
  obtain ⟨-, -, hs, hu⟩ | ⟨s, u, -, -, hs, hu, hat, -, hfree, htwin⟩ := t.slot_cases h
  · rw [hs, hu]
    exact .inl ⟨_, rfl, rfl⟩
  rw [hs, hu]
  simp only [Bind.bind, Except.bind]
  rw [← htwin.phase, hat]
  cases ha : s.phase.isActive with
  | false => exact .inl ⟨_, rfl, rfl⟩
  | true =>
    right
    obtain ⟨hkq, hke⟩ := htwin.equipped hfree
    obtain ⟨hrq, hre⟩ := htwin.given hfree (htwin.hasEnded ha)
    obtain ⟨qk, hqk⟩ := Option.isSome_iff_exists.1 hkq
    obtain ⟨qr, hqr⟩ := Option.isSome_iff_exists.1 hrq
    obtain ⟨gk, hgk⟩ := Option.isSome_iff_exists.1 hke
    obtain ⟨gr, hgr⟩ := Option.isSome_iff_exists.1 hre
    obtain ⟨xs, hk, hr, -⟩ := htwin.packets
    rw [hqk] at hk
    rw [hqr] at hr
    exact ⟨qk, qr, xs, by rw [hqk, hgk]; rfl, by rw [hqr, hgr]; rfl, rfl, hk, hr⟩

theorem Twins.rxPush (t : Twins k r) (h : Handle) (packet : Buffer) :
    Agree (k.rxPush h packet) (r.rxPush h packet) := by
  unfold Pool.rxPush
  obtain ⟨e, hk, hr⟩ | ⟨qk, qr, xs, hk, hr, hactive, hqk, hqr⟩ := t.inlet_cases h
  · rw [hk, hr]
    exact t.agree _
  rw [hk, hr]
  dsimp only
  rw [t.queueTimeout]
  -- both queues stand for the same list, so they answer alike and do so again
  obtain ⟨hanswer, hnext⟩ := hqk.push packet (some k.limits.queueTimeout)
  obtain ⟨hanswer', hnext'⟩ := hqr.push packet (some k.limits.queueTimeout)
  obtain ⟨ys, hys⟩ := BoundedList.append_items
    (b := { capacity := k.limits.connQueueLen, items := xs }) packet
    (if Timeout.waits (some k.limits.queueTimeout) then .timeout else .queueFull)
  rw [hys] at hnext hnext'
  rw [hanswer, hanswer']
  generalize (BoundedList.append _ packet _).2 = result
  have hqueues : Twins (k.setQueue h.index (qk.push packet (some k.limits.queueTimeout)).1)
      (r.setQueue h.index (qr.push packet (some k.limits.queueTimeout)).1) :=
    t.modify ((t.slot h.index).setQueue hactive hnext hnext')
  refine ⟨rfl, ?_⟩
  cases result with
  | error rejected => exact hqueues.emit _ _
  | ok u => exact hqueues.modify ((hqueues.slot h.index).signal (by decide))

end Pool

/-! ## Runs -/

open Pool (Op Reply Twins Agree Opens)

/-- The operations by which the two pools are compared: the queue, the event group and the
details of a connection are not looked at. -/
def Pool.Op.isCompared : Op → Bool
  | alloc | bind _ _ | listen _ _ | connect _ _ | offerChild _ _ | accept _ _
  | resolveInbound _ _ | rxPush _ _ | close _ | free _ => true
  | _ => false

namespace System

variable {s t : System} {op : Op}

/-- Whether a step opens a connection again that has ended: it was active, was closed, and has
had the closed bit set ever since. -/
def reopens (s : System) : Op → Bool
  | .bind h port => (s.pool.bind h port).2.isOk && (s.pool.slotAt h.index).hasEnded
  | .connect h peer => (s.pool.connect h peer).2.isOk && (s.pool.slotAt h.index).hasEnded
  | _ => false

/-- To open a connection is answered alike exactly if it is not opened again. -/
theorem answer_of_opens {ended : Bool} {x y : Pool × Except Error Unit} (h : Opens ended x y) :
    ((x.2.isOk && ended) = true → x.2 ≠ y.2) ∧ ((x.2.isOk && ended) = false → Agree x y) := by
  obtain ⟨e, he, hagree⟩ | ⟨hok, hagree, hfail⟩ := h
  · rw [he]
    exact ⟨fun hre => (by cases hre), fun _ => hagree⟩
  · rw [hok]
    refine ⟨fun hre => ?_, hagree⟩
    rw [hfail hre]
    simp

/-- One step of the two pools. -/
theorem step_twins (htwins : Twins s.pool t.pool) (hop : op.isCompared = true) :
    (s.reopens op = true → (s.step op).2 ≠ (t.step op).2) ∧
    (s.reopens op = false → (s.step op).2 = (t.step op).2 ∧
      Twins (s.step op).1.pool (t.step op).1.pool) := by
  have hagree : ∀ {α : Type} {reply : α → Reply} {x y : Pool × α}, Agree x y →
      reply x.2 = reply y.2 ∧ Twins x.1 y.1 := fun h => ⟨congrArg _ h.1, h.2⟩
  have hnever : s.reopens op = false → (s.reopens op = true → (s.step op).2 ≠ (t.step op).2) := by
    intro hno hyes
    rw [hno] at hyes
    cases hyes
  cases op with
  | alloc => exact ⟨hnever rfl, fun _ => hagree htwins.alloc⟩
  | listen h backlog => exact ⟨hnever rfl, fun _ => hagree (htwins.listen h backlog)⟩
  | offerChild parent peer => exact ⟨hnever rfl, fun _ => hagree (htwins.offerChild parent peer)⟩
  | accept h timeout => exact ⟨hnever rfl, fun _ => hagree (htwins.accept h timeout)⟩
  | resolveInbound dstPort peer =>
    exact ⟨hnever rfl, fun _ => hagree (htwins.resolveInbound dstPort peer)⟩
  | rxPush h packet => exact ⟨hnever rfl, fun _ => hagree (htwins.rxPush h packet)⟩
  | close h => exact ⟨hnever rfl, fun _ => hagree (htwins.close h)⟩
  | free h => exact ⟨hnever rfl, fun _ => hagree (htwins.free h)⟩
  | bind h port =>
    obtain ⟨hdiffer, hsame⟩ := answer_of_opens (htwins.bind h port)
    exact ⟨fun hre heq => hdiffer hre (Reply.unit.inj heq), fun hno => hagree (hsame hno)⟩
  | connect h peer =>
    obtain ⟨hdiffer, hsame⟩ := answer_of_opens (htwins.connect h peer)
    exact ⟨fun hre heq => hdiffer hre (Reply.unit.inj heq), fun hno => hagree (hsame hno)⟩
  | _ => cases hop

/-- Twins answer alike exactly for as long as no step opens a connection again. -/
theorem answers_twins (htwins : Twins s.pool t.pool) {ops : List Op}
    (hops : ∀ op ∈ ops, op.isCompared = true) :
    answers step s ops = answers step t ops ↔
      ∀ pre op, pre ++ [op] <+: ops → (s.run pre).reopens op = false := by
  induction ops generalizing s t with
  | nil =>
    refine ⟨fun _ pre op hpre => ?_, fun _ => rfl⟩
    rw [List.prefix_nil] at hpre
    exact absurd hpre (by simp)
  | cons op ops ih =>
    obtain ⟨hdiffer, hsame⟩ := step_twins htwins (hops op List.mem_cons_self)
    have hrest : ∀ op' ∈ ops, op'.isCompared = true := fun op' h => hops op' (.tail _ h)
    rw [answers, answers, List.cons.injEq]
    constructor
    · rintro ⟨hhead, htail⟩ pre op' hpre
      have hno : s.reopens op = false := by
        rw [← Bool.not_eq_true]
        exact fun hre => hdiffer hre hhead
      cases pre with
      | nil =>
        obtain ⟨rfl, -⟩ := List.cons_prefix_cons.1 hpre
        exact hno
      | cons x pre =>
        obtain ⟨rfl, hpre'⟩ := List.cons_prefix_cons.1 hpre
        exact (ih (hsame hno).2 hrest).1 htail pre op' hpre'
    · intro hnone
      obtain ⟨hhead, hnext⟩ := hsame (hnone [] op (List.cons_prefix_cons.2 ⟨rfl, List.nil_prefix⟩))
      refine ⟨hhead, (ih hnext hrest).2 fun pre op' hpre => ?_⟩
      exact hnone (op :: pre) op' (List.cons_prefix_cons.2 ⟨rfl, hpre⟩)

end System

namespace Pool

theorem twins_new {c : Config} {k r : Pool} (hk : new { c with releaseOnClose := false } = .ok k)
    (hr : new { c with releaseOnClose := true } = .ok r) : Twins k r := by
  obtain ⟨hkslots, hkports, hklimits⟩ := new_eq_ok hk
  obtain ⟨hrslots, hrports, hrlimits⟩ := new_eq_ok hr
  refine ⟨by rw [hkslots, hrslots], by rw [hkports, hrports], fun i => ?_,
    by rw [hklimits, hrlimits]; rfl, by rw [hklimits, hrlimits]; rfl, by rw [hklimits]; rfl,
    by rw [hrlimits]; rfl⟩
  rw [slotAt_new hk, slotAt_new hr]
  -- a slot that was never used has nothing in either pool
  refine ⟨rfl, ⟨[], rfl, rfl, fun _ => rfl⟩, ?_, fun hp => absurd rfl hp, fun hp => absurd rfl hp,
    fun hp => absurd rfl hp, ?_⟩
  · rintro (h | h) <;> cases h
  · rintro group ⟨⟩

/-- A pool that releases the resources of closed connections and one that keeps them give
the same answers exactly if no connection is opened again that has ended. -/
theorem same_answers_iff {c : Config} {k r : Pool}
    (hk : new { c with releaseOnClose := false } = .ok k)
    (hr : new { c with releaseOnClose := true } = .ok r) (ops : List Op)
    (hops : ∀ op ∈ ops, op.isCompared = true) :
    answers System.step k.atRest ops = answers System.step r.atRest ops ↔
      ∀ pre op, pre ++ [op] <+: ops → (k.atRest.run pre).reopens op = false :=
  System.answers_twins (s := k.atRest) (t := r.atRest) (twins_new hk hr) hops

/-- A slot is used by one connection after another, each of which is opened once. -/
theorem same_answers_for_next_connection :
    ∃ k r, new { maxConnections := 1 } = .ok k ∧
      new { maxConnections := 1, releaseOnClose := true } = .ok r ∧
      answers System.step k.atRest [.alloc, .connect ⟨0, 0⟩ ⟨0x42, 3⟩, .free ⟨0, 0⟩, .alloc,
          .bind ⟨0, 1⟩ 5, .listen ⟨0, 1⟩ 1] =
        answers System.step r.atRest [.alloc, .connect ⟨0, 0⟩ ⟨0x42, 3⟩, .free ⟨0, 0⟩, .alloc,
          .bind ⟨0, 1⟩ 5, .listen ⟨0, 1⟩ 1] := by
  refine ⟨_, _, rfl, rfl, ?_⟩
  refine (same_answers_iff (c := { maxConnections := 1 }) rfl rfl _ (by decide)).2 ?_
  exact System.forall_prefix_iff.2 (by decide +kernel)

/-- A bound connection is closed and bound again: the pool that gave up its event group fails,
and the one that kept it does not. -/
theorem other_answer_for_bind_again :
    ∃ k r, new { maxConnections := 1 } = .ok k ∧
      new { maxConnections := 1, releaseOnClose := true } = .ok r ∧
      ((k.atRest.run [.alloc, .bind ⟨0, 0⟩ 5, .close ⟨0, 0⟩]).step (.bind ⟨0, 0⟩ 5)).2 =
        .unit (.ok ()) ∧
      ((r.atRest.run [.alloc, .bind ⟨0, 0⟩ 5, .close ⟨0, 0⟩]).step (.bind ⟨0, 0⟩ 5)).2 =
        .unit (.error .destroyed) ∧
      answers System.step k.atRest [.alloc, .bind ⟨0, 0⟩ 5, .close ⟨0, 0⟩, .bind ⟨0, 0⟩ 5] ≠
        answers System.step r.atRest [.alloc, .bind ⟨0, 0⟩ 5, .close ⟨0, 0⟩, .bind ⟨0, 0⟩ 5] := by
  refine ⟨_, _, rfl, rfl, ?_, ?_, ?_⟩
  · exact congrArg Reply.unit (show (Pool.bind _ _ _).2 = .ok () by decide +kernel)
  · exact congrArg Reply.unit (show (Pool.bind _ _ _).2 = .error .destroyed by decide +kernel)
  · intro heq
    have hno := (System.answers_twins (s := Pool.atRest _) (t := Pool.atRest _)
      (twins_new (c := { maxConnections := 1 }) rfl rfl) (by decide)).1 heq
      [.alloc, .bind ⟨0, 0⟩ 5, .close ⟨0, 0⟩] (.bind ⟨0, 0⟩ 5) List.prefix_rfl
    revert hno
    decide +kernel

end Pool

end Netstack
