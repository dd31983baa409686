import Netstack.Proofs.Pool.Accepting
import Netstack.Proofs.Pool.Failures
import Netstack.Proofs.Pool.Lookups
import Netstack.Proofs.Pool.Monitoring
import Netstack.Proofs.Queue.Fifo

/-
What comes of a packet that is brought to whoever takes it.

A connection takes a packet if there is room in its receive queue, and a listener takes one by a
child for the peer, which it makes if it has none yet. Both can be told before (`Lands`), and if
neither is so, nothing comes to anybody: every connection has the packets and the children that it
had (`Undelivered`). Bringing a packet to somebody may wake him, but nobody who is there loses his
event group by it (`hearing_deliver`).
-/

set_option autoImplicit false

namespace Netstack.Pool

variable {p q : Pool} {h c : Handle} {peer : Peer} {port : UInt8} {packet : Buffer}

/-- There is room for one more packet in the receive queue of a connection. -/
def RxRoom (p : Pool) (h : Handle) : Prop := ∃ queue, p.inlet h = .ok queue ∧ queue.HasRoom

theorem rxPush_eq_ok_iff : (p.rxPush h packet).2 = .ok () ↔ p.RxRoom h := by
  unfold rxPush RxRoom
  cases p.inlet h with
  | error e => simp
  | ok queue => simp [Fifo.push_eq_ok_iff]

/-- Somebody takes a packet for a port from a peer: a connection that has room for it, or a
listener that makes a child for the peer. -/
def Lands (p : Pool) (port : UInt8) (peer : Peer) : Prop :=
  match (p.candidates port).findSome? (p.taker? peer) with
  | none => False
  | some (.direct c) => p.RxRoom c
  | some (.listener l) =>
    match p.listed? l peer with
    | some c => p.RxRoom c
    | none => (p.offerChild l peer).2.isOk = true

/-- A packet for a port, brought to whoever takes it. -/
def deliver (p : Pool) (port : UInt8) (peer : Peer) (packet : Buffer) : Pool :=
  match p.resolveInbound port peer with
  | (q, .ok (some c)) => (q.rxPush c packet).1
  | (q, _) => q

/-- Nothing came to anybody: every connection has the packets and the children that it had. -/
structure Undelivered (p q : Pool) : Prop where
  packets : ∀ h, p.census.Live h → q.packets h.index = p.packets h.index
  children : ∀ h peer, q.listed? h peer = p.listed? h peer

theorem Undelivered.refl (p : Pool) : p.Undelivered p := ⟨fun _ _ => rfl, fun _ _ => rfl⟩

/-- The children of a connection can be told from the census. -/
theorem listed?_congr (hc : q.census = p.census) (h : Handle) (peer : Peer) :
    q.listed? h peer = p.listed? h peer := by
  by_cases hl : p.census.Live h
  · rw [listed?_of_live hl, listed?_of_live (hc ▸ hl), hc]
  · rw [listed?, listed?, not_live_iff.1 hl, not_live_iff.1 (hc ▸ hl)]

theorem Unchanged.undelivered (hu : p.Unchanged q) : p.Undelivered q := by
  refine ⟨fun h hl => ?_, fun h peer => ?_⟩
  · obtain ⟨s, hs⟩ := live_iff.1 hl
    have hsame := hu.connection h
    rw [hs, Option.map_some, Option.map_eq_some_iff] at hsame
    obtain ⟨t, ht, heq⟩ := hsame
    rw [packets, packets, inbox_of_slot? hs, inbox_of_slot? ht]
    exact congrArg (Option.getD · []) (congrArg Portrait.packets heq)
  · have hkin : ∀ r : Pool, r.listed? h peer =
        ((r.slot? h).map Slot.portrait).bind fun t => t.status.kin.children.lookup peer := by
      intro r
      rw [listed?]
      cases r.slot? h <;> rfl
    rw [hkin, hkin, hu.connection]

/-- A packet that is pushed comes to its connection exactly if there is room. -/
theorem undelivered_rxPush_iff (hp : p.Sound) :
    p.Undelivered (p.rxPush c packet).1 ↔ ¬ p.RxRoom c := by
  have hiff : (p.rxPush c packet).2 = .ok () ↔ p.RxRoom c := rxPush_eq_ok_iff
  rw [← hiff]
  obtain ⟨e, he, hmail⟩ | ⟨hok, hopen, hmail⟩ := rxPush_cases hp c packet
  · refine iff_of_true ⟨fun h _ => ?_, listed?_congr (census_rxPush c packet)⟩ (by simp [he])
    rw [hmail.packets_eq]
  · refine iff_of_false (fun hu => ?_) (by simp [hok])
    have hsame := hu.packets c (isOpen_iff.1 hopen).1
    rw [hmail.packets_eq, Function.update_self] at hsame
    simp at hsame

/-- A listener that makes a child has it in its map. -/
theorem listed?_offerChild (hl : p.In h .listen) (hpeer : p.listed? h peer = none)
    (hok : (p.offerChild h peer).2 = .ok c) :
    (p.offerChild h peer).1.listed? h peer = some c := by
  have hlive := (in_iff.1 hl).1
  obtain ⟨e, he⟩ | ⟨children, c', -, hkin, hlook, -⟩ | ⟨child, o, ⟨he, hcensus⟩ | ⟨e, he, -⟩⟩ :=
    offerChild_cases p h peer
  · rw [he] at hok
    cases hok
  · -- it had none
    rw [listed?_of_live hlive, Status.child?, hkin] at hpeer
    cases hpeer.symm.trans hlook
  · obtain rfl : child = c := Except.ok.inj (he.symm.trans hok)
    have hparent := o.status_of_ne o.ne
    have hlive' : (p.offerChild h peer).1.census.Live h := by
      rw [hcensus, Census.Live, hparent.1, hparent.2]
      exact o.live
    rw [listed?_of_live hlive', hcensus, o.child?_parent]
  · rw [he] at hok
    cases hok

/-- Whether anything comes of a packet can be told before. -/
theorem undelivered_deliver_iff (hp : p.Sound) :
    p.Undelivered (p.deliver port peer packet) ↔ ¬ p.Lands port peer := by
  unfold deliver Lands
  cases hf : (p.candidates port).findSome? (p.taker? peer) with
  | none =>
    rw [resolveInbound, hf]
    exact iff_of_true (.refl p) id
  | some taker =>
    cases taker with
    | direct c =>
      rw [resolveInbound_of_direct hf]
      exact undelivered_rxPush_iff hp
    | listener l =>
      obtain ⟨m, -, ht⟩ := List.exists_of_findSome?_eq_some hf
      obtain ⟨rfl, hl⟩ := taker?_eq_listener ht
      rw [resolveInbound_of_listener hf]
      dsimp only
      cases hpeer : p.listed? m.conn peer with
      | some c =>
        rw [offerChild_of_listed hl hpeer]
        exact undelivered_rxPush_iff hp
      | none =>
        cases hanswer : (p.offerChild m.conn peer).2 with
        | error e =>
          -- a child that could not join the backlog is gone again
          exact iff_of_true (offerChild_error hanswer).undelivered
            (by simp [Except.isOk, Except.toBool])
        | ok c =>
          refine iff_of_false (fun hu => ?_) (by simp [Except.isOk, Except.toBool])
          have hsame := hu.children m.conn peer
          dsimp only [Except.map] at hsame
          rw [listed?_congr (census_rxPush c packet), listed?_offerChild hl hpeer hanswer,
            hpeer] at hsame
          cases hsame

/-! ## Who has an event group -/

/-- Whether a connection has its event group, if it is there. -/
def hearing (p : Pool) (h : Handle) : Option Bool := (p.slot? h).map (·.events.isSome)

theorem events_isOk_iff : (p.events h).isOk = true ↔ p.hearing h = some true := by
  unfold hearing
  cases hs : p.slot? h with
  | none =>
    rw [events, slot_of_not_live (not_live_iff.2 hs)]
    exact iff_of_false (by simp [Bind.bind, Except.bind, Except.isOk, Except.toBool]) (by simp)
  | some s => rw [events_isOk hs, Option.map_some, Option.some_inj]

/-- A connection that gave up its event group is told so. -/
theorem events_of_deaf (hno : p.hearing h = some false) : p.events h = .error .destroyed := by
  obtain ⟨s, hs, hnone⟩ := Option.map_eq_some_iff.1 hno
  have hslot : p.slot h = .ok s := slot_eq_ok_iff.2 hs
  rw [Option.isSome_eq_false_iff, Option.isNone_iff_eq_none] at hnone
  rw [events, hslot]
  simp only [Bind.bind, Except.bind, hnone]
  rfl

theorem hearing_of_options {options : Options} (hoptions : p.options h = .ok options) :
    p.hearing h = some (p.events h).isOk := by
  obtain ⟨s, hslot, -⟩ := bind_eq_ok_iff.1 hoptions
  have hs := slot_eq_ok_iff.1 hslot
  rw [hearing, hs, Option.map_some, events_isOk hs]

/-- It can be told from the slot of the connection. -/
theorem hearing_congr (hgen : (q.slotAt h.index).generation = (p.slotAt h.index).generation)
    (hphase : (q.slotAt h.index).phase = (p.slotAt h.index).phase)
    (hsome : (q.slotAt h.index).events.isSome = (p.slotAt h.index).events.isSome) :
    q.hearing h = p.hearing h := by
  have hslot : ∀ (r : Pool) (b : Bool), r.hearing h = some b ↔
      ((r.slotAt h.index).generation = h.generation ∧ (r.slotAt h.index).phase ≠ .free) ∧
        (r.slotAt h.index).events.isSome = b := by
    intro r b
    rw [hearing, Option.map_eq_some_iff]
    constructor
    · rintro ⟨s, hs, rfl⟩
      obtain ⟨rfl, hgen, hphase⟩ := slot?_eq_some_iff_slotAt.1 hs
      exact ⟨⟨hgen, hphase⟩, rfl⟩
    · rintro ⟨⟨hgen, hphase⟩, hsome⟩
      exact ⟨_, slot?_eq_some_iff_slotAt.2 ⟨rfl, hgen, hphase⟩, hsome⟩
  refine Option.ext fun b => ?_
  rw [hslot, hslot, hgen, hphase, hsome]

theorem hearing_modify (slot : Nat) {f : Slot → Slot} (hgen : ∀ s, (f s).generation = s.generation)
    (hphase : ∀ s, (f s).phase = s.phase)
    (hsome : ∀ s, (f s).events.isSome = s.events.isSome) :
    (p.modify slot f).hearing h = p.hearing h :=
  hearing_congr (view_modify (·.generation) slot hgen h.index)
    (view_modify (·.phase) slot hphase h.index)
    (view_modify (·.events.isSome) slot hsome h.index)

theorem hearing_rxPush : (p.rxPush c packet).1.hearing h = p.hearing h := by
  have hqueue : ∀ queue, (p.setQueue c.index queue).hearing h = p.hearing h := fun queue =>
    hearing_modify c.index (fun _ => rfl) (fun _ => rfl) fun _ => rfl
  unfold rxPush
  cases p.inlet c with
  | error e => rfl
  | ok queue =>
    dsimp only
    generalize queue.push packet _ = pushed
    obtain ⟨queue', e | ⟨⟩⟩ := pushed
    · exact hqueue queue'
    · have hsignal : ∀ q : Pool, (q.modify c.index (Slot.signal ConnBits.receive)).hearing h =
          q.hearing h := fun q =>
        hearing_modify c.index (fun _ => rfl) (fun _ => rfl) (Slot.isSome_signal _)
      exact (hsignal _).trans (hqueue queue')

/-- Offering a child concerns no event group but that of the slot that the child gets. -/
theorem hearing_offerChild {parent : Handle} (hl : p.census.Live h) :
    (p.offerChild parent peer).1.hearing h = p.hearing h := by
  have hfree : ∀ i, (p.slotAt i).phase = .free → h.index ≠ i := by
    rintro i hi rfl
    exact hl.2 hi
  obtain ⟨e, he⟩ | ⟨_, _, _, _, -, -, -, -, he⟩ |
    ⟨s, backlog, children, i, t, q, o, -,
      ⟨_, -, he, -, hparent, hothers⟩ | ⟨e, he, -, -, hothers⟩⟩ := offerChild_slots p parent peer
  · rw [he]
  · rw [he]
  · rw [he]
    by_cases hi : h.index = parent.index
    · -- the parent is told of its child
      have hs : p.slotAt h.index = s := by rw [hi, o.slotAt_parent]
      rw [← hi] at hparent
      refine hearing_congr ?_ ?_ ?_ <;> rw [hparent, hs]
      · rfl
      · rfl
      · rw [Slot.isSome_signal]
    · have hsame := hothers h.index (hfree i o.free) hi
      exact hearing_congr (by rw [hsame]) (by rw [hsame]) (by rw [hsame])
  · rw [he]
    have hsame := hothers h.index (hfree i o.free)
    exact hearing_congr (by rw [hsame]) (by rw [hsame]) (by rw [hsame])

/-- A packet that is delivered takes nobody's event group. -/
theorem hearing_deliver (hl : p.census.Live h) :
    (p.deliver port peer packet).hearing h = p.hearing h := by
  have hresolve : (p.resolveInbound port peer).1.hearing h = p.hearing h := by
    obtain he | ⟨conn, he⟩ := resolveInbound_fst p port peer
    · rw [he]
    · rw [he]
      exact hearing_offerChild hl
  unfold deliver
  split <;> rename_i hq <;> rw [hq] at hresolve
  · exact hearing_rxPush.trans hresolve
  · exact hresolve

end Netstack.Pool
