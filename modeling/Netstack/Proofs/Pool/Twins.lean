import Netstack.Proofs.Conn.Bits
import Netstack.Proofs.Pool.Run
import Netstack.Proofs.Pool.Slots
import Netstack.Proofs.Queue.Refinement

/-
Two pools that differ in what they do with the resources of closed connections.

One keeps the receive queue and the event group with the slot, the other gives them up when
the connection is closed and makes new ones when the slot is handed out again. `Twins` is
the relation between the two: slot by slot the same connection, with the same packets in its
queue if it has one. What the second pool lacks is told by the event group of the first: a
connection that has ended since it was handed out or opened has the closed bit set there,
and has neither queue nor event group here.

Operations keep the relation and answer alike. The exception is to open a connection again
that has ended: the second pool has nothing to announce it on.
-/

set_option autoImplicit false

namespace Netstack

namespace EventGroup

/-- Whether the closed bit of a connection is set. -/
def hasEnded (g : EventGroup) : Bool := g.bits &&& ConnBits.closed != 0

theorem hasEnded_set {g : EventGroup} {bits : EventBits} (h : bits &&& ConnBits.closed = 0) :
    (g.set bits).hasEnded = g.hasEnded := by
  rw [hasEnded, hasEnded, and_set, h, UInt32.or_zero]

theorem hasEnded_set_of_closed {g : EventGroup} {bits : EventBits}
    (h : bits &&& ConnBits.closed = ConnBits.closed) : (g.set bits).hasEnded = true := by
  rw [hasEnded, bne_iff_ne, and_set, h]
  intro hzero
  have hor := congrArg UInt32.toBitVec hzero
  rw [UInt32.toBitVec_or] at hor
  have hclosed := (BitVec.or_eq_zero_iff.1 hor).2
  exact absurd hclosed (by decide)

theorem hasEnded_clear {g : EventGroup} (bits : EventBits) (h : g.hasEnded = false) :
    (g.clear bits).hasEnded = false := by
  rw [hasEnded, bne_eq_false_iff_eq] at h ⊢
  rw [and_clear, h, UInt32.zero_and]

theorem hasEnded_clear_of_closed {g : EventGroup} {bits : EventBits}
    (h : ~~~bits &&& ConnBits.closed = 0) : (g.clear bits).hasEnded = false := by
  rw [hasEnded, bne_eq_false_iff_eq, clear, UInt32.and_assoc, h, UInt32.and_zero]

end EventGroup

/-! ## Slots -/

namespace Slot

/-- Whether a connection has ended and was not opened since. -/
def hasEnded (s : Slot) : Bool :=
  match s.events with
  | some group => group.hasEnded
  | none => false

theorem hasEnded_of_events {s : Slot} {g : EventGroup} (h : s.events = some g) :
    s.hasEnded = g.hasEnded := by
  rw [hasEnded, h]

/-- A slot without its receive queue and its event group. -/
def bare (s : Slot) : Slot := { s with rxQueue := none, events := none }

end Slot

/-- The packets in the queue of a slot, on which nobody waits. A slot without a queue has
none. -/
def Stocks (capacity : Nat) (queue : Option (Fifo Buffer)) (xs : List Buffer) : Prop :=
  match queue with
  | some q => q.Represents { capacity := capacity, items := xs }
  | none => xs = []

namespace Slot

/-- The slots of a connection in a pool that keeps its resources and in one that gives them
up. -/
structure Twin (capacity : Nat) (k r : Slot) : Prop where
  bare : k.bare = r.bare
  packets : ∃ xs, Stocks capacity k.rxQueue xs ∧ Stocks capacity r.rxQueue xs ∧
    (k.phase.isActive = false → xs = [])
  /-- a queue can be made if one was -/
  room : k.rxQueue.isSome ∨ r.rxQueue.isSome →
    ∃ q, (Fifo.new capacity : Except Error (Fifo Buffer)) = .ok q
  equipped : k.phase ≠ .free → k.rxQueue.isSome ∧ k.events.isSome
  given : k.phase ≠ .free → k.hasEnded = false → r.rxQueue.isSome ∧ r.events.isSome
  gone : k.phase ≠ .free → k.hasEnded = true →
    k.phase = .closed ∧ r.rxQueue = none ∧ r.events = none
  idle : ∀ group, r.events = some group → group.waiters = 0

namespace Twin

variable {capacity : Nat} {k r : Slot}

theorem generation (t : Twin capacity k r) : k.generation = r.generation :=
  congrArg (·.generation) t.bare

theorem phase (t : Twin capacity k r) : k.phase = r.phase := congrArg (·.phase) t.bare

theorem role (t : Twin capacity k r) : k.role = r.role := congrArg (·.role) t.bare

theorem options (t : Twin capacity k r) : k.options = r.options := congrArg (·.options) t.bare

theorem registered (t : Twin capacity k r) : k.registered = r.registered :=
  congrArg (·.registered) t.bare

theorem peer (t : Twin capacity k r) : k.peer = r.peer := by
  rw [Slot.peer, Slot.peer, t.options]

/-- An active connection has not ended. -/
theorem hasEnded (t : Twin capacity k r) (ha : k.phase.isActive = true) : k.hasEnded = false := by
  cases he : k.hasEnded with
  | false => rfl
  | true =>
    have hfree : k.phase ≠ .free := by
      intro hp
      rw [hp] at ha
      cases ha
    rw [(t.gone hfree he).1] at ha
    cases ha

/-- A slot changes in something that is neither queue nor event group. If it changes its
phase as well, it is opened, and has not ended. -/
theorem alter {f : Slot → Slot} (t : Twin capacity k r) (hbare : (f k).bare = (f r).bare)
    (hqueue : ∀ s, (f s).rxQueue = s.rxQueue) (hevents : ∀ s, (f s).events = s.events)
    (hphase : (f k).phase = k.phase ∨
      (f k).phase.isActive = true ∧ k.phase ≠ .free ∧ k.hasEnded = false) :
    Twin capacity (f k) (f r) := by
  have hended : (f k).hasEnded = k.hasEnded := by rw [Slot.hasEnded, Slot.hasEnded, hevents]
  have hlive : (f k).phase ≠ .free → k.phase ≠ .free := by
    obtain hp | ⟨-, hp, -⟩ := hphase
    · rw [hp]
      exact id
    · exact fun _ => hp
  obtain ⟨xs, hk, hr, hxs⟩ := t.packets
  refine ⟨hbare, ⟨xs, ?_, ?_, ?_⟩, ?_, ?_, ?_, ?_, ?_⟩
  · rw [hqueue]
    exact hk
  · rw [hqueue]
    exact hr
  · obtain hp | ⟨hp, -, -⟩ := hphase
    · rw [hp]
      exact hxs
    · rw [hp]
      rintro ⟨⟩
  · rw [hqueue, hqueue]
    exact t.room
  · intro hp
    rw [hqueue, hevents]
    exact t.equipped (hlive hp)
  · intro hp he
    rw [hended] at he
    rw [hqueue, hevents]
    exact t.given (hlive hp) he
  · intro hp he
    rw [hended] at he
    rw [hqueue, hevents]
    obtain hsame | ⟨-, -, hno⟩ := hphase
    · rw [hsame]
      exact t.gone (hlive hp) he
    · rw [hno] at he
      cases he
  · rw [hevents]
    exact t.idle

/-- Event bits change, and the closed bit stays as it is. -/
theorem onEvents {f : EventGroup → EventGroup} (t : Twin capacity k r)
    (hended : ∀ g, k.events = some g → (f g).hasEnded = g.hasEnded)
    (hwaiters : ∀ g, (f g).waiters = g.waiters) :
    Twin capacity { k with events := k.events.map f } { r with events := r.events.map f } := by
  have hsame : ({ k with events := k.events.map f } : Slot).hasEnded = k.hasEnded := by
    unfold Slot.hasEnded
    dsimp only
    cases he : k.events with
    | none => rfl
    | some g => exact hended g he
  refine ⟨t.bare, t.packets, t.room, ?_, ?_, ?_, ?_⟩
  · intro hp
    rw [Option.isSome_map]
    exact t.equipped hp
  · intro hp he
    rw [hsame] at he
    rw [Option.isSome_map]
    exact t.given hp he
  · intro hp he
    rw [hsame] at he
    obtain ⟨hc, hq, hg⟩ := t.gone hp he
    exact ⟨hc, hq, by rw [hg]; rfl⟩
  · intro group hg
    obtain ⟨g, hr, rfl⟩ := Option.map_eq_some_iff.1 hg
    rw [hwaiters]
    exact t.idle g hr

theorem signal {bits : EventBits} (t : Twin capacity k r) (h : bits &&& ConnBits.closed = 0) :
    Twin capacity (k.signal bits) (r.signal bits) :=
  t.onEvents (fun _ _ => EventGroup.hasEnded_set h) (fun _ => rfl)

theorem unsignal (bits : EventBits) (t : Twin capacity k r) (h : k.hasEnded = false) :
    Twin capacity (k.unsignal bits) (r.unsignal bits) := by
  refine t.onEvents (fun g hg => ?_) (fun _ => rfl)
  rw [Slot.hasEnded_of_events hg] at h
  rw [h]
  exact EventGroup.hasEnded_clear bits h

/-- Both queues change in the same way. -/
theorem setQueue {qk qr : Fifo Buffer} {xs : List Buffer} (t : Twin capacity k r)
    (ha : k.phase.isActive = true) (hk : qk.Represents { capacity := capacity, items := xs })
    (hr : qr.Represents { capacity := capacity, items := xs }) :
    Twin capacity { k with rxQueue := some qk } { r with rxQueue := some qr } := by
  have hlive : k.phase ≠ .free := by
    intro hp
    rw [hp] at ha
    cases ha
  have hno := t.hasEnded ha
  refine ⟨t.bare, ⟨xs, hk, hr, ?_⟩, fun _ => t.room (.inl (t.equipped hlive).1), ?_, ?_, ?_, t.idle⟩
  · intro hoff
    rw [ha] at hoff
    cases hoff
  · exact fun hp => ⟨rfl, (t.equipped hp).2⟩
  · exact fun hp he => ⟨rfl, (t.given hp he).2⟩
  · intro hp he
    rw [show ({ k with rxQueue := some qk } : Slot).hasEnded = k.hasEnded from rfl, hno] at he
    cases he

theorem stocks_drain {queue : Option (Fifo Buffer)} {xs : List Buffer}
    (h : Stocks capacity queue xs) :
    Stocks capacity (queue.map fun q => (Fifo.drain q).1) [] := by
  cases queue with
  | none => rfl
  | some q => exact (Fifo.Represents.drain h).2

/-- A connection is closed: one pool drains its queue and sets the closed bit, and the other
gives up both. -/
theorem ended {limits limits' : Limits} (t : Twin capacity k r) (ha : k.phase.isActive = true)
    (hkeep : limits.releaseOnClose = false) (hrel : limits'.releaseOnClose = true) :
    Twin capacity (k.ended limits) (r.ended limits') := by
  have hlive : k.phase ≠ .free := by
    intro hp
    rw [hp] at ha
    cases ha
  have hkept : k.ended limits = k.shut := by rw [Slot.ended, hkeep, if_neg (by simp)]
  have hgone : r.ended limits' = r.shut.released := by rw [Slot.ended, hrel, if_pos rfl]
  obtain ⟨xs, hk, hr, -⟩ := t.packets
  obtain ⟨hkq, hke⟩ := t.equipped hlive
  obtain ⟨hrq, hre⟩ := t.given hlive (t.hasEnded ha)
  obtain ⟨gk, hgk⟩ := Option.isSome_iff_exists.1 hke
  obtain ⟨gr, hgr⟩ := Option.isSome_iff_exists.1 hre
  obtain ⟨qr, hqr⟩ := Option.isSome_iff_exists.1 hrq
  -- nobody waits, so queue and event group are given up
  have hqueue : r.shut.released.rxQueue = none := by
    rw [hqr] at hr
    have hdestroy := (Fifo.Represents.destroy (Fifo.Represents.drain hr).2).1
    have hok : (Queue.destroy (Fifo.drain qr).1).2 = .ok 0 := hdestroy
    have hpair : Queue.destroy (Fifo.drain qr).1 =
        ((Queue.destroy (Fifo.drain qr).1).1, .ok 0) := Prod.ext rfl hok
    simp only [released, shut, Slot.signal, hqr, Option.map_some, Option.bind_some]
    rw [hpair]
  have hevents : r.shut.released.events = none := by
    have hidle : (gr.set (ConnBits.closed ||| ConnBits.interrupt)).waiters = 0 := t.idle gr hgr
    simp only [released, shut, Slot.signal, hgr, Option.map_some, Option.bind_some,
      EventGroup.ensureIdle, hidle, Nat.lt_irrefl, if_false]
  have hset : k.shut.hasEnded = true := by
    have hshut : k.shut.events = some (gk.set (ConnBits.closed ||| ConnBits.interrupt)) := by
      simp only [shut, Slot.signal, hgk, Option.map_some]
    rw [Slot.hasEnded_of_events hshut]
    exact EventGroup.hasEnded_set_of_closed (by decide)
  rw [hkept, hgone]
  have hbare : k.shut.bare = r.shut.released.bare := congrArg
    (fun s : Slot => { s with phase := .closed, registered := false }) t.bare
  refine ⟨hbare, ⟨[], stocks_drain hk, ?_, fun _ => rfl⟩, ?_, ?_, ?_, ?_, ?_⟩
  · rw [hqueue]
    rfl
  · exact fun _ => t.room (.inl hkq)
  · intro _
    simp only [shut, Slot.signal, Option.isSome_map]
    exact ⟨hkq, hke⟩
  · intro _ he
    rw [hset] at he
    cases he
  · exact fun _ _ => ⟨rfl, hqueue, hevents⟩
  · intro group hg
    rw [hevents] at hg
    cases hg

/-- A closed connection gives its slot back. -/
theorem vacated (t : Twin capacity k r) (hc : k.phase = .closed) :
    Twin capacity k.vacated r.vacated := by
  obtain ⟨xs, hk, hr, hxs⟩ := t.packets
  have hbare : k.vacated.bare = r.vacated.bare := congrArg Slot.vacated t.bare
  refine ⟨hbare, ⟨[], ?_, ?_, fun _ => rfl⟩, t.room, ?_, ?_, ?_, t.idle⟩
  · rw [← hxs (by rw [hc]; rfl)]
    exact hk
  · rw [← hxs (by rw [hc]; rfl)]
    exact hr
  · exact fun hp => absurd rfl hp
  · exact fun hp => absurd rfl hp
  · exact fun hp => absurd rfl hp

/-- The slot as it is handed out, with this queue. -/
def outfitted (s : Slot) (queue : Fifo Buffer) : Slot :=
  { s with
    phase := .closed
    role := .client
    options := {}
    registered := false
    opened := false
    rxQueue := some queue
    events := some ((s.events.getD {}).clear ConnBits.all) }

/-- A queue that a slot has is kept when the slot is handed out, and stands for the same list
as one that is made. -/
theorem prepared_of_stocks {limits : Limits} {s : Slot} {q : Fifo Buffer}
    (hs : Stocks limits.connQueueLen s.rxQueue [])
    (hnew : (Fifo.new limits.connQueueLen : Except Error (Fifo Buffer)) = .ok q) :
    ∃ queue, s.prepared limits = .ok (outfitted s queue) ∧
      queue.Represents { capacity := limits.connQueueLen } := by
  unfold prepared
  cases hq : s.rxQueue with
  | some queue =>
    rw [hq] at hs
    exact ⟨queue, rfl, hs⟩
  | none =>
    dsimp only
    rw [hnew]
    exact ⟨q, rfl, Fifo.represents_new hnew⟩

/-- A free slot is handed out: either no queue can be made, or both slots have everything. -/
theorem prepared {limits limits' : Limits} (t : Twin limits.connQueueLen k r)
    (hfree : k.phase = .free) (hlen : limits'.connQueueLen = limits.connQueueLen) :
    (∃ e, k.prepared limits = .error e ∧ r.prepared limits' = .error e) ∨
    ∃ k' r', k.prepared limits = .ok k' ∧ r.prepared limits' = .ok r' ∧
      Twin limits.connQueueLen k' r' ∧ k'.phase = .closed ∧ k'.hasEnded = false := by
  obtain ⟨xs, hk, hr, hxs⟩ := t.packets
  rw [hxs (by rw [hfree]; rfl)] at hk hr
  cases hnew : (Fifo.new limits.connQueueLen : Except Error (Fifo Buffer)) with
  | error e =>
    left
    -- then neither slot ever had one
    have hnone : k.rxQueue = none ∧ r.rxQueue = none := by
      have hno : ¬ (k.rxQueue.isSome ∨ r.rxQueue.isSome) := by
        intro hsome
        obtain ⟨q, hq⟩ := t.room hsome
        rw [hnew] at hq
        cases hq
      rw [not_or, Option.not_isSome_iff_eq_none, Option.not_isSome_iff_eq_none] at hno
      exact hno
    refine ⟨e, ?_, ?_⟩
    · rw [Slot.prepared, hnone.1, hnew]
      rfl
    · rw [Slot.prepared, hnone.2, hlen, hnew]
      rfl
  | ok q =>
    right
    obtain ⟨qk, hpk, hqk⟩ := prepared_of_stocks hk hnew
    rw [← hlen] at hr hnew
    obtain ⟨qr, hpr, hqr⟩ := prepared_of_stocks hr hnew
    rw [hlen] at hqr hnew
    have hno : (outfitted k qk).hasEnded = false :=
      EventGroup.hasEnded_clear_of_closed (by decide)
    have hbare : (outfitted k qk).bare = (outfitted r qr).bare := congrArg
      (fun s : Slot => { s with
        phase := .closed, role := .client, options := {}, registered := false, opened := false })
      t.bare
    refine ⟨_, _, hpk, hpr, ?_, rfl, hno⟩
    refine ⟨hbare, ⟨[], hqk, hqr, fun _ => rfl⟩, fun _ => ⟨q, hnew⟩, fun _ => ⟨rfl, rfl⟩,
      fun _ _ => ⟨rfl, rfl⟩, ?_, ?_⟩
    · intro _ he
      rw [hno] at he
      cases he
    · intro group hg
      obtain rfl := Option.some.inj hg
      cases hev : r.events with
      | none => rfl
      | some g => exact t.idle g hev

/-- A connection just handed out becomes a child. -/
theorem makeChild (t : Twin capacity k r) (hclosed : k.phase = .closed)
    (hno : k.hasEnded = false) (parent : Handle) (o : Options) (peer : Peer) :
    Twin capacity (Pool.makeChild parent o peer k) (Pool.makeChild parent o peer r) := by
  refine t.alter ?_ (fun _ => rfl) (fun _ => rfl) (.inr ⟨rfl, ?_, hno⟩)
  · exact congrArg (Pool.makeChild parent o peer) t.bare
  · rw [hclosed]
    simp

end Twin

end Slot

/-! ## Pools -/

namespace Pool

/-- A pool that keeps the resources of closed connections, and one that gives them up. -/
structure Twins (k r : Pool) : Prop where
  size : k.slots.size = r.slots.size
  ports : k.ports = r.ports
  slot : ∀ i, Slot.Twin k.limits.connQueueLen (k.slotAt i) (r.slotAt i)
  connQueueLen : r.limits.connQueueLen = k.limits.connQueueLen
  queueTimeout : r.limits.queueTimeout = k.limits.queueTimeout
  keeps : k.limits.releaseOnClose = false
  releases : r.limits.releaseOnClose = true

variable {k r : Pool} {h : Handle}

theorem Twins.emit (t : Twins k r) (event event' : ConnEvent) :
    Twins (k.emit event) (r.emit event') :=
  ⟨t.size, t.ports, t.slot, t.connQueueLen, t.queueTimeout, t.keeps, t.releases⟩

theorem Twins.withPorts (t : Twins k r) (ports : PortTable) :
    Twins { k with ports := ports } { r with ports := ports } :=
  ⟨t.size, rfl, t.slot, t.connQueueLen, t.queueTimeout, t.keeps, t.releases⟩

theorem Twins.modify {i : Nat} {f g : Slot → Slot} (t : Twins k r)
    (hslot : Slot.Twin k.limits.connQueueLen (f (k.slotAt i)) (g (r.slotAt i))) :
    Twins (k.modify i f) (r.modify i g) := by
  refine ⟨?_, t.ports, fun j => ?_, t.connQueueLen, t.queueTimeout, t.keeps, t.releases⟩
  · rw [size_modify, size_modify, t.size]
  · show Slot.Twin k.limits.connQueueLen ((k.modify i f).slotAt j) ((r.modify i g).slotAt j)
    by_cases hj : i = j
    · subst hj
      by_cases hi : i < k.slots.size
      · rw [slotAt_modify hi, slotAt_modify (t.size ▸ hi)]
        exact hslot
      · -- out of range nothing is changed
        have hk : (k.modify i f).slotAt i = k.slotAt i := by
          rw [slotAt_of_size_le (by rw [size_modify]; omega), slotAt_of_size_le (by omega)]
        have hr : (r.modify i g).slotAt i = r.slotAt i := by
          rw [slotAt_of_size_le (by rw [size_modify, ← t.size]; omega),
            slotAt_of_size_le (by rw [← t.size]; omega)]
        rw [hk, hr]
        exact t.slot i
    · rw [slotAt_modify_of_ne hj, slotAt_modify_of_ne hj]
      exact t.slot j

theorem Twins.slot_cases (t : Twins k r) (h : Handle) :
    (k.slot? h = none ∧ r.slot? h = none ∧ k.slot h = .error .staleHandle ∧
      r.slot h = .error .staleHandle) ∨
    ∃ s u, k.slot? h = some s ∧ r.slot? h = some u ∧ k.slot h = .ok s ∧ r.slot h = .ok u ∧
      k.slotAt h.index = s ∧ r.slotAt h.index = u ∧ s.phase ≠ .free ∧
      Slot.Twin k.limits.connQueueLen s u := by
  have htwin := t.slot h.index
  cases hs : k.slot? h with
  | none =>
    left
    have hn : r.slot? h = none := by
      apply not_live_iff.1
      rintro ⟨hg, hp⟩
      apply not_live_iff.2 hs
      rw [status_census] at hg hp
      exact ⟨htwin.generation.trans hg, fun hf => hp (htwin.phase.symm.trans hf)⟩
    exact ⟨rfl, hn, by rw [Pool.slot, hs], by rw [Pool.slot, hn]⟩
  | some s =>
    right
    obtain ⟨hat, hg, hp⟩ := slot?_eq_some_iff_slotAt.1 hs
    rw [hat] at htwin
    have hu : r.slot? h = some (r.slotAt h.index) :=
      slot?_eq_some_iff_slotAt.2 ⟨rfl, htwin.generation.symm.trans hg,
        fun hf => hp (htwin.phase.trans hf)⟩
    exact ⟨s, _, rfl, hu, slot_eq_ok_iff.2 hs, slot_eq_ok_iff.2 hu, hat, rfl, hp, htwin⟩

end Pool

end Netstack
