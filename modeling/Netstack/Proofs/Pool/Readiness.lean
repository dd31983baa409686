import Netstack.Proofs.Conn.Bits
import Netstack.Proofs.Pool.Discard
import Netstack.Proofs.Pool.Packets
import Netstack.Proofs.Pool.SlotMoves

/-
The bits of an event group tell what there is to take.

A slot is ready if its receive bit is set whenever there are packets in its queue, its accept
bit whenever a listening connection has children in its backlog, and neither of the two bits
that tell of an end while the connection is active. Bits are set and cleared by many operations
and outlive the connection that they were set for, so this is shown move by move. Two things
carry it: an end drains the queue, so a slot that is not active has no packet to tell of; and
whoever clears a bit has just seen that there is nothing left that it could tell of.
-/

set_option autoImplicit false

namespace Netstack

namespace ConnBits

/-- The bits that tell of the end of a connection. -/
def ended : EventBits := closed ||| interrupt

end ConnBits

namespace Slot

variable {s t : Slot} {mask bits : EventBits} {limits : Limits}

/-- The event group, if there is one, has every bit of a mask. -/
def Shows (s : Slot) (mask : EventBits) : Prop := ∀ g, s.events = some g → g.Has mask

/-- The event group, if there is one, has no bit of a mask. -/
def Hides (s : Slot) (mask : EventBits) : Prop := ∀ g, s.events = some g → g.Lacks mask

theorem events_signal_eq_some {g : EventGroup} (h : (s.signal bits).events = some g) :
    ∃ g₀, s.events = some g₀ ∧ g = g₀.set bits := by
  obtain ⟨g₀, hg₀, hg⟩ := Option.map_eq_some_iff.1 h
  exact ⟨g₀, hg₀, hg.symm⟩

theorem events_unsignal_eq_some {g : EventGroup} (h : (s.unsignal bits).events = some g) :
    ∃ g₀, s.events = some g₀ ∧ g = g₀.clear bits := by
  obtain ⟨g₀, hg₀, hg⟩ := Option.map_eq_some_iff.1 h
  exact ⟨g₀, hg₀, hg.symm⟩

theorem shows_signal_self : (s.signal mask).Shows mask := by
  intro g hg
  obtain ⟨g₀, -, rfl⟩ := events_signal_eq_some hg
  exact EventGroup.has_set_self

theorem Shows.signal (h : s.Shows mask) (bits : EventBits) : (s.signal bits).Shows mask := by
  intro g hg
  obtain ⟨g₀, hg₀, rfl⟩ := events_signal_eq_some hg
  exact (h g₀ hg₀).set bits

theorem Shows.unsignal (h : s.Shows mask) (hbits : bits &&& mask = 0) :
    (s.unsignal bits).Shows mask := by
  intro g hg
  obtain ⟨g₀, hg₀, rfl⟩ := events_unsignal_eq_some hg
  exact (h g₀ hg₀).clear hbits

theorem Hides.signal (h : s.Hides mask) (hbits : bits &&& mask = 0) :
    (s.signal bits).Hides mask := by
  intro g hg
  obtain ⟨g₀, hg₀, rfl⟩ := events_signal_eq_some hg
  exact (h g₀ hg₀).set hbits

theorem hides_unsignal_self : (s.unsignal mask).Hides mask := by
  intro g hg
  obtain ⟨g₀, -, rfl⟩ := events_unsignal_eq_some hg
  exact EventGroup.lacks_clear_self

theorem Hides.unsignal (h : s.Hides mask) (bits : EventBits) : (s.unsignal bits).Hides mask := by
  intro g hg
  obtain ⟨g₀, hg₀, rfl⟩ := events_unsignal_eq_some hg
  exact (h g₀ hg₀).clear bits

theorem hides_or_iff {other : EventBits} :
    s.Hides (mask ||| other) ↔ s.Hides mask ∧ s.Hides other := by
  constructor
  · intro h
    exact ⟨fun g hg => (EventGroup.lacks_or_iff.1 (h g hg)).1,
      fun g hg => (EventGroup.lacks_or_iff.1 (h g hg)).2⟩
  · rintro ⟨h₁, h₂⟩ g hg
    exact EventGroup.lacks_or_iff.2 ⟨h₁ g hg, h₂ g hg⟩

/-! ## What a slot is handed out with -/

/-- A slot is handed out with the queue that it had, or with a new one. -/
theorem prepared_cases (h : s.prepared limits = .ok t) :
    t.phase = .closed ∧ t.role = .client ∧
      t.events = some ((s.events.getD {}).clear ConnBits.all) ∧
      ∃ queue, t.rxQueue = some queue ∧ (s.rxQueue = some queue ∨ queue.Holds []) := by
  unfold prepared at h
  cases hq : s.rxQueue with
  | some queue =>
    rw [hq] at h
    cases h
    exact ⟨rfl, rfl, rfl, queue, rfl, .inl rfl⟩
  | none =>
    rw [hq] at h
    dsimp only at h
    cases hnew : (Fifo.new limits.connQueueLen : Except Error (Fifo Buffer)) with
    | error e =>
      rw [hnew] at h
      cases h
    | ok queue =>
      rw [hnew] at h
      cases h
      exact ⟨rfl, rfl, rfl, queue, rfl, .inr (Fifo.holds_new hnew)⟩

/-! ## Ready slots -/

/-- The packets in the queue are told of. -/
def PacketsShown (s : Slot) : Prop :=
  ∀ queue, s.rxQueue = some queue → ∃ xs, queue.Holds xs ∧
    (xs ≠ [] → s.phase.isActive = true ∧ s.Shows ConnBits.receive)

/-- The children in the backlog are told of. -/
def ChildrenShown (s : Slot) : Prop :=
  ∀ backlog, s.role.backlog? = some backlog → ∃ ys, backlog.Holds ys ∧
    (ys ≠ [] → s.phase = .listen → s.Shows ConnBits.accept)

/-- No end is told of while the connection is active. -/
def EndHidden (s : Slot) : Prop := s.phase.isActive = true → s.Hides ConnBits.ended

/-- The bits tell what there is to take. -/
structure Ready (s : Slot) : Prop where
  packets : s.PacketsShown
  children : s.ChildrenShown
  fresh : s.EndHidden

theorem ready_vacant : vacant.Ready := by
  refine ⟨?_, ?_, ?_⟩
  · rintro queue ⟨⟩
  · rintro backlog ⟨⟩
  · rintro ⟨⟩

theorem PacketsShown.congr (h : s.PacketsShown) (hq : t.rxQueue = s.rxQueue)
    (hp : s.phase.isActive = true → t.phase.isActive = true)
    (hshows : s.Shows ConnBits.receive → t.Shows ConnBits.receive) : t.PacketsShown := by
  intro queue hqueue
  obtain ⟨xs, hxs, hactive⟩ := h queue (hq.symm.trans hqueue)
  refine ⟨xs, hxs, fun hne => ?_⟩
  exact ⟨hp (hactive hne).1, hshows (hactive hne).2⟩

/-- No packets need no bit. -/
theorem packetsShown_of_isEmpty (h : s.IsEmpty) : s.PacketsShown :=
  fun queue hqueue => ⟨[], h queue hqueue, fun hne => absurd rfl hne⟩

theorem ChildrenShown.congr (h : s.ChildrenShown) (hb : t.role.backlog? = s.role.backlog?)
    (hp : t.phase = .listen → s.phase = .listen)
    (hshows : s.Shows ConnBits.accept → t.Shows ConnBits.accept) : t.ChildrenShown := by
  intro backlog hbacklog
  obtain ⟨ys, hys, hlisten⟩ := h backlog (hb.symm.trans hbacklog)
  exact ⟨ys, hys, fun hne hl => hshows (hlisten hne (hp hl))⟩

theorem EndHidden.congr (h : s.EndHidden)
    (hp : t.phase.isActive = true → s.phase.isActive = true)
    (hhides : s.Hides ConnBits.ended → t.Hides ConnBits.ended) : t.EndHidden :=
  fun ha => hhides (h (hp ha))

/-- Nothing that the bits could tell of has changed. -/
theorem Ready.congr (h : s.Ready) (hq : t.rxQueue = s.rxQueue)
    (hb : t.role.backlog? = s.role.backlog?) (hp : t.phase = s.phase)
    (hshows : ∀ mask, s.Shows mask → t.Shows mask)
    (hhides : s.Hides ConnBits.ended → t.Hides ConnBits.ended) : t.Ready := by
  refine ⟨h.packets.congr hq ?_ (hshows _), h.children.congr hb ?_ (hshows _),
    h.fresh.congr ?_ hhides⟩ <;> rw [hp] <;> exact id

/-- A slot that is not active has no packets. -/
theorem Ready.isEmpty (h : s.Ready) (hp : s.phase.isActive = false) : s.IsEmpty := by
  intro queue hq
  obtain ⟨xs, hxs, hactive⟩ := h.packets queue hq
  by_cases hne : xs = []
  · rw [hne] at hxs
    exact hxs
  · rw [(hactive hne).1] at hp
    cases hp

/-- What the announcement of a new phase leaves of the bits. -/
theorem Shows.announced (h : s.Shows mask) {clear : EventBits} (hclear : clear &&& mask = 0)
    (set : EventBits) : (s.announced clear set).Shows mask := (h.unsignal hclear).signal set

theorem hides_announced_self {set : EventBits} (hset : set &&& mask = 0) :
    (s.announced mask set).Hides mask := hides_unsignal_self.signal hset

/-- A slot that is handed out has nothing to tell of. -/
theorem Ready.prepared (h : s.Ready) (hfree : s.phase = .free)
    (hprep : s.prepared limits = .ok t) :
    t.IsEmpty ∧ t.role = .client ∧ t.phase = .closed ∧ t.Hides ConnBits.ended := by
  obtain ⟨hphase, hrole, hevents, queue, hqueue, hfrom⟩ := prepared_cases hprep
  refine ⟨fun queue' hqueue' => ?_, hrole, hphase, fun g hg => ?_⟩
  · obtain rfl := Option.some.inj (hqueue.symm.trans hqueue')
    obtain hold | hnew := hfrom
    · exact h.isEmpty (by rw [hfree]; rfl) _ hold
    · exact hnew
  · obtain rfl := Option.some.inj (hevents.symm.trans hg)
    -- every bit of a connection is cleared, these two among them
    have hall := @EventGroup.lacks_clear_self (s.events.getD {}) ConnBits.all
    unfold EventGroup.Lacks at hall ⊢
    rw [show ConnBits.ended = ConnBits.all &&& ConnBits.ended from rfl, ← UInt32.and_assoc, hall,
      UInt32.zero_and]

theorem ready_of_empty (hq : s.IsEmpty) (hb : s.role.backlog? = none)
    (hhides : s.phase.isActive = true → s.Hides ConnBits.ended) : s.Ready := by
  refine ⟨packetsShown_of_isEmpty hq, ?_, hhides⟩
  intro backlog hbacklog
  rw [hb] at hbacklog
  cases hbacklog

/-- An end drains the queue, which is given up or kept and empty, and no bit has to be set. -/
theorem Ready.ended (h : s.Ready) (limits : Limits) : (s.ended limits).Ready := by
  have hdrained : s.shut.IsEmpty := by
    refine isEmpty_shut fun queue hqueue => ?_
    obtain ⟨xs, hxs, -⟩ := h.packets queue hqueue
    exact ⟨xs, hxs⟩
  have hempty : (s.ended limits).IsEmpty := by
    unfold Slot.ended
    split
    · exact isEmpty_released hdrained
    · exact hdrained
  have hphase : (s.ended limits).phase = .closed := by
    unfold Slot.ended
    split <;> rfl
  refine ⟨packetsShown_of_isEmpty hempty, fun backlog hbacklog => ?_, fun ha => ?_⟩
  · rw [role_ended] at hbacklog
    obtain ⟨ys, hys, -⟩ := h.children backlog hbacklog
    refine ⟨ys, hys, fun _ hlisten => ?_⟩
    rw [hphase] at hlisten
    cases hlisten
  · rw [hphase] at ha
    cases ha

/-- Every move keeps a slot ready. -/
theorem Move.ready (hm : Move limits s t) (h : s.Ready) : t.Ready := by
  cases hm with
  | prepare free prepared =>
    obtain ⟨hempty, hrole, hphase, -⟩ := h.prepared free prepared
    refine ready_of_empty hempty (by rw [hrole]; rfl) fun ha => ?_
    rw [hphase] at ha
    cases ha
  | foster free prepared parent o peer =>
    obtain ⟨hempty, -, -, hhides⟩ := h.prepared free prepared
    exact ready_of_empty hempty rfl fun _ => hhides
  | bind closed o =>
    refine ⟨?_, ?_, fun _ => hides_announced_self (by decide)⟩
    · exact packetsShown_of_isEmpty (h.isEmpty (by rw [closed]; rfl))
    · exact h.children.congr rfl (by rintro ⟨⟩) fun hs => hs.announced (by decide) _
  | connect idle o =>
    refine ⟨?_, ?_, fun _ => hides_announced_self (by decide)⟩
    · refine h.packets.congr rfl (fun _ => rfl) fun hs => ?_
      exact hs.announced (by decide) _
    · exact h.children.congr rfl (by rintro ⟨⟩) fun hs => hs.announced (by decide) _
  | options o => exact h.congr rfl rfl rfl (fun _ => id) id
  | children same => exact h.congr rfl same rfl (fun _ => id) id
  | join role steady more =>
    refine ⟨?_, ?_, ?_⟩
    · exact h.packets.congr rfl id fun hs => hs.signal _
    · intro backlog hbacklog
      obtain rfl := Option.some.inj hbacklog
      obtain ⟨ys, hys, -⟩ := h.children _ (by rw [role]; rfl)
      obtain ⟨ys', hys'⟩ := more ys hys
      exact ⟨ys', hys', fun _ _ => shows_signal_self⟩
    · exact h.fresh.congr id fun hh => hh.signal (by decide)
  | leave role steady less =>
    refine ⟨h.packets.congr rfl id id, ?_, h.fresh.congr id id⟩
    intro backlog hbacklog
    obtain rfl := Option.some.inj hbacklog
    obtain ⟨ys, hys, hlisten⟩ := h.children _ (by rw [role]; rfl)
    obtain ⟨ys', hys', hless⟩ := less ys hys
    exact ⟨ys', hys', fun hne => hlisten fun hnil => hne (hless hnil)⟩
  | deserted role steady empty =>
    refine ⟨?_, ?_, h.fresh.congr id fun hh => hh.unsignal _⟩
    · exact h.packets.congr rfl id fun hs => hs.unsignal (by decide)
    · intro backlog hbacklog
      obtain rfl := Option.some.inj hbacklog
      obtain ⟨ys, hys, -⟩ := h.children _ (by rw [role]; rfl)
      exact ⟨[], empty ys hys, fun hne => absurd rfl hne⟩
  | receive active found steady more =>
    refine ⟨?_, ?_, ?_⟩
    · intro queue hqueue
      obtain rfl := Option.some.inj hqueue
      obtain ⟨xs, hxs, -⟩ := h.packets _ found
      obtain ⟨xs', hxs'⟩ := more xs hxs
      exact ⟨xs', hxs', fun _ => ⟨active, shows_signal_self⟩⟩
    · exact h.children.congr rfl id fun hs => hs.signal _
    · exact h.fresh.congr id fun hh => hh.signal (by decide)
  | take found steady less =>
    refine ⟨?_, h.children.congr rfl id id, h.fresh.congr id id⟩
    intro queue hqueue
    obtain rfl := Option.some.inj hqueue
    obtain ⟨xs, hxs, hactive⟩ := h.packets _ found
    obtain ⟨xs', hxs', hless⟩ := less xs hxs
    exact ⟨xs', hxs', fun hne => hactive fun hnil => hne (hless hnil)⟩
  | miss found steady empty =>
    refine ⟨?_, ?_, h.fresh.congr id fun hh => hh.unsignal _⟩
    · intro queue hqueue
      obtain rfl := Option.some.inj hqueue
      obtain ⟨xs, hxs, -⟩ := h.packets _ found
      exact ⟨[], empty xs hxs, fun hne => absurd rfl hne⟩
    · exact h.children.congr rfl id fun hs => hs.unsignal (by decide)
  | close active => exact h.ended limits
  | vacate closed =>
    exact ready_of_empty (h.isEmpty (by rw [closed]; rfl)) rfl (by rintro ⟨⟩)
  | send => exact h.congr rfl rfl rfl (fun _ hs => hs.signal _) fun hh => hh.signal (by decide)
  | wait found same =>
    refine h.congr rfl rfl rfl (fun mask hs g hg => ?_) fun hh g hg => ?_
    · obtain rfl := Option.some.inj hg
      rw [EventGroup.Has, same]
      exact hs _ found
    · obtain rfl := Option.some.inj hg
      rw [EventGroup.Lacks, same]
      exact hh _ found

/-- A connection that begins to listen has nobody in its backlog yet. -/
theorem Change.ready (hc : Change limits s t) (h : s.Ready) : t.Ready := by
  cases hc with
  | move made => exact made.ready h
  | listen bound empty =>
    refine ⟨?_, ?_, fun _ => ?_⟩
    · refine h.packets.congr rfl (fun _ => rfl) fun hs => ?_
      exact hs.announced (by decide) _
    · intro backlog hbacklog
      obtain rfl := Option.some.inj hbacklog
      exact ⟨[], empty, fun hne => absurd rfl hne⟩
    · exact ((h.fresh (by rw [bound]; rfl)).unsignal 0).signal (by decide)

end Slot

/-! ## Ready pools -/

namespace Pool

variable {p q : Pool} {h : Handle} {i : Nat} {s : Slot} {group : EventGroup} {mask : EventBits}

/-- Every slot is ready. -/
def Ready (p : Pool) : Prop := ∀ i, (p.slotAt i).Ready

theorem ready_new {c : Config} (hnew : new c = .ok p) : p.Ready := by
  intro i
  rw [slotAt_new hnew]
  exact Slot.ready_vacant

theorem Changes.ready (hc : p.Changes q) (hp : p.Ready) : q.Ready :=
  fun i => hc.keeps (fun _ _ made => made.ready) i (hp i)

theorem Shifts.ready (hs : p.Shifts q) (hp : p.Ready) : q.Ready := Changes.ready hs.changes hp

theorem Ready.slot? (hp : p.Ready) (hs : p.slot? h = some s) : s.Ready := by
  have hslot := hp h.index
  rw [(slot?_eq_some_iff_slotAt.1 hs).1] at hslot
  exact hslot

theorem packets_of_slot? (hs : p.slot? h = some s) :
    p.packets h.index = (s.rxQueue.map Fifo.toList).getD [] := by
  rw [packets, inbox_of_slot? hs]

theorem Ready.has_receive (hp : p.Ready) (hs : p.slot? h = some s) (hg : s.events = some group)
    (hne : p.packets h.index ≠ []) : group.Has ConnBits.receive := by
  rw [packets_of_slot? hs] at hne
  cases hq : s.rxQueue with
  | none =>
    rw [hq] at hne
    exact absurd rfl hne
  | some queue =>
    rw [hq] at hne
    obtain ⟨xs, hxs, hshows⟩ := (hp.slot? hs).packets queue hq
    have hlist : queue.toList ≠ [] := hne
    rw [hxs.toList] at hlist
    exact (hshows hlist).2 group hg

theorem Ready.has_accept (hp : p.Ready) (hs : p.slot? h = some s) (hg : s.events = some group)
    (hl : s.phase = .listen) (hne : s.role.pending ≠ []) : group.Has ConnBits.accept := by
  cases hr : s.role with
  | client =>
    rw [hr] at hne
    exact absurd rfl hne
  | child parent =>
    rw [hr] at hne
    exact absurd rfl hne
  | server backlog children =>
    rw [hr] at hne
    obtain ⟨ys, hys, hshows⟩ := (hp.slot? hs).children backlog (by rw [hr]; rfl)
    have hlist : backlog.drain.2 ≠ [] := hne
    rw [hys.drain.1] at hlist
    exact hshows hlist hl group hg

theorem Ready.lacks_ended (hp : p.Ready) (hs : p.slot? h = some s) (hg : s.events = some group)
    (ha : s.phase.isActive = true) : group.Lacks ConnBits.closed ∧ group.Lacks ConnBits.interrupt :=
  EventGroup.lacks_or_iff.1 ((hp.slot? hs).fresh ha group hg)

/-! ## Going to sleep -/

/-- None of the bits of a mask is set that somebody waits for on a slot. -/
def Settled (p : Pool) (i : Nat) (mask : EventBits) : Prop := (p.slotAt i).Hides mask

theorem role_sleep (p : Pool) (i j : Nat) : ((p.sleep i).slotAt j).role = (p.slotAt j).role := by
  refine view_modify Slot.role i (fun s => ?_) j
  rfl

theorem bits_sleep (p : Pool) (i j : Nat) :
    ((p.sleep i).slotAt j).events.map (·.bits) = (p.slotAt j).events.map (·.bits) := by
  refine view_modify (fun s => s.events.map (·.bits)) i (fun s => ?_) j
  cases s.events <;> rfl

theorem Settled.sleep (hp : p.Settled i mask) : (p.sleep i).Settled i mask := by
  intro g hg
  have hbits := bits_sleep p i i
  rw [hg] at hbits
  obtain ⟨g₀, hg₀, hsame⟩ := Option.map_eq_some_iff.1 hbits.symm
  have hlacks := hp g₀ hg₀
  unfold EventGroup.Lacks at hlacks ⊢
  rw [hsame] at hlacks
  exact hlacks

theorem lookPacket_eq_none (hlook : p.lookPacket h = (q, .ok none)) :
    ∃ s queue queue', p.slot? h = some s ∧ s.rxQueue = some queue ∧ s.phase.isActive = true ∧
      queue.take = (queue', .ok none) ∧
      q = p.modify h.index fun s =>
        { s with rxQueue := some queue' }.unsignal ConnBits.receive := by
  unfold lookPacket at hlook
  obtain ⟨-, hs⟩ | ⟨s, hs?, hs, -, -⟩ := slot_cases p h
  · rw [hs] at hlook
    cases hlook
  rw [hs] at hlook
  dsimp only at hlook
  cases hrx : s.rxQueue with
  | none =>
    rw [hrx] at hlook
    cases hlook
  | some queue =>
    rw [hrx] at hlook
    cases hev : s.events with
    | none =>
      rw [hev] at hlook
      cases hlook
    | some g =>
      rw [hev] at hlook
      dsimp only at hlook
      split at hlook
      · cases hlook
      · cases hlook
      · next queue' htake =>
        split at hlook
        · next ha =>
          cases hlook
          refine ⟨s, queue, queue', hs?, hrx, ha, htake, ?_⟩
          rw [setQueue, modify_modify]
          rfl
        · cases hlook

/-- A pop that goes to sleep has found nothing, and none of the bits that it waits for is set. -/
theorem Ready.beginPop_parked (hp : p.Ready) {call : Call}
    (hpark : p.beginPop h true = (q, .parked call)) :
    p.packets h.index = [] ∧ q.packets h.index = [] ∧ q.Settled h.index packetBits := by
  unfold beginPop at hpark
  split at hpark
  · cases hpark
  · cases hpark
  · next q₀ hlook =>
    rw [if_pos rfl] at hpark
    cases hpark
    obtain ⟨s, queue, queue', hs, hrx, ha, htake, rfl⟩ := lookPacket_eq_none hlook
    have hready := hp.slot? hs
    obtain ⟨xs, hxs, -⟩ := hready.packets queue hrx
    obtain ⟨-, he⟩ | ⟨-, rfl, he⟩ | ⟨_, _, _, -, he, -⟩ := hxs.take_cases <;> rw [htake] at he <;>
      cases he
    have hafter : (p.modify h.index fun s =>
        { s with rxQueue := some queue }.unsignal ConnBits.receive).slotAt h.index =
        { s with rxQueue := some queue }.unsignal ConnBits.receive := by
      rw [slotAt_modify (index_lt_of_slot? hs), (slot?_eq_some_iff_slotAt.1 hs).1]
    refine ⟨?_, ?_, Settled.sleep ?_⟩
    · rw [packets_of_slot? hs, hrx]
      exact hxs.toList
    · rw [packets, (sameInboxes_sleep h.index).inbox_eq, inbox, hafter]
      exact hxs.toList
    · rw [Settled, hafter]
      refine Slot.hides_or_iff.2 ⟨Slot.hides_unsignal_self, ?_⟩
      exact (Slot.hides_or_iff.1 (hready.fresh ha)).1.unsignal _

theorem lookChild_eq_none (hlook : p.lookChild h = (q, .ok none)) :
    ∃ s backlog backlog' children, p.slot? h = some s ∧ s.role = .server backlog children ∧
      s.phase = .listen ∧ p.nextPending h backlog.ring.length backlog = (backlog', none) ∧
      q = p.modify h.index fun s =>
        { s with role := s.role.withBacklog backlog' }.unsignal ConnBits.accept := by
  unfold lookChild at hlook
  obtain ⟨-, hs⟩ | ⟨s, hs?, hs, -, -⟩ := slot_cases p h
  · rw [hs] at hlook
    cases hlook
  rw [hs] at hlook
  dsimp only at hlook
  split at hlook
  · next backlog children hrole hlisten =>
    cases hev : s.events with
    | none =>
      rw [hev] at hlook
      cases hlook
    | some g =>
      rw [hev] at hlook
      dsimp only at hlook
      cases hnext : p.nextPending h backlog.ring.length backlog with
      | mk backlog' child =>
        rw [hnext] at hlook
        cases child with
        | some c => cases hlook
        | none =>
          cases hlook
          refine ⟨s, backlog, backlog', children, hs?, hrole, hlisten, hnext, ?_⟩
          dsimp only
          rw [modify_modify]
          rfl
  · cases hlook

/-- An accept that goes to sleep has found no child in the backlog that still is one, has left
nothing there, and none of the bits that it waits for is set. -/
theorem Ready.beginAccept_parked (hp : p.Ready) (hs : p.slot? h = some s) {call : Call}
    (hpark : p.beginAccept h true = (q, .parked call)) :
    (∀ c ∈ s.role.pending, p.isPendingChild h c = false) ∧
      (q.slotAt h.index).role.pending = [] ∧ q.Settled h.index childBits := by
  unfold beginAccept at hpark
  split at hpark
  · cases hpark
  · cases hpark
  · next q₀ hlook =>
    rw [if_pos rfl] at hpark
    cases hpark
    obtain ⟨s', backlog, backlog', children, hs', hrole, hlisten, hnext, rfl⟩ :=
      lookChild_eq_none hlook
    obtain rfl := Option.some.inj (hs.symm.trans hs')
    obtain ⟨ys, hys, -⟩ := (hp.slot? hs).children backlog (by rw [hrole]; rfl)
    have hempty := empty_of_nextPending hnext ys hys
    rw [hys.length] at hnext
    obtain ⟨taken, rest, rfl, hrest, hfound, -⟩ := nextPending_cases (p := p) hys h
    rw [hnext] at hrest hfound
    -- the search went through the whole backlog
    obtain rfl : rest = [] := hrest.toList.symm.trans hempty.toList
    have hafter : (p.modify h.index fun s =>
        { s with role := s.role.withBacklog backlog' }.unsignal ConnBits.accept).slotAt h.index =
        { s with role := .server backlog' children }.unsignal ConnBits.accept := by
      rw [slotAt_modify (index_lt_of_slot? hs), (slot?_eq_some_iff_slotAt.1 hs).1, hrole]
      rfl
    refine ⟨fun c hc => ?_, ?_, Settled.sleep ?_⟩
    · rw [hrole] at hc
      have hmem : c ∈ backlog.drain.2 := hc
      rw [hys.drain.1, List.append_nil] at hmem
      cases hchild : p.isPendingChild h c with
      | false => rfl
      | true => cases hfound c hmem hchild
    · rw [role_sleep, hafter]
      exact hempty.drain.1
    · rw [Settled, hafter]
      refine Slot.hides_or_iff.2 ⟨Slot.hides_unsignal_self, ?_⟩
      have hfresh := (hp.slot? hs).fresh (by rw [hlisten]; rfl)
      exact (Slot.hides_or_iff.1 hfresh).1.unsignal _

/-- Somebody who leaves the bits got up, and the slot is the same but for the gate. -/
theorem wakeBits_cases (hs : p.slot? h = some s) (hg : s.events = some group) (mask : EventBits) :
    ∃ g q, p.Shifts q ∧ q.slot? h = some { s with events := some g } ∧ q.census = p.census ∧
      ((∃ bits, p.wakeBits h.index (watching mask) = (q, some bits)) ∨
        (p.wakeBits h.index (watching mask) = (q, none) ∧ group.Lacks mask ∧
          q.Settled h.index mask)) := by
  have hev : (p.slotAt h.index).events = some group := by
    rw [(slot?_eq_some_iff_slotAt.1 hs).1, hg]
  -- whatever gate it is, the slot has it
  have hset : ∀ gate, p.Shifts (p.setEvents h.index { group with gate := gate }) ∧
      (p.setEvents h.index { group with gate := gate }).slot? h =
        some { s with events := some { group with gate := gate } } := by
    intro gate
    exact ⟨shifts_setEvents hev rfl, slot?_modify hs rfl (slot?_eq_some_iff.1 hs).2.2⟩
  unfold wakeBits
  rw [hev]
  dsimp only
  unfold EventGroup.wakeWait
  dsimp only
  by_cases hsat : EventGroup.satisfies { group with gate := group.gate.take } (watching mask) = true
  · rw [if_pos hsat]
    exact ⟨_, _, (hset _).1, (hset _).2, census_setEvents _ _, .inl ⟨_, rfl⟩⟩
  · rw [if_neg hsat]
    have hlacks : group.Lacks mask := by
      by_contra hsome
      exact hsat ((EventGroup.satisfies_iff rfl).2 hsome)
    refine ⟨_, _, (hset _).1, (hset _).2, census_setEvents _ _, .inr ⟨rfl, hlacks, ?_⟩⟩
    rw [Settled, (slot?_eq_some_iff_slotAt.1 (hset _).2).1]
    intro g' hg'
    obtain rfl := Option.some.inj hg'
    exact hlacks

/-- The same holds of a pop that is got up and goes to sleep again. -/
theorem Ready.wakePop_parked (hp : p.Ready) (hs : p.slot? h = some s)
    (hg : s.events = some group) {call : Call} (hpark : p.wake (.pop h) = (q, .parked call)) :
    p.packets h.index = [] ∧ q.packets h.index = [] ∧ q.Settled h.index packetBits := by
  obtain ⟨g', r, hshifts, hr, -, ⟨bits, hwake⟩ | ⟨hwake, hlacks, hsettled⟩⟩ :=
    wakeBits_cases hs hg packetBits
  all_goals
    have hsame : r.packets h.index = p.packets h.index := by
      rw [packets_of_slot? hr, packets_of_slot? hs]
    unfold wake at hpark
    dsimp only at hpark
    rw [hwake] at hpark
  · rw [← hsame]
    exact (hshifts.ready hp).beginPop_parked hpark
  · cases hpark
    -- with a packet in the queue the receive bit would be set
    have hempty : p.packets h.index = [] := by
      by_contra hne
      exact (hp.has_receive hs hg hne).not_lacks (by decide) (EventGroup.lacks_or_iff.1 hlacks).1
    exact ⟨hempty, hsame.trans hempty, hsettled⟩

/-- And of an accept on a connection that listens. -/
theorem Ready.wakeAccept_parked (hp : p.Ready) (hs : p.slot? h = some s)
    (hg : s.events = some group) (hlisten : s.phase = .listen) {call : Call}
    (hpark : p.wake (.accept h) = (q, .parked call)) :
    (∀ c ∈ s.role.pending, p.isPendingChild h c = false) ∧
      (q.slotAt h.index).role.pending = [] ∧ q.Settled h.index childBits := by
  obtain ⟨g', r, hshifts, hr, hcensus, ⟨bits, hwake⟩ | ⟨hwake, hlacks, hsettled⟩⟩ :=
    wakeBits_cases hs hg childBits
  all_goals
    unfold wake at hpark
    dsimp only at hpark
    rw [hwake] at hpark
  · obtain ⟨hchildren, hq⟩ := (hshifts.ready hp).beginAccept_parked hr hpark
    refine ⟨fun c hc => ?_, hq⟩
    -- who is a child can be told from the census
    rw [← isPendingChild_congr hcensus]
    exact hchildren c hc
  · cases hpark
    -- with a child in the backlog the accept bit would be set
    have hempty : s.role.pending = [] := by
      by_contra hne
      exact (hp.has_accept hs hg hlisten hne).not_lacks (by decide)
        (EventGroup.lacks_or_iff.1 hlacks).1
    refine ⟨fun c hc => ?_, ?_, hsettled⟩
    · rw [hempty] at hc
      cases hc
    · rw [(slot?_eq_some_iff_slotAt.1 hr).1]
      exact hempty

/-! ## Whoever waits on a connection -/

/-- The bits of a connection tell what there is to take, and so whoever waits for it sleeps only
when there is nothing, and gets up when there is something. -/
structure Attends (p : Pool) (h : Handle) (s : Slot) (group : EventGroup) : Prop where
  /-- queued packets are told of -/
  packets : p.packets h.index ≠ [] → group.Has ConnBits.receive
  /-- so are the children in the backlog of a connection that listens -/
  children : s.phase = .listen → s.role.pending ≠ [] → group.Has ConnBits.accept
  /-- no bit is left over from an earlier end -/
  active : s.phase.isActive = true → group.Lacks ConnBits.closed ∧ group.Lacks ConnBits.interrupt
  /-- a pop that sleeps can be resumed when there are packets -/
  popReady : p.packets h.index ≠ [] → p.ready (.pop h) = true
  acceptReady : s.phase = .listen → s.role.pending ≠ [] → p.ready (.accept h) = true
  /-- a pop that goes to sleep, or goes to sleep again, leaves no packet behind and no bit that
  would get it up at once -/
  popSleeps : ∀ q call, p.beginPop h true = (q, .parked call) ∨
    p.wake (.pop h) = (q, .parked call) →
      p.packets h.index = [] ∧ q.packets h.index = [] ∧ q.Settled h.index packetBits
  acceptSleeps : s.phase = .listen → ∀ q call, p.beginAccept h true = (q, .parked call) ∨
    p.wake (.accept h) = (q, .parked call) →
      (∀ c ∈ s.role.pending, p.isPendingChild h c = false) ∧
        (q.slotAt h.index).role.pending = [] ∧ q.Settled h.index childBits

theorem bitsReady_of_has (hs : p.slot? h = some s) (hg : s.events = some group)
    {bit other : EventBits} (hhas : group.Has bit) (hbit : bit ≠ 0) :
    p.bitsReady h.index (watching (bit ||| other)) = true := by
  unfold bitsReady
  rw [(slot?_eq_some_iff_slotAt.1 hs).1, hg]
  dsimp only
  rw [Bool.or_eq_true]
  right
  refine (EventGroup.satisfies_iff rfl).2 fun hlacks => ?_
  exact hhas.not_lacks hbit (EventGroup.lacks_or_iff.1 hlacks).1

theorem Ready.attends (hp : p.Ready) (hs : p.slot? h = some s) (hg : s.events = some group) :
    p.Attends h s group where
  packets := hp.has_receive hs hg
  children := hp.has_accept hs hg
  active := hp.lacks_ended hs hg
  popReady := fun hne => bitsReady_of_has hs hg (hp.has_receive hs hg hne) (by decide)
  acceptReady := fun hl hne => bitsReady_of_has hs hg (hp.has_accept hs hg hl hne) (by decide)
  popSleeps := by
    rintro q call (hpark | hpark)
    · exact hp.beginPop_parked hpark
    · exact hp.wakePop_parked hs hg hpark
  acceptSleeps := by
    rintro hl q call (hpark | hpark)
    · exact hp.beginAccept_parked hs hpark
    · exact hp.wakeAccept_parked hs hg hl hpark

end Pool

end Netstack
