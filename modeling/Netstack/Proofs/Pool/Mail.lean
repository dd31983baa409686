import Netstack.Proofs.Pool.Run
import Netstack.Proofs.Pool.Stores
import Netstack.Proofs.Queue.Fifo

/-
What the receive queues of a pool hold, and how packets come and go.

`p.Mail m` says that the packets in the queue of slot `i` are `m i`, for every slot. A packet
that is accepted goes behind the others, a packet that is popped is the first, and a flush
leaves none. Whether a call that waits finds its connection as it left it is not asked here:
a push that slept goes into the queue of the slot, whoever has the slot by then.
-/

set_option autoImplicit false

namespace Netstack

namespace Pool

variable {p q : Pool} {h : Handle} {i j : Nat} {m : Nat → List Buffer} {xs : List Buffer}

/-- The receive queue in a slot. -/
def inbox (p : Pool) (i : Nat) : Option (Fifo Buffer) := (p.slotAt i).rxQueue

/-- The packets in a slot. A slot without a queue has none. -/
def Carries (p : Pool) (i : Nat) (xs : List Buffer) : Prop :=
  match p.inbox i with
  | some queue => queue.Holds xs
  | none => xs = []

/-- The packets in every slot. -/
def Mail (p : Pool) (m : Nat → List Buffer) : Prop := ∀ i, p.Carries i (m i)

theorem carries_of_inbox_eq (he : q.inbox i = p.inbox i) (hc : p.Carries i xs) :
    q.Carries i xs := by
  unfold Carries
  rw [he]
  exact hc

theorem Carries.holds {queue : Fifo Buffer} (hc : p.Carries i xs) (hi : p.inbox i = some queue) :
    queue.Holds xs := by
  unfold Carries at hc
  rw [hi] at hc
  exact hc

theorem carries_of_holds {queue : Fifo Buffer} (hi : p.inbox i = some queue)
    (hq : queue.Holds xs) : p.Carries i xs := by
  unfold Carries
  rw [hi]
  exact hq

theorem lt_size_of_inbox {queue : Fifo Buffer} (hi : p.inbox i = some queue) :
    i < p.slots.size := by
  by_contra hlt
  rw [inbox, slotAt_of_size_le (Nat.le_of_not_lt hlt)] at hi
  cases hi

/-! ## Operations that touch no queue -/

/-- No queue is another one than before. -/
structure SameInboxes (p q : Pool) : Prop where
  inbox_eq : ∀ i, q.inbox i = p.inbox i

theorem SameInboxes.refl (p : Pool) : p.SameInboxes p := ⟨fun _ => rfl⟩

theorem SameInboxes.trans {r : Pool} (h₁ : p.SameInboxes q) (h₂ : q.SameInboxes r) :
    p.SameInboxes r := ⟨fun i => (h₂.inbox_eq i).trans (h₁.inbox_eq i)⟩

theorem SameInboxes.mail (hs : p.SameInboxes q) (hm : p.Mail m) : q.Mail m :=
  fun i => carries_of_inbox_eq (hs.inbox_eq i) (hm i)

theorem inbox_modify {f : Slot → Slot} (hi : i < p.slots.size) :
    (p.modify i f).inbox i = (f (p.slotAt i)).rxQueue := by
  rw [inbox, slotAt_modify hi]

theorem inbox_modify_of_ne {f : Slot → Slot} (hij : i ≠ j) :
    (p.modify i f).inbox j = p.inbox j := by
  rw [inbox, slotAt_modify_of_ne hij]
  rfl

theorem SameStores.inboxes (hs : p.SameStores q) : p.SameInboxes q := ⟨hs.rxQueue⟩

theorem sameInboxes_modify (i : Nat) {f : Slot → Slot} (hf : ∀ s, (f s).rxQueue = s.rxQueue) :
    p.SameInboxes (p.modify i f) := ⟨view_modify Slot.rxQueue i hf⟩

theorem sameInboxes_emit (event : ConnEvent) : p.SameInboxes (p.emit event) :=
  ⟨fun _ => rfl⟩

theorem sameInboxes_listen (h : Handle) (backlog : Nat) :
    p.SameInboxes (p.listen h backlog).1 := by
  unfold listen
  split
  · exact .refl _
  · split
    · exact .refl _
    · split
      · exact .refl _
      · split
        · exact .refl _
        · next t _ =>
          refine SameInboxes.trans ?_ (sameStores_announce _ _ _ _).inboxes
          refine (sameStores_withPorts t).inboxes.trans ?_
          exact sameInboxes_modify _ fun _ => rfl

theorem sameInboxes_lookChild (h : Handle) : p.SameInboxes (p.lookChild h).1 := by
  unfold lookChild
  split
  · exact .refl _
  · split
    · split
      · exact .refl _
      · dsimp only
        split
        · exact sameInboxes_modify _ fun _ => rfl
        · refine SameInboxes.trans ?_ (sameInboxes_modify _ fun _ => rfl)
          exact sameInboxes_modify _ fun _ => rfl
    · exact .refl _

theorem sameInboxes_accept (h : Handle) (timeout : Timeout) :
    p.SameInboxes (p.accept h timeout).1 := by
  rw [accept_fst]
  exact sameInboxes_lookChild h

theorem sameInboxes_sleep (i : Nat) : p.SameInboxes (p.sleep i) :=
  sameInboxes_modify _ fun _ => rfl

theorem sameInboxes_rise (i : Nat) : p.SameInboxes (p.rise i) :=
  sameInboxes_modify _ fun _ => rfl

theorem sameInboxes_setEvents (i : Nat) (g : EventGroup) : p.SameInboxes (p.setEvents i g) :=
  sameInboxes_modify _ fun _ => rfl

theorem sameInboxes_beginAccept (h : Handle) (waits : Bool) :
    p.SameInboxes (p.beginAccept h waits).1 := by
  have hl := sameInboxes_lookChild (p := p) h
  obtain he | he := beginAccept_fst p h waits
  · rw [he]
    exact hl
  · rw [he]
    exact hl.trans (sameInboxes_sleep _)

theorem sameInboxes_wakeBits (i : Nat) (call : EventGroup.Call) :
    p.SameInboxes (p.wakeBits i call).1 := by
  unfold wakeBits
  split
  · exact .refl _
  · split <;> exact sameInboxes_setEvents _ _

theorem sameInboxes_wake_accept (h : Handle) : p.SameInboxes (p.wake (.accept h)).1 := by
  have hbits := sameInboxes_wakeBits (p := p) h.index (watching childBits)
  unfold wake
  dsimp only
  split <;> rename_i hq <;> rw [hq] at hbits
  · exact hbits.trans (sameInboxes_beginAccept _ _)
  · exact hbits

theorem sameInboxes_wake_bits (i : Nat) (call : EventGroup.Call) :
    p.SameInboxes (p.wake (.bits i call)).1 := by
  have hbits := sameInboxes_wakeBits (p := p) i call
  unfold wake
  dsimp only
  split <;> rename_i hq <;> rw [hq] at hbits <;> exact hbits

theorem sameInboxes_expire_accept (h : Handle) : p.SameInboxes (p.expire (.accept h)).1 := by
  rw [expire_accept_fst]
  exact (sameInboxes_rise h.index).trans (sameInboxes_lookChild h)

theorem sameInboxes_expire_bits (i : Nat) (call : EventGroup.Call) :
    p.SameInboxes (p.expire (.bits i call)).1 := by
  unfold expire
  dsimp only
  split
  · exact .refl _
  · exact sameInboxes_setEvents _ _

/-! ## Packets come and go -/

/-- The packets of one slot change. -/
theorem Mail.setQueue {queue queue' : Fifo Buffer} (hm : p.Mail m) (hi : p.inbox i = some queue)
    (hq : queue'.Holds xs) : (p.setQueue i queue').Mail (Function.update m i xs) := by
  intro j
  by_cases hij : j = i
  · subst hij
    rw [Function.update_self]
    refine carries_of_holds ?_ hq
    rw [Pool.setQueue, inbox_modify (lt_size_of_inbox hi)]
  · rw [Function.update_of_ne hij]
    exact carries_of_inbox_eq (inbox_modify_of_ne (Ne.symm hij)) (hm j)

/-- A queue is put back with the packets that it had. -/
theorem Mail.setQueue_same {queue queue' : Fifo Buffer} (hm : p.Mail m)
    (hi : p.inbox i = some queue) (hq : queue'.Holds (m i)) : (p.setQueue i queue').Mail m := by
  -- the packets of the slot are changed into themselves
  have h := hm.setQueue hi hq
  rw [Function.update_eq_self] at h
  exact h

theorem inbox_of_slot? {s : Slot} (hs : p.slot? h = some s) : p.inbox h.index = s.rxQueue := by
  rw [inbox, (slot?_eq_some_iff_slotAt.1 hs).1]

/-- A queue that can be looked up is the one in the slot. -/
theorem inbox_of_rxQueue {queue : Fifo Buffer} (hq : p.rxQueue h = .ok queue) :
    p.inbox h.index = some queue := by
  unfold rxQueue at hq
  obtain ⟨s, hs, hq⟩ := bind_eq_ok_iff.1 hq
  rw [inbox_of_slot? (slot_eq_ok_iff.1 hs)]
  cases hrx : s.rxQueue with
  | none =>
    rw [hrx] at hq
    cases hq
  | some queue' =>
    rw [hrx] at hq
    exact congrArg some (Except.ok.inj hq)

/-- Whether a handle names a connection that is active. -/
def isOpen (p : Pool) (h : Handle) : Bool :=
  match p.slot? h with
  | some s => s.phase.isActive
  | none => false

theorem isOpen_iff : p.isOpen h = true ↔
    p.census.Live h ∧ (p.census.status h.index).phase.isActive = true := by
  unfold isOpen
  cases hs : p.slot? h with
  | none =>
    constructor
    · rintro ⟨⟩
    · rintro ⟨hl, -⟩
      exact absurd hl (not_live_iff.2 hs)
  | some s =>
    rw [status_of_slot? hs]
    exact ⟨fun ha => ⟨live_of_slot? hs, ha⟩, fun ha => ha.2⟩

/-- A slot has one active connection. -/
theorem eq_of_isOpen {h' : Handle} (ho : p.isOpen h = true) (ho' : p.isOpen h' = true)
    (hindex : h.index = h'.index) : h = h' := by
  have hgen := (isOpen_iff.1 ho).1.1
  have hgen' := (isOpen_iff.1 ho').1.1
  rw [hindex, hgen'] at hgen
  cases h
  cases h'
  simp_all

theorem inlet_eq_ok {queue : Fifo Buffer} (hq : p.inlet h = .ok queue) :
    p.isOpen h = true ∧ p.inbox h.index = some queue := by
  unfold inlet at hq
  obtain ⟨-, hs⟩ | ⟨s, hs?, hs, -, -⟩ := slot_cases p h
  · rw [hs] at hq
    cases hq
  · rw [hs] at hq
    change (if (!s.phase.isActive) = true then _ else _) = _ at hq
    rw [inbox_of_slot? hs?, isOpen, hs?]
    dsimp only
    by_cases ha : s.phase.isActive = true
    · rw [if_neg (by rw [ha]; simp)] at hq
      refine ⟨ha, ?_⟩
      split at hq
      · next queue' group hrx hev =>
        cases hq
        exact hrx
      · cases hq
    · rw [if_pos (by rw [Bool.not_eq_true] at ha; rw [ha]; rfl)] at hq
      cases hq

theorem Mail.afterPush (hm : p.Mail m) (h : Handle) (result : Except (Rejected Buffer) Unit) :
    (p.afterPush h result).Mail m := by
  unfold Pool.afterPush
  split
  · refine SameInboxes.mail ?_ hm
    exact sameInboxes_modify _ fun _ => rfl
  · exact (sameInboxes_emit _).mail hm

theorem rxPush_cases (hm : p.Mail m) (h : Handle) (packet : Buffer) :
    (∃ e, (p.rxPush h packet).2 = .error e ∧ (p.rxPush h packet).1.Mail m) ∨
    ((p.rxPush h packet).2 = .ok () ∧ p.isOpen h = true ∧
      (p.rxPush h packet).1.Mail (Function.update m h.index (m h.index ++ [packet]))) := by
  unfold rxPush
  cases hin : p.inlet h with
  | error e => exact .inl ⟨_, rfl, hm⟩
  | ok queue =>
    obtain ⟨hopen, hi⟩ := inlet_eq_ok hin
    have hq := (hm h.index).holds hi
    dsimp only
    obtain ⟨-, hp⟩ | ⟨-, -, q', hp, hq'⟩ | ⟨-, -, q', hp, hq'⟩ :=
      hq.push_cases packet (some p.limits.queueTimeout)
    · rw [hp]
      exact .inl ⟨_, rfl, (hm.setQueue_same hi hq).afterPush _ _⟩
    · rw [hp]
      exact .inl ⟨_, rfl, (hm.setQueue_same hi hq').afterPush _ _⟩
    · rw [hp]
      exact .inr ⟨rfl, hopen, (hm.setQueue hi hq').afterPush _ _⟩

theorem beginPush_cases (hm : p.Mail m) (h : Handle) (packet : Buffer) :
    (∃ e q, p.beginPush h packet = (q, .done (.pushed (.error e))) ∧ q.Mail m) ∨
    (∃ q, p.beginPush h packet = (q, .parked (.push h packet)) ∧ q.Mail m) ∨
    ∃ q, p.beginPush h packet = (q, .done (.pushed (.ok ()))) ∧ p.isOpen h = true ∧
      q.Mail (Function.update m h.index (m h.index ++ [packet])) := by
  unfold beginPush
  cases hin : p.inlet h with
  | error e => exact .inl ⟨_, _, rfl, hm⟩
  | ok queue =>
    obtain ⟨hopen, hi⟩ := inlet_eq_ok hin
    have hq := (hm h.index).holds hi
    dsimp only
    obtain ⟨-, hp⟩ | ⟨-, -, ⟨-, hp⟩ | ⟨-, q', hp, hq', -⟩⟩ | ⟨-, -, q', hp, hq'⟩ :=
      hq.beginPush_cases packet (Timeout.waits (some p.limits.queueTimeout))
    · rw [hp]
      exact .inl ⟨_, _, rfl, (hm.setQueue_same hi hq).afterPush _ _⟩
    · rw [hp]
      exact .inl ⟨_, _, rfl, (hm.setQueue_same hi hq).afterPush _ _⟩
    · rw [hp]
      exact .inr (.inl ⟨_, rfl, hm.setQueue_same hi hq'⟩)
    · rw [hp]
      exact .inr (.inr ⟨_, rfl, hopen, (hm.setQueue hi hq').afterPush _ _⟩)

theorem wake_push_cases (hm : p.Mail m) (h : Handle) (packet : Buffer) :
    (∃ e q, p.wake (.push h packet) = (q, .done (.pushed (.error e))) ∧ q.Mail m) ∨
    (∃ q, p.wake (.push h packet) = (q, .parked (.push h packet)) ∧ q.Mail m) ∨
    ∃ q, p.wake (.push h packet) = (q, .done (.pushed (.ok ()))) ∧
      q.Mail (Function.update m h.index (m h.index ++ [packet])) := by
  unfold wake
  dsimp only
  cases hi : (p.slotAt h.index).rxQueue with
  | none => exact .inl ⟨_, _, rfl, hm⟩
  | some queue =>
    dsimp only
    obtain ⟨q', hp, hq'⟩ | ⟨q', hp, hq'⟩ | ⟨q', hp, hq'⟩ :=
      ((hm h.index).holds hi).wakePush_cases packet
    · rw [hp]
      exact .inl ⟨_, _, rfl, (hm.setQueue_same hi hq').afterPush _ _⟩
    · rw [hp]
      exact .inr (.inl ⟨_, rfl, hm.setQueue_same hi hq'⟩)
    · rw [hp]
      exact .inr (.inr ⟨_, rfl, (hm.setQueue hi hq').afterPush _ _⟩)

theorem expire_push_cases (hm : p.Mail m) (h : Handle) (packet : Buffer) :
    (∃ e q, p.expire (.push h packet) = (q, .pushed (.error e)) ∧ q.Mail m) ∨
    ∃ q, p.expire (.push h packet) = (q, .pushed (.ok ())) ∧
      q.Mail (Function.update m h.index (m h.index ++ [packet])) := by
  unfold expire
  dsimp only
  cases hi : (p.slotAt h.index).rxQueue with
  | none => exact .inl ⟨_, _, rfl, hm⟩
  | some queue =>
    dsimp only
    obtain ⟨-, q', hp, hq'⟩ | ⟨-, -, q', hp, hq'⟩ | ⟨-, -, q', hp, hq'⟩ :=
      ((hm h.index).holds hi).expirePush_cases packet
    · rw [hp]
      exact .inl ⟨_, _, rfl, (hm.setQueue_same hi hq').afterPush _ _⟩
    · rw [hp]
      exact .inl ⟨_, _, rfl, (hm.setQueue_same hi hq').afterPush _ _⟩
    · rw [hp]
      exact .inr ⟨_, rfl, (hm.setQueue hi hq').afterPush _ _⟩

/-- A look for a packet takes the first one or leaves everything. -/
theorem lookPacket_cases (hm : p.Mail m) (h : Handle) :
    (∃ e q, p.lookPacket h = (q, .error e) ∧ q.Mail m) ∨
    (∃ q, p.lookPacket h = (q, .ok none) ∧ q.Mail m) ∨
    ∃ packet rest q, p.lookPacket h = (q, .ok (some packet)) ∧ p.census.Live h ∧
      m h.index = packet :: rest ∧ q.Mail (Function.update m h.index rest) := by
  unfold lookPacket
  obtain ⟨-, hs⟩ | ⟨s, hs?, hs, hl, -⟩ := slot_cases p h
  · rw [hs]
    exact .inl ⟨_, _, rfl, hm⟩
  · rw [hs]
    dsimp only
    split
    · next queue group hrx hev =>
      have hi : p.inbox h.index = some queue := (inbox_of_slot? hs?).trans hrx
      have hq := (hm h.index).holds hi
      obtain ⟨-, ht⟩ | ⟨-, -, ht⟩ | ⟨x, ys, q', heq, ht, hq'⟩ := hq.take_cases
      · rw [ht]
        exact .inl ⟨_, _, rfl, hm.setQueue_same hi hq⟩
      · -- nothing there: the receive bit is taken back
        rw [ht]
        dsimp only
        have hm' : ((p.setQueue h.index queue).modify h.index
            (Slot.unsignal ConnBits.receive)).Mail m := by
          refine SameInboxes.mail ?_ (hm.setQueue_same hi hq)
          exact sameInboxes_modify _ fun _ => rfl
        split
        · exact .inr (.inl ⟨_, rfl, hm'⟩)
        · exact .inl ⟨_, _, rfl, hm'⟩
      · rw [ht]
        exact .inr (.inr ⟨x, ys, _, rfl, hl, heq, hm.setQueue hi hq'⟩)
    · exact .inl ⟨_, _, rfl, hm⟩

theorem rxPop_cases (hm : p.Mail m) (h : Handle) (timeout : Timeout) :
    (∃ e, (p.rxPop h timeout).2 = .error e ∧ (p.rxPop h timeout).1.Mail m) ∨
    ∃ packet rest, (p.rxPop h timeout).2 = .ok packet ∧ p.census.Live h ∧
      m h.index = packet :: rest ∧ (p.rxPop h timeout).1.Mail (Function.update m h.index rest) := by
  unfold rxPop
  obtain ⟨e, q, hq, hq'⟩ | ⟨q, hq, hq'⟩ | ⟨packet, rest, q, hq, hl, heq, hq'⟩ :=
    lookPacket_cases hm h
  · rw [hq]
    exact .inl ⟨_, rfl, hq'⟩
  · rw [hq]
    exact .inl ⟨_, rfl, hq'⟩
  · rw [hq]
    exact .inr ⟨packet, rest, rfl, hl, heq, hq'⟩

theorem beginPop_cases (hm : p.Mail m) (h : Handle) :
    (∃ e q, p.beginPop h true = (q, .done (.popped (.error e))) ∧ q.Mail m) ∨
    (∃ q, p.beginPop h true = (q, .parked (.pop h)) ∧ q.Mail m) ∨
    ∃ packet rest q, p.beginPop h true = (q, .done (.popped (.ok packet))) ∧ p.census.Live h ∧
      m h.index = packet :: rest ∧ q.Mail (Function.update m h.index rest) := by
  unfold beginPop
  obtain ⟨e, q, hq, hq'⟩ | ⟨q, hq, hq'⟩ | ⟨packet, rest, q, hq, hl, heq, hq'⟩ :=
    lookPacket_cases hm h
  · rw [hq]
    exact .inl ⟨_, _, rfl, hq'⟩
  · rw [hq]
    exact .inr (.inl ⟨_, rfl, (sameInboxes_sleep _).mail hq'⟩)
  · rw [hq]
    exact .inr (.inr ⟨packet, rest, _, rfl, hl, heq, hq'⟩)

theorem wake_pop_cases (hm : p.Mail m) (h : Handle) :
    (∃ e q, p.wake (.pop h) = (q, .done (.popped (.error e))) ∧ q.Mail m) ∨
    (∃ q, p.wake (.pop h) = (q, .parked (.pop h)) ∧ q.Mail m) ∨
    ∃ packet rest q, p.wake (.pop h) = (q, .done (.popped (.ok packet))) ∧ p.census.Live h ∧
      m h.index = packet :: rest ∧ q.Mail (Function.update m h.index rest) := by
  have hbits := (sameInboxes_wakeBits (p := p) h.index (watching packetBits)).mail hm
  have hcensus := census_wakeBits (p := p) h.index (watching packetBits)
  unfold wake
  dsimp only
  split <;> rename_i hq <;> rw [hq] at hbits hcensus
  · -- the bits are set, and the call looks at the connection from the start
    have h := beginPop_cases hbits h
    rw [hcensus] at h
    exact h
  · exact .inr (.inl ⟨_, rfl, hbits⟩)

theorem expire_pop_cases (hm : p.Mail m) (h : Handle) :
    (∃ e q, p.expire (.pop h) = (q, .popped (.error e)) ∧ q.Mail m) ∨
    ∃ packet rest q, p.expire (.pop h) = (q, .popped (.ok packet)) ∧ p.census.Live h ∧
      m h.index = packet :: rest ∧ q.Mail (Function.update m h.index rest) := by
  -- the caller gets up from behind the gate before it looks
  have hrise := (sameInboxes_rise (p := p) h.index).mail hm
  have hcensus := census_rise (p := p) h.index
  unfold expire
  dsimp only
  obtain ⟨e, q, hq, hq'⟩ | ⟨q, hq, hq'⟩ | ⟨packet, rest, q, hq, hl, heq, hq'⟩ :=
    lookPacket_cases hrise h
  · rw [hq]
    exact .inl ⟨_, _, rfl, hq'⟩
  · rw [hq]
    exact .inl ⟨_, _, rfl, hq'⟩
  · rw [hq]
    rw [hcensus] at hl
    exact .inr ⟨packet, rest, _, rfl, hl, heq, hq'⟩

/-- A flush leaves no packet. -/
theorem rxFlush_cases (hm : p.Mail m) (h : Handle) :
    (∃ e, (p.rxFlush h).2 = .error e ∧ (p.rxFlush h).1.Mail m) ∨
    ((p.rxFlush h).2 = .ok (m h.index).length ∧
      (p.rxFlush h).1.Mail (Function.update m h.index [])) := by
  unfold rxFlush onQueue
  cases hrx : p.rxQueue h with
  | error e => exact .inl ⟨_, rfl, hm⟩
  | ok queue =>
    have hi := inbox_of_rxQueue hrx
    obtain ⟨hitems, hempty⟩ := ((hm h.index).holds hi).drain
    right
    dsimp only
    rw [hitems]
    exact ⟨rfl, hm.setQueue hi hempty⟩

end Pool

end Netstack
