import Netstack.Proofs.Pool.Handles
import Netstack.Proofs.Pool.Ports
import Netstack.Proofs.Pool.Slots

/-
What an operation that fails has changed.

Operations that hand out, change or end connections check everything first, and most of
them fail there, with the pool as it was. Two things can go wrong later. A child that finds
no room in the backlog has been made already; it is freed again, and then every slot but its
own is as it was, and its own is free as before. And `bind`, `listen` and `connect` announce
themselves on the event group of the connection at the very end: if the group was given up,
they fail with `destroyed` after the connection has changed its phase and joined its port.
-/

set_option autoImplicit false

namespace Netstack

/-- What a connection is, apart from who waits on it and which of its events are set. -/
structure Portrait where
  /-- generation, phase, kin, options and whether it is registered -/
  status : Status
  /-- the children that nobody has accepted -/
  backlog : List Handle
  /-- the packets in its receive queue -/
  packets : Option (List Buffer)

def Slot.portrait (s : Slot) : Portrait :=
  { status := s.status
    backlog := s.role.pending
    packets := s.rxQueue.map Fifo.toList }

namespace Pool

/-- The same connections are live, each of them is what it was, and every port has the same
members and is open or closed as before. -/
structure Unchanged (p q : Pool) : Prop where
  connection : ∀ h, (q.slot? h).map Slot.portrait = (p.slot? h).map Slot.portrait
  ports : q.ports = p.ports

theorem Unchanged.refl (p : Pool) : p.Unchanged p := ⟨fun _ => rfl, rfl⟩

/-- Whether an operation hands out, changes or ends connections. -/
def Op.isControl : Op → Bool
  | alloc | bind _ _ | listen _ _ | connect _ _ | offerChild _ _ | setPriority _ _ | close _
  | free _ => true
  | _ => false

/-- Whether an operation announces itself on the event group of its connection. -/
def Op.announces : Op → Bool
  | bind _ _ | listen _ _ | connect _ _ => true
  | _ => false

variable {p q : Pool} {h : Handle} {e : Error}

/-- A connection that has changed its phase is not what it was. -/
theorem not_unchanged_of_phase (hl : p.census.Live h)
    (hp : (q.census.status h.index).phase ≠ (p.census.status h.index).phase) :
    ¬ p.Unchanged q := by
  rintro ⟨hconn, -⟩
  obtain ⟨s, hs⟩ := live_iff.1 hl
  have hsame := hconn h
  rw [hs, Option.map_some, Option.map_eq_some_iff] at hsame
  obtain ⟨t, ht, heq⟩ := hsame
  have hstatus : t.status = s.status := congrArg Portrait.status heq
  rw [status_of_slot? hs, status_of_slot? ht, hstatus] at hp
  exact hp rfl

/-- All slots but a free one are as they were, and that one is free still. -/
theorem unchanged_of_slots {i : Nat} (hports : q.ports = p.ports)
    (hp : (p.slotAt i).phase = .free) (hq : (q.slotAt i).phase = .free)
    (hslots : ∀ j, j ≠ i → q.slotAt j = p.slotAt j) : p.Unchanged q := by
  refine ⟨fun h => ?_, hports⟩
  have hsame : q.slot? h = p.slot? h := by
    by_cases hi : h.index = i
    · -- neither before nor after is there a connection
      have hnone : ∀ r : Pool, (r.slotAt i).phase = .free → r.slot? h = none := by
        intro r hr
        apply not_live_iff.1
        rintro ⟨-, hlive⟩
        rw [hi] at hlive
        exact hlive hr
      rw [hnone q hq, hnone p hp]
    · apply Option.ext
      intro s
      rw [slot?_eq_some_iff_slotAt, slot?_eq_some_iff_slotAt, hslots _ hi]
  rw [hsame]

/-- What others see of a slot that is changed. -/
theorem census_modify_self {i : Nat} (hi : i < p.slots.size) {f : Slot → Slot}
    {g : Status → Status} (hf : (f (p.slotAt i)).status = g (p.slotAt i).status) :
    (p.modify i f).census.status i = g (p.census.status i) := by
  rw [census_modify hi hf, Census.status_alter_self]

/-! ## Operations that announce themselves -/

/-- Fails before it has changed anything, or when it announces itself and there is no event
group: then the connection has changed its phase. -/
def FailsLate (p : Pool) (h : Handle) (r : Pool × Except Error Unit) : Prop :=
  ∀ e, r.2 = .error e →
    (e ≠ .destroyed ∧ r.1 = p) ∨
    (e = .destroyed ∧ p.census.Live h ∧
      (r.1.census.status h.index).phase ≠ (p.census.status h.index).phase)

theorem failsLate_of_error (he : e ≠ .destroyed) : p.FailsLate h (p, .error e) := by
  intro e' heq
  obtain rfl := Except.error.inj heq
  exact .inl ⟨he, rfl⟩

/-- The change has been made, to a connection in another phase, and is announced. -/
theorem failsLate_announce {clear set : EventBits} {event : ConnEvent} {status : Status}
    (hl : p.census.Live h) (hq : q.census.status h.index = status)
    (hg : status.generation = h.generation) (hfree : status.phase ≠ .free)
    (hp : status.phase ≠ (p.census.status h.index).phase) :
    p.FailsLate h (q.announce h clear set event) := by
  intro e he
  refine .inr ⟨?_, hl, ?_⟩
  · have hlive : q.census.Live h := by
      rw [Census.Live, hq]
      exact ⟨hg, hfree⟩
    obtain ⟨s, hs⟩ := live_iff.1 hlive
    cases hev : s.events with
    | none =>
      rw [announce_of_no_events hs hev] at he
      exact (Except.error.inj he).symm
    | some group =>
      rw [announce_of_events hs hev] at he
      cases he
  · rw [census_announce, hq]
    exact hp

theorem staleHandle_ne : Error.staleHandle ≠ .destroyed := by simp

theorem refusal_ne (phase : Phase) : phase.refusal ≠ .destroyed := by simp [Phase.refusal]

end Pool

namespace PortTable

variable {t : PortTable} {slot : UInt8} {e : Error}

theorem index_ne (h : index slot = .error e) : e ≠ .destroyed := by
  unfold index at h
  split at h <;> cases h
  simp

theorem checkBind_ne (h : t.checkBind slot = .error e) : e ≠ .destroyed := by
  unfold checkBind at h
  cases hs : Port.slotFor slot with
  | error e' =>
    rw [hs] at h
    obtain rfl := Except.error.inj h
    unfold Port.slotFor at hs
    split at hs
    · cases hs
    · split at hs <;> cases hs
      simp
  | ok port =>
    rw [hs] at h
    dsimp only [bind, Except.bind] at h
    split at h
    · next hi =>
      obtain rfl := Except.error.inj h
      exact index_ne hi
    · split at h <;> cases h
      simp

theorem listen_ne {conn : Handle} {priority : UInt8} (h : t.listen slot conn priority = .error e) :
    e ≠ .destroyed := by
  unfold listen at h
  cases hi : index slot with
  | error e' =>
    rw [hi] at h
    obtain rfl := Except.error.inj h
    exact index_ne hi
  | ok i =>
    rw [hi] at h
    dsimp only [bind, Except.bind] at h
    split at h <;> cases h
    simp

theorem insert_ne {conn : Handle} {priority : UInt8} (h : t.insert slot conn priority = .error e) :
    e ≠ .destroyed := by
  unfold insert at h
  cases hi : index slot with
  | error e' =>
    rw [hi] at h
    obtain rfl := Except.error.inj h
    exact index_ne hi
  | ok i =>
    rw [hi] at h
    cases h

end PortTable

namespace Fifo

theorem new_ne {α : Type} {capacity : Nat} {e : Error}
    (h : (new capacity : Except Error (Fifo α)) = .error e) : e ≠ .destroyed := by
  unfold new checkCapacity Memory.reserve at h
  split at h
  · cases h
    simp
  · split at h <;> cases h
    simp

end Fifo

namespace Pool

variable {p q : Pool} {h : Handle} {e : Error}

theorem failsLate_bind (p : Pool) (h : Handle) (port : UInt8) :
    p.FailsLate h (p.bind h port) := by
  unfold bind
  obtain ⟨-, hs⟩ | ⟨s, hs?, hs, hl, hstatus⟩ := slot_cases p h
  · rw [hs]
    exact failsLate_of_error staleHandle_ne
  rw [hs]
  dsimp only
  by_cases hp : s.phase = .closed
  · rw [if_neg (not_not_intro hp)]
    cases hb : p.ports.checkBind port with
    | error e => exact failsLate_of_error (PortTable.checkBind_ne hb)
    | ok lport =>
      have hclosed : s.status.phase = .closed := hp
      refine failsLate_announce hl
        (census_modify_self (index_lt_of_slot? hs?) (g := Status.attached lport) rfl)
        hl.1 (by simp [Status.attached]) ?_
      rw [hstatus, hclosed]
      simp [Status.attached]
  · rw [if_pos hp]
    exact failsLate_of_error (refusal_ne _)

theorem failsLate_listen (p : Pool) (h : Handle) (backlog : Nat) :
    p.FailsLate h (p.listen h backlog) := by
  unfold listen
  cases hnew : (Fifo.new backlog : Except Error (Fifo Handle)) with
  | error e => exact failsLate_of_error (Fifo.new_ne hnew)
  | ok queue =>
    obtain ⟨-, hs⟩ | ⟨s, hs?, hs, hl, hstatus⟩ := slot_cases p h
    · rw [hs]
      exact failsLate_of_error staleHandle_ne
    rw [hs]
    dsimp only
    by_cases hp : s.phase = .bound
    · rw [if_neg (not_not_intro hp)]
      cases ht : p.ports.listen s.options.lport h s.options.priority with
      | error e => exact failsLate_of_error (PortTable.listen_ne ht)
      | ok t =>
        have hbound : s.status.phase = .bound := hp
        refine failsLate_announce hl
          (census_modify_self (p := { p with ports := t }) (index_lt_of_slot? hs?)
            (g := Status.listening) rfl)
          hl.1 (by simp [Status.listening]) ?_
        rw [hstatus, hbound]
        simp [Status.listening]
    · rw [if_pos hp]
      exact failsLate_of_error (refusal_ne _)

theorem failsLate_connect (p : Pool) (h : Handle) (peer : Peer) :
    p.FailsLate h (p.connect h peer) := by
  unfold connect
  by_cases hport : portMax < peer.port
  · rw [if_pos hport]
    exact failsLate_of_error (by simp)
  rw [if_neg hport]
  obtain ⟨-, hs⟩ | ⟨s, hs?, hs, hl, hstatus⟩ := slot_cases p h
  · rw [hs]
    exact failsLate_of_error staleHandle_ne
  rw [hs]
  dsimp only
  by_cases hp : s.phase ≠ .closed ∧ s.phase ≠ .bound
  · rw [if_pos hp]
    exact failsLate_of_error (refusal_ne _)
  · rw [if_neg hp]
    generalize (if s.phase = .closed then Port.sharedSlot else s.options.lport) = lport
    cases ht : p.ports.insert lport h s.options.priority with
    | error e => exact failsLate_of_error (PortTable.insert_ne ht)
    | ok t =>
      have hidle : s.status.phase = .closed ∨ s.status.phase = .bound := by
        rw [not_and_or, not_not, not_not] at hp
        exact hp
      refine failsLate_announce hl
        (census_modify_self (p := { p with ports := t }) (index_lt_of_slot? hs?)
          (g := Status.linked lport peer) rfl)
        hl.1 (by simp [Status.linked]) ?_
      rw [hstatus]
      obtain hidle | hidle := hidle <;> rw [hidle] <;> simp [Status.linked]

/-! ## All operations -/

/-- What `setPriority` looks up on its way it finds: a connection that is registered is on
its port. -/
theorem setPriority_error (hp : p.census.Filed) {priority : UInt8}
    (he : (p.setPriority h priority).2 = .error e) : (p.setPriority h priority).1 = p := by
  unfold setPriority at he ⊢
  obtain ⟨-, hs⟩ | ⟨s, hs?, hs, hl, hstatus⟩ := slot_cases p h
  · rw [hs]
  rw [hs] at he
  dsimp only at he
  split at he
  · next hr =>
    obtain ⟨j, hj, m, hm, hc⟩ := hp.exists_mem (i := h.index) (by rw [hstatus]; exact hr)
    rw [hl.1] at hc
    obtain ⟨-, t, -, ht, -⟩ :=
      @PortTable.reprioritize_of_mem _ _ _ priority _ _ hj hm hc
    rw [hstatus] at ht
    have hfound : p.ports.reprioritize s.options.lport h priority = _ := ht
    rw [ports_modify, hfound] at he
    cases he
  · cases he

theorem offerChild_error {peer : Peer} (he : (p.offerChild h peer).2 = .error e) :
    p.Unchanged (p.offerChild h peer).1 := by
  obtain ⟨e', heq⟩ | ⟨-, -, -, c, -, -, -, -, heq⟩ |
    ⟨s, backlog, children, i, t, q, o, hports, ⟨-, -, heq, -⟩ | ⟨e', heq, hfree, -, hslots⟩⟩ :=
    offerChild_slots p h peer
  · rw [heq]
    exact .refl p
  · rw [heq] at he
    cases he
  · rw [heq] at he
    cases he
  · rw [heq]
    exact unchanged_of_slots hports o.free hfree hslots

theorem alloc_error (he : p.alloc.2 = .error e) : p.alloc.1 = p := by
  obtain ⟨e', heq⟩ | ⟨i, -, -, hok, -⟩ := alloc_cases p
  · rw [heq]
  · rw [hok] at he
    cases he

theorem close_error (he : (p.close h).2 = .error e) : (p.close h).1 = p := by
  obtain ⟨-, heq⟩ | ⟨-, -, heq⟩ | ⟨-, -, hok, -⟩ := close_cases p h
  · rw [heq]
  · rw [heq]
  · rw [hok] at he
    cases he

theorem free_error (he : (p.free h).2 = .error e) : (p.free h).1 = p := by
  obtain ⟨-, heq⟩ | ⟨-, hok, -⟩ := free_cases p h
  · rw [heq]
  · rw [hok] at he
    cases he

/-- An operation that announces itself has changed something exactly if it fails with
`destroyed`. -/
theorem FailsLate.unchanged_iff {r : Pool × Except Error Unit} (hlate : p.FailsLate h r)
    (he : r.2 = .error e) : p.Unchanged r.1 ↔ e ≠ .destroyed := by
  obtain ⟨hne, heq⟩ | ⟨heq, hl, hp⟩ := hlate e he
  · rw [heq]
    exact ⟨fun _ => hne, fun _ => .refl p⟩
  · exact ⟨fun hu => absurd hu (not_unchanged_of_phase hl hp), fun hne => absurd heq hne⟩

/-- In every state that a pool can get into, an operation that fails has changed nothing,
with one exception: `bind`, `listen` and `connect` have changed the connection if they fail
with `destroyed`. -/
theorem unchanged_of_failure_iff {c : Config} {p : Pool} (hnew : new c = .ok p) (ops : List Op)
    {op : Op} (hop : op.isControl = true) {e : Error}
    (hfail : ((p.atRest.run ops).step op).2 = op.refused e) :
    (p.atRest.run ops).pool.Unchanged ((p.atRest.run ops).step op).1.pool ↔
      ¬ (op.announces = true ∧ e = .destroyed) := by
  have hfiled : (p.atRest.run ops).pool.census.Filed :=
    System.census_run (fun _ _ ho hσ => hσ.opening ho) (fun _ _ he hσ => hσ.ending he)
      (s := p.atRest) (filed_new hnew) ops
  generalize p.atRest.run ops = s at hfail hfiled ⊢
  -- operations that do not announce themselves change nothing, whatever the error
  have hquiet : op.announces = false → s.pool.Unchanged (s.step op).1.pool →
      (s.pool.Unchanged (s.step op).1.pool ↔ ¬ (op.announces = true ∧ e = .destroyed)) := by
    intro hno hu
    rw [hno]
    exact ⟨fun _ hboth => (by cases hboth.1), fun _ => hu⟩
  have hloud : op.announces = true → (s.pool.Unchanged (s.step op).1.pool ↔ e ≠ .destroyed) →
      (s.pool.Unchanged (s.step op).1.pool ↔ ¬ (op.announces = true ∧ e = .destroyed)) := by
    intro hyes hiff
    rw [hiff, hyes]
    exact ⟨fun hne hboth => hne hboth.2, fun hnot he => hnot ⟨rfl, he⟩⟩
  cases op with
  | alloc =>
    have hsame : (s.step .alloc).1.pool = s.pool := alloc_error (Reply.handle.inj hfail)
    exact hquiet rfl (by rw [hsame]; exact .refl _)
  | offerChild parent peer => exact hquiet rfl (offerChild_error (Reply.handle.inj hfail))
  | setPriority h priority =>
    have hsame : (s.step (.setPriority h priority)).1.pool = s.pool :=
      setPriority_error hfiled (Reply.unit.inj hfail)
    exact hquiet rfl (by rw [hsame]; exact .refl _)
  | close h =>
    have hsame : (s.step (.close h)).1.pool = s.pool := close_error (Reply.unit.inj hfail)
    exact hquiet rfl (by rw [hsame]; exact .refl _)
  | free h =>
    have hsame : (s.step (.free h)).1.pool = s.pool := free_error (Reply.unit.inj hfail)
    exact hquiet rfl (by rw [hsame]; exact .refl _)
  | bind h port =>
    exact hloud rfl ((failsLate_bind _ h port).unchanged_iff (Reply.unit.inj hfail))
  | listen h backlog =>
    exact hloud rfl ((failsLate_listen _ h backlog).unchanged_iff (Reply.unit.inj hfail))
  | connect h peer =>
    exact hloud rfl ((failsLate_connect _ h peer).unchanged_iff (Reply.unit.inj hfail))
  | _ => cases hop

/-- A second child finds no room in the backlog, and its listener keeps the first. -/
theorem unchanged_by_rejected_child :
    ∃ p, new { maxConnections := 3 } = .ok p ∧
      let s := p.atRest.run [.alloc, .bind ⟨0, 0⟩ 5, .listen ⟨0, 0⟩ 1,
        .offerChild ⟨0, 0⟩ ⟨0x42, 3⟩]
      (s.step (.offerChild ⟨0, 0⟩ ⟨0x43, 3⟩)).2 = .handle (.error .queueFull) ∧
        s.pool.Unchanged (s.step (.offerChild ⟨0, 0⟩ ⟨0x43, 3⟩)).1.pool := by
  refine ⟨_, rfl, ?_⟩
  dsimp only
  generalize hs : Pool.atRest _ = s
  have hfull : ((s.run [.alloc, .bind ⟨0, 0⟩ 5, .listen ⟨0, 0⟩ 1,
      .offerChild ⟨0, 0⟩ ⟨0x42, 3⟩]).pool.offerChild ⟨0, 0⟩ ⟨0x43, 3⟩).2 = .error .queueFull := by
    subst hs
    decide +kernel
  have hfail := congrArg Reply.handle hfull
  subst hs
  exact ⟨hfail, (@unchanged_of_failure_iff { maxConnections := 3 } _ rfl _
    (.offerChild ⟨0, 0⟩ ⟨0x43, 3⟩) rfl .queueFull hfail).2 (by simp [Op.announces])⟩

/-- A connection whose event group was given up is bound, although `bind` fails. -/
theorem bound_by_failed_bind :
    ∃ p, new { maxConnections := 1, releaseOnClose := true } = .ok p ∧
      let s := p.atRest.run [.alloc, .connect ⟨0, 0⟩ ⟨0x42, 3⟩, .close ⟨0, 0⟩]
      (s.step (.bind ⟨0, 0⟩ 5)).2 = .unit (.error .destroyed) ∧
        (s.pool.phase ⟨0, 0⟩).toOption = some .closed ∧
        ((s.step (.bind ⟨0, 0⟩ 5)).1.pool.phase ⟨0, 0⟩).toOption = some .bound ∧
        ¬ s.pool.Unchanged (s.step (.bind ⟨0, 0⟩ 5)).1.pool := by
  refine ⟨_, rfl, ?_, by decide +kernel, by decide +kernel, ?_⟩
  · exact congrArg Reply.unit (show (Pool.bind _ _ _).2 = .error .destroyed by decide +kernel)
  · exact not_unchanged_of_phase (h := ⟨0, 0⟩) (by decide +kernel) (by decide +kernel)

end Pool

end Netstack
