import Mathlib.Logic.Function.Basic
import Netstack.Pool.Calls

/-
The census of a pool: what its connections are to each other and to the ports.

Whether a handle is live, which ports know a connection and whose child it is depend on
five things a slot: its generation, its phase, its kin, its options and whether it is
registered. Receive queues, event groups and backlogs say nothing about them. The census
keeps the five and forgets the rest, so everything that only moves packets, event bits or
pending children from one place to another leaves it alone, and what is left of the pool's
operations is a short list of moves.

Below: the census, the moves on it, and how the building blocks of the pool's operations
(`modify`, `emit`, `announce`, `detach`, ...) show in it.
-/

set_option autoImplicit false

namespace Netstack

/-! ## Kin and status -/

/-- A role without its backlog. -/
inductive Kin
  | client
  | server (children : List (Peer × Handle))
  | child (parent : Handle)
  deriving DecidableEq

namespace Kin

def parent? : Kin → Option Handle
  | child parent => some parent
  | _ => none

def children : Kin → List (Peer × Handle)
  | server children => children
  | _ => []

def forget (peer : Peer) : Kin → Kin
  | server children => server (children.filter fun c => c.1 ≠ peer)
  | kin => kin

def adopt (peer : Peer) (handle : Handle) : Kin → Kin
  | server children => server ((peer, handle) :: children)
  | kin => kin

@[simp] theorem parent?_forget (peer : Peer) (k : Kin) : (k.forget peer).parent? = k.parent? := by
  cases k <;> rfl

@[simp] theorem parent?_adopt (peer : Peer) (h : Handle) (k : Kin) :
    (k.adopt peer h).parent? = k.parent? := by
  cases k <;> rfl

end Kin

def Role.kin : Role → Kin
  | client => .client
  | server _ children => .server children
  | child parent => .child parent

namespace Role

@[simp] theorem parent?_kin (r : Role) : r.kin.parent? = r.parent? := by cases r <;> rfl

@[simp] theorem kin_forget (peer : Peer) (r : Role) : (r.forget peer).kin = r.kin.forget peer := by
  cases r <;> rfl

@[simp] theorem kin_adopt (peer : Peer) (h : Handle) (r : Role) :
    (r.adopt peer h).kin = r.kin.adopt peer h := by
  cases r <;> rfl

@[simp] theorem kin_withBacklog (backlog : Fifo Handle) (r : Role) :
    (r.withBacklog backlog).kin = r.kin := by
  cases r <;> rfl

end Role

/-- What others can see of a slot. -/
structure Status where
  generation : UInt32
  phase : Phase
  kin : Kin
  options : Options
  registered : Bool

namespace Status

def peer (s : Status) : Peer := ⟨s.options.raddr, s.options.rport⟩

/-- The slot handed out anew. -/
def claimed (s : Status) : Status :=
  { s with phase := .closed, kin := .client, options := {}, registered := false }

/-- Bound to a port. -/
def attached (lport : UInt8) (s : Status) : Status :=
  { s with phase := .bound, options := { s.options with lport := lport } }

/-- Listening, without children. -/
def listening (s : Status) : Status :=
  { s with phase := .listen, kin := .server [], registered := true }

/-- Connected to a peer from a local port. -/
def linked (lport : UInt8) (peer : Peer) (s : Status) : Status :=
  { s with
    phase := .connected
    registered := true
    options := { s.options with lport := lport, raddr := peer.addr, rport := peer.port } }

/-- Connected, as the child of a listener with these options. -/
def fostered (parent : Handle) (o : Options) (peer : Peer) (s : Status) : Status :=
  { s with
    kin := .child parent
    phase := .connected
    options :=
      { priority := o.priority, lport := o.lport, laddr := o.laddr
        raddr := peer.addr, rport := peer.port } }

/-- Closed and on no port. -/
def shut (s : Status) : Status := { s with phase := .closed, registered := false }

/-- The slot given back. -/
def vacated (s : Status) : Status :=
  { s with generation := s.generation + 1, phase := .free, kin := .client, options := {} }

end Status

def Slot.status (s : Slot) : Status :=
  { generation := s.generation
    phase := s.phase
    kin := s.role.kin
    options := s.options
    registered := s.registered }

namespace Slot

@[simp] theorem status_released (s : Slot) : s.released.status = s.status := rfl

theorem status_shut (s : Slot) : s.shut.status = s.status.shut := rfl

theorem status_vacated (s : Slot) : s.vacated.status = s.status.vacated := rfl

end Slot

/-! ## The census and its moves -/

structure Census where
  /-- number of slots -/
  size : Nat
  /-- the slots by number; one that does not exist is as if it was never used -/
  status : Nat → Status
  ports : PortTable

namespace Census

variable (σ : Census)

/-- Whether a handle names a connection. -/
def Live (h : Handle) : Prop :=
  (σ.status h.index).generation = h.generation ∧ (σ.status h.index).phase ≠ .free

instance (h : Handle) : Decidable (σ.Live h) := inferInstanceAs (Decidable (_ ∧ _))

def set (i : Nat) (s : Status) : Census := { σ with status := Function.update σ.status i s }

/-- Change what others see of a slot. -/
def alter (i : Nat) (f : Status → Status) : Census := σ.set i (f (σ.status i))

def withPorts (t : PortTable) : Census := { σ with ports := t }

/-- A parent forgets a peer, if it is still there. -/
def forget (parent : Handle) (peer : Peer) : Census :=
  if σ.Live parent then σ.alter parent.index fun s => { s with kin := s.kin.forget peer } else σ

/-- The port table without a connection. -/
def unregister (port : UInt8) (h : Handle) : Census :=
  match σ.ports.remove port h with
  | .ok (t, _) => σ.withPorts t
  | .error _ => σ

/-- A connection is taken from its parent. -/
def disown (h : Handle) : Census :=
  match (σ.status h.index).kin.parent? with
  | some parent => σ.forget parent (σ.status h.index).peer
  | none => σ

/-- A connection is taken from its parent and off its port. -/
def detach (h : Handle) : Census :=
  if (σ.status h.index).registered then
    (σ.disown h).unregister (σ.status h.index).options.lport h
  else σ.disown h

/-- The end of an active phase. -/
def shut (h : Handle) : Census := (σ.detach h).alter h.index Status.shut

/-- A listening connection gets a child, in the slot of a connection just handed out. -/
def adopt (parent child : Handle) (peer : Peer) : Census :=
  let o := (σ.status parent.index).options
  (σ.alter child.index (Status.fostered parent o peer)).alter parent.index fun s =>
    { s with kin := s.kin.adopt peer child }

variable {σ}

@[simp] theorem ports_set (i : Nat) (s : Status) : (σ.set i s).ports = σ.ports := rfl

@[simp] theorem status_set_self (i : Nat) (s : Status) : (σ.set i s).status i = s := by
  simp [set]

theorem status_set_of_ne {i j : Nat} (h : j ≠ i) (s : Status) :
    (σ.set i s).status j = σ.status j := by
  simp [set, h]

@[simp] theorem status_alter_self (i : Nat) (f : Status → Status) :
    (σ.alter i f).status i = f (σ.status i) := by
  simp [alter]

theorem status_alter_of_ne {i j : Nat} (h : j ≠ i) (f : Status → Status) :
    (σ.alter i f).status j = σ.status j :=
  status_set_of_ne h _

@[simp] theorem ports_withPorts (t : PortTable) : (σ.withPorts t).ports = t := rfl

@[simp] theorem status_withPorts (t : PortTable) : (σ.withPorts t).status = σ.status := rfl

@[simp] theorem size_forget (parent : Handle) (peer : Peer) :
    (σ.forget parent peer).size = σ.size := by
  unfold forget
  split <;> rfl

@[simp] theorem size_unregister (port : UInt8) (h : Handle) :
    (σ.unregister port h).size = σ.size := by
  unfold unregister
  split <;> rfl

@[simp] theorem size_detach (h : Handle) : (σ.detach h).size = σ.size := by
  unfold detach disown
  split <;> split <;> simp

theorem alter_eq_self {i : Nat} {f : Status → Status} (h : f (σ.status i) = σ.status i) :
    σ.alter i f = σ := by
  simp [alter, set, h]

end Census

/-! ## The census of a pool -/

namespace Pool

/-- A slot's number beyond the last one finds a slot that was never used. -/
theorem slotAt_of_size_le {p : Pool} {i : Nat} (h : p.slots.size ≤ i) :
    p.slotAt i = Slot.vacant := by
  simp [slotAt, h]

/-- A change of a slot shows there, if there is such a slot, and nowhere else. -/
theorem slotAt_modify_cases (p : Pool) (i j : Nat) (f : Slot → Slot) :
    (i = j ∧ i < p.slots.size ∧ (p.modify i f).slotAt j = f (p.slotAt j)) ∨
      (p.modify i f).slotAt j = p.slotAt j := by
  by_cases hj : i = j
  · subst hj
    by_cases hi : i < p.slots.size
    · exact .inl ⟨rfl, hi, slotAt_modify hi f⟩
    · -- out of range a slot is as if it was never used, before and after
      have hsize : (p.modify i f).slots.size ≤ i := by
        rw [size_modify]
        exact Nat.le_of_not_lt hi
      right
      rw [slotAt_of_size_le hsize, slotAt_of_size_le (Nat.le_of_not_lt hi)]
  · exact .inr (slotAt_modify_of_ne hj p f)

theorem slot?_eq_some_iff_slotAt {p : Pool} {h : Handle} {s : Slot} :
    p.slot? h = some s ↔
      p.slotAt h.index = s ∧ s.generation = h.generation ∧ s.phase ≠ .free := by
  rw [slot?_eq_some_iff]
  constructor
  · rintro ⟨hs, hg, hp⟩
    exact ⟨by simp [slotAt, hs], hg, hp⟩
  · rintro ⟨rfl, hg, hp⟩
    refine ⟨?_, hg, hp⟩
    -- out of range there would be a free slot
    by_cases hi : h.index < p.slots.size
    · simp [slotAt, hi]
    · rw [slotAt_of_size_le (by omega)] at hp
      exact absurd rfl hp

def census (p : Pool) : Census :=
  { size := p.slots.size
    status := fun i => (p.slotAt i).status
    ports := p.ports }

variable {p : Pool}

theorem status_census (i : Nat) : p.census.status i = (p.slotAt i).status := rfl

theorem size_census : p.census.size = p.slots.size := rfl

theorem ports_census : p.census.ports = p.ports := rfl

theorem live_iff {h : Handle} : p.census.Live h ↔ ∃ s, p.slot? h = some s := by
  simp only [slot?_eq_some_iff_slotAt, Census.Live, status_census]
  constructor
  · intro hl
    exact ⟨_, rfl, hl⟩
  · rintro ⟨s, rfl, hl⟩
    exact hl

theorem not_live_iff {h : Handle} : ¬ p.census.Live h ↔ p.slot? h = none := by
  rw [live_iff, not_exists, Option.eq_none_iff_forall_not_mem]
  rfl

theorem status_of_slot? {h : Handle} {s : Slot} (hs : p.slot? h = some s) :
    p.census.status h.index = s.status := by
  rw [status_census, (slot?_eq_some_iff_slotAt.1 hs).1]

theorem live_of_slot? {h : Handle} {s : Slot} (hs : p.slot? h = some s) : p.census.Live h :=
  live_iff.2 ⟨s, hs⟩

theorem index_lt_of_slot? {h : Handle} {s : Slot} (hs : p.slot? h = some s) :
    h.index < p.slots.size :=
  (Array.getElem?_eq_some_iff.1 (slot?_eq_some_iff.1 hs).1).1

theorem mem_live_iff {h : Handle} : h ∈ p.live ↔ p.census.Live h := by
  constructor
  · intro hmem
    obtain ⟨i, -, hi⟩ := List.mem_filterMap.1 hmem
    dsimp only at hi
    split at hi
    · next hp =>
      obtain rfl := Option.some.inj hi
      exact ⟨rfl, hp⟩
    · cases hi
  · intro hl
    obtain ⟨s, hs⟩ := live_iff.1 hl
    obtain ⟨hslot, hg, hp⟩ := slot?_eq_some_iff_slotAt.1 hs
    refine List.mem_filterMap.2 ⟨h.index, List.mem_range.2 (index_lt_of_slot? hs), ?_⟩
    rw [hslot]
    dsimp only
    rw [if_pos hp, hg]

/-! ## Building blocks that leave the census alone -/

theorem census_modify {i : Nat} (hi : i < p.slots.size) {f : Slot → Slot} {g : Status → Status}
    (hf : (f (p.slotAt i)).status = g (p.slotAt i).status) :
    (p.modify i f).census = p.census.alter i g := by
  have hsize : (p.modify i f).census.size = (p.census.alter i g).size := size_modify p i f
  have hstatus : (p.modify i f).census.status = (p.census.alter i g).status := by
    funext j
    by_cases hj : j = i
    · subst hj
      rw [status_census, slotAt_modify hi, hf, Census.status_alter_self, status_census]
    · rw [status_census, slotAt_modify_of_ne (Ne.symm hj), Census.status_alter_of_ne hj,
        status_census]
  exact congr (congr (congrArg Census.mk hsize) hstatus) rfl

/-- A change of slots that others cannot see. -/
theorem census_modify_eq (i : Nat) {f : Slot → Slot} (hf : ∀ s, (f s).status = s.status) :
    (p.modify i f).census = p.census := by
  by_cases hi : i < p.slots.size
  · rw [census_modify hi (g := id) (hf _)]
    exact Census.alter_eq_self rfl
  · -- out of range, where nothing is changed at all
    have h : p.slots.modify i f = p.slots := by
      apply Array.ext_getElem?
      intro j
      rw [Array.getElem?_modify]
      by_cases hj : i = j
      · subst hj
        simp [hi]
      · simp [hj]
    rw [modify, h]

@[simp] theorem census_emit (event : ConnEvent) : (p.emit event).census = p.census := rfl

@[simp] theorem census_setQueue (i : Nat) (q : Fifo Buffer) : (p.setQueue i q).census = p.census :=
  census_modify_eq i fun _ => rfl

@[simp] theorem census_setEvents (i : Nat) (g : EventGroup) : (p.setEvents i g).census = p.census :=
  census_modify_eq i fun _ => rfl

@[simp] theorem census_modify_signal (i : Nat) (bits : EventBits) :
    (p.modify i (Slot.signal bits)).census = p.census :=
  census_modify_eq i fun _ => rfl

@[simp] theorem census_modify_unsignal (i : Nat) (bits : EventBits) :
    (p.modify i (Slot.unsignal bits)).census = p.census :=
  census_modify_eq i fun _ => rfl

@[simp] theorem census_modify_withBacklog (i : Nat) (backlog : Fifo Handle) :
    (p.modify i fun s => { s with role := s.role.withBacklog backlog }).census = p.census :=
  census_modify_eq i fun s => by simp [Slot.status]

@[simp] theorem census_sleep (i : Nat) : (p.sleep i).census = p.census :=
  census_modify_eq i fun _ => rfl

@[simp] theorem census_rise (i : Nat) : (p.rise i).census = p.census :=
  census_modify_eq i fun _ => rfl

@[simp] theorem census_announce (h : Handle) (clear set : EventBits) (event : ConnEvent) :
    (p.announce h clear set event).1.census = p.census := by
  unfold announce
  split
  · rfl
  · exact census_modify_eq _ fun _ => rfl

theorem census_withPorts (t : PortTable) :
    ({ p with ports := t } : Pool).census = p.census.withPorts t := rfl

/-! ## Detaching a connection -/

theorem census_forgetChild (parent : Handle) (peer : Peer) :
    (p.forgetChild parent peer).census = p.census.forget parent peer := by
  unfold forgetChild Census.forget
  split
  · next s hs =>
    rw [if_pos (live_of_slot? hs)]
    exact census_modify (index_lt_of_slot? hs) (by simp [Slot.status])
  · next hn => rw [if_neg (not_live_iff.2 hn)]

theorem census_unregister (port : UInt8) (h : Handle) :
    (p.unregister port h).census = p.census.unregister port h := by
  unfold unregister Census.unregister
  rw [ports_census]
  cases p.ports.remove port h with
  | error e => rfl
  | ok removed => rfl

theorem census_detach {h : Handle} {s : Slot} (hs : p.slot? h = some s) :
    (p.detach h s).census = p.census.detach h := by
  have hstatus := status_of_slot? hs
  -- what detaching reads of the slot is all in the census
  have hkin : (p.census.status h.index).kin.parent? = s.role.parent? := by
    rw [hstatus]
    exact s.role.parent?_kin
  have hpeer : (p.census.status h.index).peer = s.peer := by rw [hstatus]; rfl
  have hport : (p.census.status h.index).options.lport = s.options.lport := by rw [hstatus]; rfl
  have hreg : (p.census.status h.index).registered = s.registered := by rw [hstatus]; rfl
  unfold detach Census.detach Census.disown
  dsimp only
  rw [hkin, hpeer, hport, hreg]
  cases s.role.parent? with
  | none =>
    cases hr : s.registered with
    | false => rfl
    | true => exact census_unregister _ _
  | some parent =>
    cases hr : s.registered with
    | false => exact census_forgetChild _ _
    | true =>
      dsimp only
      rw [if_pos rfl, if_pos rfl, census_unregister, census_forgetChild]

theorem size_detach {h : Handle} {s : Slot} (hs : p.slot? h = some s) :
    (p.detach h s).slots.size = p.slots.size := by
  have hsize := congrArg Census.size (census_detach hs)
  rw [Census.size_detach] at hsize
  exact hsize

end Pool

end Netstack
