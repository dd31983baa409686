import Mathlib.Data.List.Infix
import Netstack.Proofs.Pool.OneChild
import Netstack.Proofs.Pool.Ports

/-
Which connection an inbound packet reaches.

A packet for a port is offered to the members of the port and then to those of the shared
slot. The first that takes it decides: a connected member takes it itself, a listening one
passes it on to its child for the sender, which is on no port of its own.

So two things about listeners and their children matter here that no other proof needs. A
listening connection is on its port, and its children are on none and have its local port
(`Census.Housed`). And a connected connection keeps its two ends, its parent and its place
on a port for as long as it stays connected (`StaysConnected.sameEnds`).
-/

set_option autoImplicit false

namespace Netstack

/-! ## Listeners and children on their ports -/

namespace Census

variable {σ τ : Census} {s : Status} {h parent c : Handle} {peer : Peer} {i : Nat}

/-- A listening connection is on its port; the children in a map are on no port, and while
the parent listens they have its local port. -/
structure Housed (σ : Census) : Prop where
  listener : ∀ i, (σ.status i).phase = .listen → (σ.status i).registered = true
  apart : ∀ i peer c, (σ.status i).child? peer = some c → (σ.status c.index).registered = false
  lport : ∀ i peer c, (σ.status i).phase = .listen → (σ.status i).child? peer = some c →
    (σ.status c.index).options.lport = (σ.status i).options.lport

/-- A slot changes that no entry points to, or that keeps its place. It has entries of
before, and if it listens then it did so before, on the same port; or they are new. -/
theorem Housed.set (hσ : σ.Housed)
    (hs : σ.Unlisted i ∨ (s.registered = (σ.status i).registered ∧
      s.options.lport = (σ.status i).options.lport))
    (hlisten : s.phase = .listen → s.registered = true)
    (hchild : ∀ peer c, s.child? peer = some c →
      ((σ.status i).child? peer = some c ∧ (s.phase = .listen → (σ.status i).phase = .listen ∧
        s.options.lport = (σ.status i).options.lport)) ∨
      (c.index ≠ i ∧ (σ.status c.index).registered = false ∧
        (σ.status c.index).options.lport = s.options.lport)) : (σ.set i s).Housed := by
  -- whoever has an entry is where it was
  have hkeep : ∀ k peer c, (σ.status k).child? peer = some c →
      ((σ.set i s).status c.index).registered = (σ.status c.index).registered ∧
      ((σ.set i s).status c.index).options.lport = (σ.status c.index).options.lport := by
    intro k peer c hc
    by_cases hci : c.index = i
    · obtain hu | hsame := hs
      · exact absurd hci (hu k peer c hc)
      · rw [hci, status_set_self]
        exact hsame
    · rw [status_set_of_ne hci]
      exact ⟨rfl, rfl⟩
  refine ⟨?_, ?_, ?_⟩
  · intro k hk
    by_cases hki : k = i
    · subst hki
      rw [status_set_self] at hk ⊢
      exact hlisten hk
    · rw [status_set_of_ne hki] at hk ⊢
      exact hσ.listener k hk
  · intro k peer c hc
    by_cases hki : k = i
    · subst hki
      rw [status_set_self] at hc
      obtain ⟨hold, -⟩ | ⟨hne, hreg, -⟩ := hchild peer c hc
      · rw [(hkeep k peer c hold).1]
        exact hσ.apart k peer c hold
      · rw [status_set_of_ne hne]
        exact hreg
    · rw [status_set_of_ne hki] at hc
      rw [(hkeep k peer c hc).1]
      exact hσ.apart k peer c hc
  · intro k peer c hk hc
    by_cases hki : k = i
    · subst hki
      rw [status_set_self] at hk hc ⊢
      obtain ⟨hold, hsame⟩ | ⟨hne, -, hport⟩ := hchild peer c hc
      · rw [(hkeep k peer c hold).2, (hsame hk).2]
        exact hσ.lport k peer c (hsame hk).1 hold
      · rw [status_set_of_ne hne]
        exact hport
    · rw [status_set_of_ne hki] at hk hc ⊢
      rw [(hkeep k peer c hc).2]
      exact hσ.lport k peer c hk hc

theorem housed_congr (hs : τ.status = σ.status) (hσ : σ.Housed) : τ.Housed := by
  refine ⟨?_, ?_, ?_⟩ <;> rw [hs]
  · exact hσ.listener
  · exact hσ.apart
  · exact hσ.lport

theorem Housed.disown (hσ : σ.Housed) (h : Handle) : (σ.disown h).Housed := by
  unfold Census.disown
  split
  · unfold Census.forget
    split
    · refine hσ.set (.inr ⟨rfl, rfl⟩) (hσ.listener _) ?_
      intro peer c hc
      rw [Status.child?, Kin.lookup_forget] at hc
      split at hc
      · cases hc
      · exact .inl ⟨hc, fun hp => ⟨hp, rfl⟩⟩
    · exact hσ
  · exact hσ

theorem Housed.ending (hσ : σ.Housed) (hfam : σ.Family) (he : Ending σ τ) : τ.Housed := by
  cases he with
  | @shut h live active =>
    have hstatus : (σ.shut h).status = ((σ.disown h).alter h.index Status.shut).status := by
      funext i
      by_cases hi : i = h.index
      · rw [hi, status_shut_self, status_detach, status_alter_self]
      · rw [status_shut_of_ne hi, status_detach, status_alter_of_ne hi]
    refine housed_congr hstatus ((hσ.disown h).set (.inl (hfam.unlisted_disown h)) ?_ ?_)
    · rintro ⟨⟩
    · exact fun peer c hc => .inl ⟨hc, by rintro ⟨⟩⟩
  | vacate live closed =>
    refine hσ.set (.inl (hfam.unlisted (by rw [closed]; simp))) ?_ ?_
    · rintro ⟨⟩
    · rintro peer c ⟨⟩

theorem Housed.adopt (hσ : σ.Housed) (hfam : σ.Family) {children : List (Peer × Handle)}
    (hp : (σ.status parent.index).phase = .listen)
    (hk : (σ.status parent.index).kin = .server children)
    (hclosed : (σ.status c.index).phase = .closed)
    (hreg : (σ.status c.index).registered = false) : (σ.adopt parent c peer).Housed := by
  have hne : parent.index ≠ c.index := by
    intro heq
    rw [heq, hclosed] at hp
    cases hp
  -- first the child, which has no entry yet, and then the parent with its entry
  have hchild : (σ.alter c.index
      (Status.fostered parent (σ.status parent.index).options peer)).Housed := by
    refine hσ.set (.inl (hfam.unlisted (by rw [hclosed]; simp))) ?_ ?_
    · rintro ⟨⟩
    · rintro peer c ⟨⟩
  have hparent := status_alter_of_ne (σ := σ) hne
    (Status.fostered parent (σ.status parent.index).options peer)
  refine hchild.set (.inr ⟨rfl, rfl⟩) (hchild.listener _) ?_
  intro peer' c' hc'
  rw [hparent] at hc' ⊢
  dsimp only at hc' ⊢
  rw [Status.child?, hk] at hc'
  change ((peer, c) :: children).lookup peer' = some c' at hc'
  rw [List.lookup_cons] at hc'
  split at hc'
  · obtain rfl := Option.some.inj hc'
    right
    rw [status_alter_self]
    exact ⟨hne.symm, hreg, rfl⟩
  · left
    refine ⟨?_, fun hp => ⟨hp, rfl⟩⟩
    rw [Status.child?, hk]
    exact hc'

theorem Housed.opening (hσ : σ.Housed) (hfam : σ.Family) (ho : Opening σ τ) : τ.Housed := by
  cases ho with
  | claim size free =>
    refine hσ.set (.inl (hfam.unlisted (by rw [free]; simp))) ?_ ?_
    · rintro ⟨⟩
    · rintro peer c ⟨⟩
  | attach live closed bindable =>
    refine hσ.set (.inl (hfam.unlisted (by rw [closed]; simp))) ?_ ?_
    · rintro ⟨⟩
    · exact fun peer c hc => .inl ⟨hc, by rintro ⟨⟩⟩
  | listen live bound table =>
    refine housed_congr (status_withPorts _)
      (hσ.set (.inl (hfam.unlisted (by rw [bound]; simp))) ?_ ?_)
    · exact fun _ => rfl
    · rintro peer c ⟨⟩
  | link live idle table =>
    refine housed_congr (status_withPorts _)
      (hσ.set (.inl (hfam.unlisted (by obtain hp | hp := idle <;> rw [hp] <;> simp))) ?_ ?_)
    · rintro ⟨⟩
    · exact fun peer c hc => .inl ⟨hc, by rintro ⟨⟩⟩
  | rank live =>
    refine housed_congr (status_rank σ _ _) (hσ.set (.inr ⟨rfl, rfl⟩) (hσ.listener _) ?_)
    exact fun peer c hc => .inl ⟨hc, fun hp => ⟨hp, rfl⟩⟩
  | retime live =>
    refine hσ.set (.inr ⟨rfl, rfl⟩) (hσ.listener _) ?_
    exact fun peer c hc => .inl ⟨hc, fun hp => ⟨hp, rfl⟩⟩
  | adopt live listens server unknown childLive fresh =>
    exact hσ.adopt hfam listens server fresh.1 fresh.2.2

/-- What holds in every state about families and the ports they are on. -/
structure Placed (σ : Census) : Prop where
  filed : σ.Filed
  family : σ.Family
  housed : σ.Housed

theorem Placed.opening (hσ : σ.Placed) (ho : Opening σ τ) : τ.Placed :=
  ⟨hσ.filed.opening ho, hσ.family.opening ho, hσ.housed.opening hσ.family ho⟩

theorem Placed.ending (hσ : σ.Placed) (he : Ending σ τ) : τ.Placed :=
  ⟨hσ.filed.ending he, hσ.family.ending he, hσ.housed.ending hσ.family he⟩

end Census

namespace Pool

theorem placed_new {c : Config} {p : Pool} (h : new c = .ok p) : p.census.Placed := by
  refine ⟨filed_new h, family_new h, ?_⟩
  rw [census_new h]
  refine ⟨?_, ?_, ?_⟩
  · rintro i ⟨⟩
  · rintro i peer k ⟨⟩
  · rintro i peer k ⟨⟩

theorem placed_run {c : Config} {p : Pool} (h : new c = .ok p) (ops : List Op) :
    (p.atRest.run ops).pool.census.Placed :=
  System.census_run (fun _ _ ho hσ => hσ.opening ho) (fun _ _ he hσ => hσ.ending he)
    (s := p.atRest) (placed_new h) ops

end Pool

/-! ## A connected connection stays as it is -/

/-- Two states of a connection between which its ends, its parent and its place on a port
have not changed. -/
structure Status.SameEnds (s t : Status) : Prop where
  generation : s.generation = t.generation
  phase : s.phase = t.phase
  parent : s.kin.parent? = t.kin.parent?
  peer : s.peer = t.peer
  lport : s.options.lport = t.options.lport
  registered : s.registered = t.registered

namespace Status

theorem SameEnds.refl (s : Status) : s.SameEnds s := ⟨rfl, rfl, rfl, rfl, rfl, rfl⟩

theorem SameEnds.trans {s t u : Status} (h₁ : s.SameEnds t) (h₂ : t.SameEnds u) : s.SameEnds u :=
  ⟨h₁.generation.trans h₂.generation, h₁.phase.trans h₂.phase, h₁.parent.trans h₂.parent,
    h₁.peer.trans h₂.peer, h₁.lport.trans h₂.lport, h₁.registered.trans h₂.registered⟩

theorem Alike.sameEnds {s t : Status} (h : s.Alike t) : s.SameEnds t :=
  ⟨h.generation, h.phase, h.parent, h.peer, by rw [h.options], h.registered⟩

end Status

namespace Census

variable {σ τ : Census} {i : Nat}

theorem sameEnds_alter {k : Nat} {f : Status → Status}
    (hf : k = i → (f (σ.status i)).SameEnds (σ.status i)) :
    ((σ.alter k f).status i).SameEnds (σ.status i) := by
  by_cases hk : i = k
  · subst hk
    rw [status_alter_self]
    exact hf rfl
  · rw [status_alter_of_ne hk]
    exact .refl _

theorem Opening.sameEnds (ho : Opening σ τ) (hc : (σ.status i).phase = .connected) :
    (τ.status i).SameEnds (σ.status i) := by
  -- most openings are made on a slot in another phase
  have hne : ∀ {k : Nat} {phase : Phase}, (σ.status k).phase = phase → phase ≠ .connected →
      k ≠ i := by
    rintro k phase hk hphase rfl
    exact hphase (hk.symm.trans hc)
  cases ho with
  | claim size free => exact sameEnds_alter fun hk => absurd hk (hne free (by simp))
  | attach live closed bindable =>
    exact sameEnds_alter fun hk => absurd hk (hne closed (by simp))
  | listen live bound table =>
    rw [status_withPorts]
    exact sameEnds_alter fun hk => absurd hk (hne bound (by simp))
  | link live idle table =>
    rw [status_withPorts]
    refine sameEnds_alter fun hk => absurd hk ?_
    obtain hp | hp := idle
    · exact hne hp (by simp)
    · exact hne hp (by simp)
  | rank live =>
    rw [status_rank]
    exact sameEnds_alter fun _ => ⟨rfl, rfl, rfl, rfl, rfl, rfl⟩
  | retime live => exact sameEnds_alter fun _ => ⟨rfl, rfl, rfl, rfl, rfl, rfl⟩
  | @adopt parent child peer children live listens server unknown childLive fresh =>
    have hchild : ((σ.alter child.index (Status.fostered parent
        (σ.status parent.index).options peer)).status i).SameEnds (σ.status i) :=
      sameEnds_alter fun hk => absurd hk (hne fresh.1 (by simp))
    unfold Census.adopt
    exact (sameEnds_alter fun hk => absurd hk (hne listens (by simp))).trans hchild

theorem Openings.sameEnds (ho : Openings σ τ) (hc : (σ.status i).phase = .connected) :
    (τ.status i).SameEnds (σ.status i) := by
  induction ho with
  | refl => exact .refl _
  | tail _ ho ih => exact (ho.sameEnds (ih.phase.trans hc)).trans ih

/-- Who is connected before and not closed after is the same in between. -/
theorem Moves.sameEnds (hm : Moves σ τ) (hc : (σ.status i).phase = .connected)
    (ha : (τ.status i).phase.isActive = true) : (τ.status i).SameEnds (σ.status i) := by
  obtain ⟨ρ, ho, he⟩ := hm
  exact (he.recedes.active i ha).sameEnds.trans (ho.sameEnds hc)

end Census

namespace System

open Pool (Op)

/-- A connection is connected throughout a run: before the first step and after each. -/
def StaysConnected (s : System) (c : Handle) (ops : List Op) : Prop :=
  ∀ pre, pre <+: ops → (s.run pre).pool.In c .connected

instance (s : System) (c : Handle) (ops : List Op) : Decidable (s.StaysConnected c ops) :=
  decidable_of_iff (∀ pre ∈ ops.inits, (s.run pre).pool.In c .connected) <| by
    simp only [List.mem_inits, StaysConnected]

variable {s : System} {c : Handle} {ops : List Op}

theorem StaysConnected.last (h : s.StaysConnected c ops) : (s.run ops).pool.In c .connected :=
  h ops (List.prefix_refl _)

theorem StaysConnected.of_snoc {op : Op} (h : s.StaysConnected c (ops ++ [op])) :
    s.StaysConnected c ops :=
  fun pre hpre => h pre (hpre.trans (List.prefix_append _ _))

/-- As long as it stays connected, a connection keeps its ends, its parent and its place on
a port. -/
theorem StaysConnected.sameEnds (h : s.StaysConnected c ops) :
    ((s.run ops).pool.census.status c.index).SameEnds (s.pool.census.status c.index) := by
  induction ops using List.reverseRecOn with
  | nil => exact .refl _
  | append_singleton ops op ih =>
    have hbefore := Pool.in_iff.1 h.of_snoc.last
    have hafter := Pool.in_iff.1 h.last
    rw [run_snoc] at hafter ⊢
    refine ((moves_step _ op).sameEnds hbefore.2 ?_).trans (ih h.of_snoc)
    rw [hafter.2]
    rfl

end System

/-! ## Who a packet is offered to -/

namespace Pool

variable {p : Pool} {peer : Peer} {m : PortMember} {d : UInt8} {h c k : Handle}

/-- No connection but `c` is on a slot of the port table. -/
def Sole (p : Pool) (slot : UInt8) (c : Handle) : Prop :=
  ∀ ms, p.ports.members slot = .ok ms → ∀ m ∈ ms, m.conn = c

instance (p : Pool) (slot : UInt8) (c : Handle) : Decidable (p.Sole slot c) :=
  decidable_of_iff (∀ m ∈ (p.ports.members slot).toOption.getD [], m.conn = c) <| by
    unfold Sole
    cases p.ports.members slot with
    | error e => simp [Except.toOption]
    | ok ms => simp [Except.toOption]

/-- A connection takes packets from `peer`: it listens, or is connected to such a peer. -/
def Takes (p : Pool) (peer : Peer) (h : Handle) : Prop :=
  ∃ s, p.slot? h = some s ∧ (s.phase = .listen ∨
    s.phase = .connected ∧ s.options.acceptsPeer peer.addr peer.port = true)

instance (p : Pool) (peer : Peer) (h : Handle) : Decidable (p.Takes peer h) :=
  Option.decidableExistsMem (p.slot? h)

/-- Somebody on a slot of the port table takes packets from `peer`. -/
def Served (p : Pool) (slot : UInt8) (peer : Peer) : Prop :=
  ∃ ms, p.ports.members slot = .ok ms ∧ ∃ m ∈ ms, p.Takes peer m.conn

instance (p : Pool) (slot : UInt8) (peer : Peer) : Decidable (p.Served slot peer) :=
  decidable_of_iff (∃ m ∈ (p.ports.members slot).toOption.getD [], p.Takes peer m.conn) <| by
    unfold Served
    cases p.ports.members slot with
    | error e => simp [Except.toOption]
    | ok ms => simp [Except.toOption]

/-- The first connection on a slot of the port table that takes packets from `peer`. -/
def First (p : Pool) (slot : UInt8) (peer : Peer) (c : Handle) : Prop :=
  ∃ ms₁ m ms₂, p.ports.members slot = .ok (ms₁ ++ m :: ms₂) ∧ m.conn = c ∧ p.Takes peer c ∧
    ∀ m' ∈ ms₁, ¬ p.Takes peer m'.conn

theorem takes_of_slot? {s : Slot} (hs : p.slot? c = some s) :
    p.Takes peer c ↔ s.phase = .listen ∨
      s.phase = .connected ∧ s.options.acceptsPeer peer.addr peer.port = true := by
  constructor
  · rintro ⟨t, ht, htakes⟩
    rw [hs] at ht
    obtain rfl := Option.some.inj ht
    exact htakes
  · exact fun htakes => ⟨s, hs, htakes⟩

theorem taker?_eq_none_iff : p.taker? peer m = none ↔ ¬ p.Takes peer m.conn := by
  unfold taker?
  cases hs : p.slot? m.conn with
  | none =>
    refine iff_of_true rfl ?_
    rintro ⟨s, hs', -⟩
    rw [hs] at hs'
    cases hs'
  | some s =>
    rw [takes_of_slot? hs]
    dsimp only
    split
    · next hc => split <;> simp_all
    · next hc => split <;> simp_all

theorem taker?_of_listen (hl : p.In m.conn .listen) :
    p.taker? peer m = some (.listener m.conn) := by
  obtain ⟨s, hs, hp⟩ := hl
  rw [taker?, hs]
  dsimp only
  rw [if_neg (by rw [hp]; simp), if_pos hp]

theorem taker?_of_connected {s : Slot} (hs : p.slot? m.conn = some s) (hc : s.phase = .connected)
    (ha : s.options.acceptsPeer peer.addr peer.port = true) :
    p.taker? peer m = some (.direct m.conn) := by
  rw [taker?, hs]
  dsimp only
  rw [if_pos hc, if_pos ha]

theorem taker?_eq_direct (ht : p.taker? peer m = some (.direct k)) :
    m.conn = k ∧ p.In k .connected ∧ p.Takes peer k := by
  unfold taker? at ht
  split at ht
  · cases ht
  · next s hs =>
    split at ht
    · next hc =>
      split at ht
      · next ha =>
        cases ht
        exact ⟨rfl, ⟨s, hs, hc⟩, s, hs, .inr ⟨hc, ha⟩⟩
      · cases ht
    · split at ht <;> cases ht

theorem taker?_eq_listener (ht : p.taker? peer m = some (.listener k)) :
    m.conn = k ∧ p.In k .listen := by
  unfold taker? at ht
  split at ht
  · cases ht
  · next s hs =>
    split at ht
    · split at ht <;> cases ht
    · split at ht
      · next hl =>
        cases ht
        exact ⟨rfl, s, hs, hl⟩
      · cases ht

/-- A listening connection answers with the child that it has for the peer. -/
theorem offerChild_of_listed (hl : p.In h .listen) (hc : p.listed? h peer = some c) :
    p.offerChild h peer = (p, .ok c) := by
  obtain ⟨s, hs, hp⟩ := hl
  rw [listed?, hs] at hc
  dsimp only [Option.bind_some] at hc
  unfold offerChild
  rw [slot_eq_ok_iff.2 hs]
  dsimp only
  cases hr : s.role with
  | client => rw [hr] at hc; cases hc
  | child parent => rw [hr] at hc; cases hc
  | server backlog children =>
    rw [hr] at hc
    rw [hp]
    dsimp only
    rw [show children.lookup peer = some c from hc]

theorem resolveInbound_of_direct
    (hf : (p.candidates d).findSome? (p.taker? peer) = some (.direct k)) :
    p.resolveInbound d peer = (p, .ok (some k)) := by
  rw [resolveInbound, hf]

theorem mem_of_direct (hf : (p.candidates d).findSome? (p.taker? peer) = some (.direct k)) :
    ∃ m ∈ p.candidates d, m.conn = k ∧ p.In k .connected ∧ p.Takes peer k := by
  obtain ⟨m, hm, ht⟩ := List.exists_of_findSome?_eq_some hf
  exact ⟨m, hm, taker?_eq_direct ht⟩

/-- How a connection comes to be the one that a packet reaches: it takes the packet itself,
or a listening connection takes it, which has this child or gets it now. -/
theorem resolveInbound_cases (hok : (p.resolveInbound d peer).2 = .ok (some k)) :
    ((p.candidates d).findSome? (p.taker? peer) = some (.direct k) ∧
      (p.resolveInbound d peer).1 = p) ∨
    (∃ m ∈ p.candidates d, p.In m.conn .listen ∧ p.listed? m.conn peer = some k ∧
      (p.resolveInbound d peer).1 = p) ∨
    ∃ m ∈ p.candidates d, p.In m.conn .listen ∧ p.census.Offer m.conn k peer ∧
      (p.resolveInbound d peer).1.census = p.census.offered m.conn k peer := by
  unfold resolveInbound at hok ⊢
  cases hf : (p.candidates d).findSome? (p.taker? peer) with
  | none =>
    rw [hf] at hok
    cases hok
  | some taker =>
    rw [hf] at hok
    cases taker with
    | direct conn =>
      obtain rfl : conn = k := Option.some.inj (Except.ok.inj hok)
      exact .inl ⟨rfl, rfl⟩
    | listener conn =>
      obtain ⟨m, hm, ht⟩ := List.exists_of_findSome?_eq_some hf
      obtain ⟨rfl, hl⟩ := taker?_eq_listener ht
      right
      dsimp only at hok ⊢
      obtain ⟨e, he⟩ | ⟨children, c, hlive, hkin, hc, he⟩ | ⟨child, o, ⟨he, hc⟩ | ⟨e, he, -⟩⟩ :=
        offerChild_cases p m.conn peer
      · rw [he] at hok
        cases hok
      · rw [he] at hok ⊢
        obtain rfl : c = k := Option.some.inj (Except.ok.inj hok)
        refine .inl ⟨m, hm, hl, ?_, rfl⟩
        rw [listed?_of_live hlive, Status.child?, hkin]
        exact hc
      · generalize p.offerChild m.conn peer = answer at he hc hok ⊢
        obtain ⟨q, result⟩ := answer
        obtain rfl : result = .ok child := he
        obtain rfl : child = k := Option.some.inj (Except.ok.inj hok)
        exact .inr ⟨m, hm, hl, o, hc⟩
      · generalize p.offerChild m.conn peer = answer at he hok
        obtain ⟨q, result⟩ := answer
        obtain rfl : result = .error e := he
        cases hok

/-- A registered connection is never reached through a listening one. -/
theorem resolveInbound_registered_iff (hp : p.census.Placed) (hl : p.census.Live c)
    (hr : (p.census.status c.index).registered = true) :
    (p.resolveInbound d peer).2 = .ok (some c) ↔
      (p.candidates d).findSome? (p.taker? peer) = some (.direct c) := by
  constructor
  · intro hok
    obtain ⟨hf, -⟩ | ⟨m, -, hlisten, hc, -⟩ | ⟨m, -, -, o, -⟩ := resolveInbound_cases hok
    · exact hf
    · -- the children in a map are on no port
      rw [listed?_of_live (in_iff.1 hlisten).1] at hc
      rw [hp.housed.apart _ _ _ hc] at hr
      cases hr
    · -- a new child gets a slot that was free
      exact absurd o.free hl.2
  · intro hf
    rw [resolveInbound_of_direct hf]

/-- Who a packet for a port is offered to is registered on this port or on the shared slot. -/
theorem files_of_mem_candidates (hp : p.census.Filed) (hm : m ∈ p.candidates d) :
    p.census.Live m.conn ∧ (p.census.status m.conn.index).registered = true ∧
      ((p.census.status m.conn.index).options.lport = d ∧ d ≤ portMax ∨
        (p.census.status m.conn.index).options.lport = Port.sharedSlot) := by
  -- a list of members that is looked up is the list of some slot, or is empty
  have hlist : ∀ (slot : UInt8), m ∈ (p.ports.members slot).toOption.getD [] →
      p.census.Live m.conn ∧ (p.census.status m.conn.index).registered = true ∧
        (p.census.status m.conn.index).options.lport = slot := by
    intro slot hmem
    cases hms : p.ports.members slot with
    | error e =>
      rw [hms] at hmem
      cases hmem
    | ok ms =>
      rw [hms] at hmem
      obtain ⟨j, hj, rfl⟩ := PortTable.members_eq_ok_iff.1 hms
      have hfiles := hp.member j m hmem
      refine ⟨⟨hfiles.generation, ?_⟩, hfiles.registered, ?_⟩
      · obtain ha | ha := hp.active _ hfiles.registered <;> rw [ha] <;> simp
      · exact UInt8.toNat_inj.1 (hfiles.lport.trans hj.symm)
  rw [candidates] at hm
  obtain hm | hm := List.mem_append.1 hm
  · split at hm
    · next hd =>
      obtain ⟨hl, hr, hport⟩ := hlist d hm
      exact ⟨hl, hr, .inl ⟨hport, hd⟩⟩
    · cases hm
  · obtain ⟨hl, hr, hport⟩ := hlist Port.sharedSlot hm
    exact ⟨hl, hr, .inr hport⟩

/-- A registered connection is among the members of its slot. -/
theorem exists_member_of_registered (hp : p.census.Filed) (hl : p.census.Live c)
    (hr : (p.census.status c.index).registered = true) :
    ∃ ms, p.ports.members (p.census.status c.index).options.lport = .ok ms ∧
      ∃ m ∈ ms, m.conn = c := by
  obtain ⟨j, hj, m, hm, hc⟩ := hp.exists_mem hr
  rw [hl.eta] at hc
  exact ⟨_, PortTable.members_eq_ok_iff.2 ⟨j, hj, rfl⟩, m, hm, hc⟩

theorem lport_of_member (hp : p.census.Filed) {slot : UInt8} {ms : List PortMember}
    (hms : p.ports.members slot = .ok ms) (hm : m ∈ ms) :
    (p.census.status m.conn.index).options.lport = slot := by
  obtain ⟨j, hj, rfl⟩ := PortTable.members_eq_ok_iff.1 hms
  exact UInt8.toNat_inj.1 ((hp.member j m hm).lport.trans hj.symm)

theorem members_of_le (hd : d ≤ portMax) : ∃ ms, p.ports.members d = .ok ms := by
  have hlt : d.toNat < Port.slotCount :=
    Nat.lt_of_le_of_lt (UInt8.le_iff_toNat_le.1 hd) (by decide)
  exact ⟨_, PortTable.members_eq_ok_iff.2 ⟨⟨d.toNat, hlt⟩, rfl, rfl⟩⟩

theorem members_sharedSlot : ∃ ms, p.ports.members Port.sharedSlot = .ok ms :=
  ⟨_, PortTable.members_eq_ok_iff.2 ⟨⟨32, by decide⟩, rfl, rfl⟩⟩

/-- Every slot is that of a port number or the shared one. -/
theorem le_or_eq_of_members {slot : UInt8} {ms : List PortMember}
    (hms : p.ports.members slot = .ok ms) : slot ≤ portMax ∨ slot = Port.sharedSlot := by
  obtain ⟨j, hj, -⟩ := PortTable.members_eq_ok_iff.1 hms
  have hlt : j.val < 33 := j.isLt
  by_cases hle : slot ≤ portMax
  · exact .inl hle
  · right
    have hgt : portMax.toNat < slot.toNat := UInt8.lt_iff_toNat_lt.1 (UInt8.not_le.1 hle)
    rw [show portMax.toNat = 31 from rfl] at hgt
    exact UInt8.toNat_inj.1 (by rw [show Port.sharedSlot.toNat = 32 from rfl]; omega)

/-- The members of a port come before those of the shared slot. -/
theorem candidates_eq {named shared : List PortMember} (hd : d ≤ portMax)
    (hnamed : p.ports.members d = .ok named)
    (hshared : p.ports.members Port.sharedSlot = .ok shared) :
    p.candidates d = named ++ shared := by
  rw [candidates, if_pos hd, hnamed, hshared]
  rfl

theorem findSome?_eq_none_iff {slot : UInt8} {ms : List PortMember}
    (hms : p.ports.members slot = .ok ms) :
    ms.findSome? (p.taker? peer) = none ↔ ¬ p.Served slot peer := by
  rw [List.findSome?_eq_none_iff]
  constructor
  · rintro hnone ⟨ms', hms', m, hm, htakes⟩
    obtain rfl := Except.ok.inj (hms.symm.trans hms')
    exact taker?_eq_none_iff.1 (hnone m hm) htakes
  · exact fun hno m hm => taker?_eq_none_iff.2 fun htakes => hno ⟨ms, hms, m, hm, htakes⟩

/-- Who is connected takes a packet itself, if nobody before it on the slot does. -/
theorem findSome?_eq_direct_iff {slot : UInt8} {ms : List PortMember}
    (hms : p.ports.members slot = .ok ms) (hc : p.In c .connected) :
    ms.findSome? (p.taker? peer) = some (.direct c) ↔ p.First slot peer c := by
  rw [List.findSome?_eq_some_iff]
  constructor
  · rintro ⟨ms₁, m, ms₂, rfl, ht, hbefore⟩
    obtain ⟨hm, -, htakes⟩ := taker?_eq_direct ht
    exact ⟨ms₁, m, ms₂, hms, hm, htakes, fun m' hm' => taker?_eq_none_iff.1 (hbefore m' hm')⟩
  · rintro ⟨ms₁, m, ms₂, hms', rfl, ⟨s, hs, htakes⟩, hbefore⟩
    obtain rfl := Except.ok.inj (hms.symm.trans hms')
    refine ⟨ms₁, m, ms₂, rfl, ?_, fun m' hm' => taker?_eq_none_iff.2 (hbefore m' hm')⟩
    obtain ⟨t, ht, hp⟩ := hc
    obtain rfl := Option.some.inj (hs.symm.trans ht)
    obtain hl | ⟨-, ha⟩ := htakes
    · rw [hp] at hl
      cases hl
    · exact taker?_of_connected hs hp ha

/-- A connected connection is asked first if it is first on the port, or on the shared slot
and nobody on the port takes the packet. -/
theorem direct_iff (hd : d ≤ portMax) (hc : p.In c .connected) :
    (p.candidates d).findSome? (p.taker? peer) = some (.direct c) ↔
      p.First d peer c ∨ (¬ p.Served d peer ∧ p.First Port.sharedSlot peer c) := by
  obtain ⟨named, hnamed⟩ := members_of_le (p := p) hd
  obtain ⟨shared, hshared⟩ := members_sharedSlot (p := p)
  rw [candidates_eq hd hnamed hshared, List.findSome?_append, ← findSome?_eq_direct_iff hnamed hc,
    ← findSome?_eq_direct_iff hshared hc, ← findSome?_eq_none_iff hnamed]
  cases named.findSome? (p.taker? peer) with
  | none => simp
  | some taker => simp

/-- Whose connection is alone on its slot is at the head of the list. -/
theorem members_of_sole {slot : UInt8} (hp : p.census.Filed) (hl : p.census.Live c)
    (hr : (p.census.status c.index).registered = true)
    (hport : (p.census.status c.index).options.lport = slot) (hsole : p.Sole slot c) :
    ∃ m ms, p.ports.members slot = .ok (m :: ms) ∧ m.conn = c := by
  obtain ⟨ms, hms, m, hm, -⟩ := exists_member_of_registered hp hl hr
  rw [hport] at hms
  cases ms with
  | nil => cases hm
  | cons x xs => exact ⟨x, xs, hms, hsole _ hms x List.mem_cons_self⟩

end Pool

end Netstack
