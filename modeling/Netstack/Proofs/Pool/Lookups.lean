import Netstack.Proofs.Pool.Freshness
import Netstack.Proofs.Pool.Inbound

/-
What the lookup of an inbound packet comes to, and that it comes to it again.

The first member of the two lists that takes the packet decides alone: a connected one is
the answer, and a listening one is offered a child, whatever comes of that. So a lookup
changes the pool only where a child is made. The child is on no port, and its parent has an
entry for it from then on; a second lookup finds the same lists, stops at the same member
and is answered with the entry.
-/

set_option autoImplicit false

namespace Netstack

namespace Census

variable {σ : Census} {parent child : Handle} {peer : Peer} {i : Nat}

/-- A new child is the only connection that changes in what a packet is judged by. -/
theorem Offer.options_of_ne (o : σ.Offer parent child peer) (hi : i ≠ child.index) :
    ((σ.offered parent child peer).status i).options = (σ.status i).options := by
  by_cases hp : i = parent.index
  · rw [hp, o.status_parent]
  · rw [offered, status_adopt_of_ne hp hi, status_alter_of_ne hi]

/-- From now on the parent has an entry for its new child. -/
theorem Offer.child?_parent (o : σ.Offer parent child peer) :
    ((σ.offered parent child peer).status parent.index).child? peer = some child := by
  obtain ⟨children, hkin, -⟩ := o.server
  rw [o.status_parent, Status.child?, hkin]
  change ((peer, child) :: children).lookup peer = some child
  rw [List.lookup_cons, beq_self_eq_true]

end Census

namespace Pool

variable {p q : Pool} {d : UInt8} {peer : Peer} {m : PortMember} {L : List PortMember}
  {c k : Handle}

/-- The sockets that a packet for a port is offered to, in order: the list of the port, if it
is one, and the list of the shared slot. -/
def Lineup (p : Pool) (d : UInt8) (L : List PortMember) : Prop :=
  ∃ named shared,
    (if d ≤ portMax then p.ports.members d = .ok named else named = []) ∧
      p.ports.members Port.sharedSlot = .ok shared ∧ L = named ++ shared

/-- The first member of a list whose connection takes packets from `peer`. -/
def Foremost (p : Pool) (peer : Peer) (L : List PortMember) (m : PortMember) : Prop :=
  ∃ before after, L = before ++ m :: after ∧ p.Takes peer m.conn ∧
    ∀ m' ∈ before, ¬ p.Takes peer m'.conn

theorem lineup_candidates (p : Pool) (d : UInt8) : p.Lineup d (p.candidates d) := by
  obtain ⟨shared, hshared⟩ := members_sharedSlot (p := p)
  by_cases hd : d ≤ portMax
  · obtain ⟨named, hnamed⟩ := members_of_le (p := p) hd
    exact ⟨named, shared, by rwa [if_pos hd], hshared, candidates_eq hd hnamed hshared⟩
  · refine ⟨[], shared, by rw [if_neg hd], hshared, ?_⟩
    rw [candidates, if_neg hd, hshared]
    rfl

/-! ## Who decides -/

theorem resolveInbound_of_nobody (hno : ∀ m ∈ p.candidates d, ¬ p.Takes peer m.conn) :
    p.resolveInbound d peer = (p, .ok none) := by
  have hnone : (p.candidates d).findSome? (p.taker? peer) = none :=
    List.findSome?_eq_none_iff.2 fun m hm => taker?_eq_none_iff.2 (hno m hm)
  rw [resolveInbound, hnone]

theorem Foremost.findSome? (h : p.Foremost peer L m) :
    L.findSome? (p.taker? peer) = p.taker? peer m := by
  obtain ⟨before, after, rfl, htakes, hbefore⟩ := h
  have hnone : before.findSome? (p.taker? peer) = none :=
    List.findSome?_eq_none_iff.2 fun m' hm' => taker?_eq_none_iff.2 (hbefore m' hm')
  rw [List.findSome?_append, hnone, Option.none_or, List.findSome?_cons]
  cases ht : p.taker? peer m with
  | none => exact absurd htakes (taker?_eq_none_iff.1 ht)
  | some taker => rfl

theorem resolveInbound_of_listener
    (hf : (p.candidates d).findSome? (p.taker? peer) = some (.listener k)) :
    p.resolveInbound d peer = ((p.offerChild k peer).1, (p.offerChild k peer).2.map some) := by
  rw [resolveInbound, hf]
  dsimp only
  split <;> rename_i hq <;> rw [hq] <;> rfl

theorem Foremost.resolveInbound (h : p.Foremost peer (p.candidates d) m) :
    (p.In m.conn .connected ∧ p.resolveInbound d peer = (p, .ok (some m.conn))) ∨
    (p.In m.conn .listen ∧ p.resolveInbound d peer =
      ((p.offerChild m.conn peer).1, (p.offerChild m.conn peer).2.map some)) := by
  have hfind := h.findSome?
  obtain ⟨before, after, -, ⟨s, hs, hl | ⟨hc, ha⟩⟩, -⟩ := h
  · right
    rw [taker?_of_listen ⟨s, hs, hl⟩] at hfind
    exact ⟨⟨s, hs, hl⟩, resolveInbound_of_listener hfind⟩
  · left
    rw [taker?_of_connected hs hc ha] at hfind
    exact ⟨⟨s, hs, hc⟩, resolveInbound_of_direct hfind⟩

/-! ## The second time -/

/-- Whether a connection takes a packet, and how, depends on its phase and its options. -/
theorem taker?_congr (hl : p.census.Live m.conn)
    (hphase : (q.census.status m.conn.index).phase = (p.census.status m.conn.index).phase)
    (hgen : (q.census.status m.conn.index).generation =
      (p.census.status m.conn.index).generation)
    (hoptions : (q.census.status m.conn.index).options =
      (p.census.status m.conn.index).options) :
    q.taker? peer m = p.taker? peer m := by
  have hl' : q.census.Live m.conn := ⟨hgen.trans hl.1, by rw [hphase]; exact hl.2⟩
  obtain ⟨s, hs⟩ := live_iff.1 hl
  obtain ⟨t, ht⟩ := live_iff.1 hl'
  rw [status_of_slot? hs, status_of_slot? ht] at hphase hoptions
  change t.phase = s.phase at hphase
  change t.options = s.options at hoptions
  rw [taker?, taker?, hs, ht]
  dsimp only
  rw [hphase, hoptions]

/-- Whoever asks everybody in a list gets the same answer from those who answer alike. -/
theorem findSome?_taker?_congr (hsame : ∀ m ∈ L, q.taker? peer m = p.taker? peer m) :
    L.findSome? (q.taker? peer) = L.findSome? (p.taker? peer) := by
  induction L with
  | nil => rfl
  | cons m L ih =>
    rw [List.findSome?_cons, List.findSome?_cons, hsame m List.mem_cons_self,
      ih fun m' hm' => hsame m' (List.mem_cons_of_mem m hm')]

/-- A new child is on no port, so every packet is offered to the same connections as before,
and they judge it in the same way. -/
theorem findSome?_offered {parent : Handle} (hf : p.census.Filed)
    (o : p.census.Offer parent c peer) (hq : q.census = p.census.offered parent c peer) :
    (q.candidates d).findSome? (q.taker? peer) = (p.candidates d).findSome? (p.taker? peer) := by
  have hports : q.ports = p.ports := congrArg Census.ports hq
  have hcandidates : q.candidates d = p.candidates d := by rw [candidates, candidates, hports]
  rw [hcandidates]
  refine findSome?_taker?_congr fun m hm => ?_
  have hl := (files_of_mem_candidates hf hm).1
  have hne : m.conn.index ≠ c.index := by
    intro heq
    exact hl.2 (heq ▸ o.free)
  refine taker?_congr hl ?_ ?_ ?_ <;> rw [hq]
  · exact (o.status_of_ne hne).1
  · exact (o.status_of_ne hne).2
  · exact o.options_of_ne hne

/-- A listening connection that was offered a peer has the child that it answered, which is
connected; and it decides over the peer's packets as before. -/
theorem offerChild_settled {parent : Handle} (hp : p.census.Placed) (hl : p.In parent .listen)
    (hok : (p.offerChild parent peer).2 = .ok c) :
    (p.offerChild parent peer).1.In c .connected ∧
      (p.offerChild parent peer).1.In parent .listen ∧
      (p.offerChild parent peer).1.listed? parent peer = some c ∧
      ((p.offerChild parent peer).1.candidates d).findSome?
          ((p.offerChild parent peer).1.taker? peer) =
        (p.candidates d).findSome? (p.taker? peer) := by
  obtain ⟨e, he⟩ | ⟨children, child, hlive, hkin, hlook, he⟩ | ⟨child, o, ⟨he, hc⟩ | ⟨e, he, -⟩⟩ :=
    offerChild_cases p parent peer
  · rw [he] at hok
    cases hok
  · -- the peer has its child already, and nothing changes
    rw [he] at hok ⊢
    obtain rfl : child = c := Except.ok.inj hok
    have hentry : (p.census.status parent.index).child? peer = some child := by
      rw [Status.child?, hkin]
      exact hlook
    have hchild := hp.family.entry_of_live hlive hentry
    exact ⟨in_iff.2 ⟨hchild.live, hchild.connected⟩, hl, (listed?_of_live hlive).trans hentry, rfl⟩
  · -- the child is new
    obtain rfl : child = c := Except.ok.inj (he.symm.trans hok)
    generalize (p.offerChild parent peer).1 = q at hc ⊢
    have hparent := o.status_of_ne o.ne
    have hlive : q.census.Live parent := by
      rw [hc, Census.Live, hparent.1, hparent.2]
      exact o.live
    refine ⟨in_iff.2 ?_, in_iff.2 ⟨hlive, ?_⟩, ?_, findSome?_offered hp.filed o hc⟩
    · rw [hc]
      exact ⟨o.live_child, o.connected_child⟩
    · rw [hc, hparent.1, o.listens]
    · rw [listed?_of_live hlive, hc, o.child?_parent]
  · rw [he] at hok
    cases hok

/-- Asked again, a lookup that found a connection finds it and changes nothing. -/
theorem resolveInbound_twice (hp : p.census.Placed)
    (hok : (p.resolveInbound d peer).2 = .ok (some k)) :
    (p.resolveInbound d peer).1.In k .connected ∧
      (p.resolveInbound d peer).1.resolveInbound d peer =
        ((p.resolveInbound d peer).1, .ok (some k)) := by
  cases hf : (p.candidates d).findSome? (p.taker? peer) with
  | none =>
    rw [resolveInbound, hf] at hok
    cases hok
  | some taker =>
    cases taker with
    | direct conn =>
      -- nothing has changed, so the second time is the first
      rw [resolveInbound_of_direct hf] at hok ⊢
      obtain rfl : conn = k := Option.some.inj (Except.ok.inj hok)
      obtain ⟨m, -, -, hconnected, -⟩ := mem_of_direct hf
      exact ⟨hconnected, resolveInbound_of_direct hf⟩
    | listener conn =>
      obtain ⟨m, -, ht⟩ := List.exists_of_findSome?_eq_some hf
      obtain ⟨rfl, hl⟩ := taker?_eq_listener ht
      rw [resolveInbound_of_listener hf] at hok ⊢
      have hchild : (p.offerChild m.conn peer).2 = .ok k := by
        cases he : (p.offerChild m.conn peer).2 with
        | error e =>
          rw [he] at hok
          cases hok
        | ok child =>
          rw [he] at hok
          exact congrArg Except.ok (Option.some.inj (Except.ok.inj hok))
      obtain ⟨hconnected, hlisten, hlisted, hsame⟩ := offerChild_settled (d := d) hp hl hchild
      refine ⟨hconnected, ?_⟩
      rw [resolveInbound_of_listener (hsame.trans hf), offerChild_of_listed hlisten hlisted]
      rfl

/-! ## After every run -/

/-- Whatever is done with a pool and with the queues and event groups of its connections,
listeners and children are on their ports. -/
theorem placed_deeds {cfg : Config} (hnew : new cfg = .ok p) (deeds : List Deed) :
    (p.unattended.run deeds).pool.census.Placed :=
  Site.census_run (fun _ _ ho hσ => hσ.opening ho) (fun _ _ he hσ => hσ.ending he)
    (s := p.unattended) (placed_new hnew) deeds

/-- After every run, the first socket that takes a packet decides: connected, it is the
answer; listening, it answers as it answers an offer, and no later one is tried. Where nobody
takes the packet there is no answer. What was found is connected, and found again. -/
theorem resolveInbound_run {cfg : Config} (hnew : new cfg = .ok p) (deeds : List Deed)
    (hq : (p.unattended.run deeds).pool = q) (d : UInt8) (peer : Peer) :
    ∃ L, q.Lineup d L ∧
      ((∀ m ∈ L, ¬ q.Takes peer m.conn) → q.resolveInbound d peer = (q, .ok none)) ∧
      (∀ m, q.Foremost peer L m →
        (q.In m.conn .connected ∧ q.resolveInbound d peer = (q, .ok (some m.conn))) ∨
        (q.In m.conn .listen ∧ q.resolveInbound d peer =
          ((q.offerChild m.conn peer).1, (q.offerChild m.conn peer).2.map some))) ∧
      ∀ r c, q.resolveInbound d peer = (r, .ok (some c)) →
        r.In c .connected ∧ r.resolveInbound d peer = (r, .ok (some c)) := by
  have hplaced : q.census.Placed := hq ▸ placed_deeds hnew deeds
  refine ⟨q.candidates d, lineup_candidates q d, resolveInbound_of_nobody,
    fun m hm => hm.resolveInbound, fun r c hfound => ?_⟩
  have hagain := resolveInbound_twice hplaced (k := c) (congrArg Prod.snd hfound)
  rw [hfound] at hagain
  exact hagain

/-- A listening connection is first on its port and gets a child for the peer, which the
second lookup finds. -/
theorem resolveInbound_run_listener :
    ∃ p, new { maxConnections := 3 } = .ok p ∧ ∃ q r,
      (p.unattended.run
        [.ask .alloc, .ask (.bind ⟨0, 0⟩ 5), .ask (.listen ⟨0, 0⟩ 4)]).pool = q ∧
        q.resolveInbound 5 ⟨0x42, 3⟩ = (r, .ok (some ⟨1, 0⟩)) ∧ r.In ⟨1, 0⟩ .connected ∧
        r.resolveInbound 5 ⟨0x42, 3⟩ = (r, .ok (some ⟨1, 0⟩)) := by
  refine ⟨_, rfl, _, _, rfl, Prod.ext rfl (by decide +kernel), ?_⟩
  have hnew : new { maxConnections := 3 } = .ok _ := rfl
  obtain ⟨L, -, -, -, hagain⟩ := resolveInbound_run hnew
    [.ask .alloc, .ask (.bind ⟨0, 0⟩ 5), .ask (.listen ⟨0, 0⟩ 4)] rfl 5 ⟨0x42, 3⟩
  exact hagain _ ⟨1, 0⟩ (Prod.ext rfl (by decide +kernel))

end Pool

end Netstack
