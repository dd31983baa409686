import Netstack.Proofs.Pool.Inbound

/-
Whether a reply reaches the connection that asked.

A connection that was connected to a peer sends its packets from the port of its slot, and
the peer answers to this port. Who is alone on a port of its own gets the answer. The
shared slot has no port of its own: its packets carry port zero, and an answer to port zero
is offered to the members of port zero first. So a connection in the shared slot gets the
answer exactly if none of them takes it.
-/

set_option autoImplicit false

namespace Netstack

/-- A connection got connected to `peer` by a `connect` of the run, and has stayed so. -/
def System.ConnectedTo (s : System) (ops : List Pool.Op) (c : Handle) (peer : Peer) : Prop :=
  ∃ pre post, ops = pre ++ [.connect c peer] ++ post ∧ ¬ (s.run pre).pool.In c .connected ∧
    (s.run (pre ++ [.connect c peer])).StaysConnected c post

namespace Pool

variable {p : Pool} {c : Handle} {peer : Peer}

/-- Who gets connected by `connect` is on its port and has this peer. -/
theorem linked_of_connect (hbefore : ¬ p.In c .connected)
    (hafter : (p.connect c peer).1.In c .connected) :
    ((p.connect c peer).1.census.status c.index).registered = true ∧
      ((p.connect c peer).1.census.status c.index).peer = peer := by
  obtain ⟨e, he⟩ | ⟨lport, t, -, -, -, hc⟩ := connect_cases p c peer
  · rw [he] at hafter
    exact absurd hafter hbefore
  · rw [hc, Census.status_withPorts, Census.status_alter_self]
    exact ⟨rfl, rfl⟩

end Pool

namespace System

variable {s : System} {ops : List Pool.Op} {c : Handle} {peer : Peer}

/-- As long as it is connected, such a connection is on its port and has the peer. -/
theorem ConnectedTo.linked (h : s.ConnectedTo ops c peer) :
    (s.run ops).pool.In c .connected ∧
      ((s.run ops).pool.census.status c.index).registered = true ∧
      ((s.run ops).pool.census.status c.index).peer = peer := by
  obtain ⟨pre, post, rfl, hbefore, hconn⟩ := h
  have hfirst := hconn [] List.nil_prefix
  rw [run_nil, run_snoc] at hfirst
  obtain ⟨hreg, hpeer⟩ := Pool.linked_of_connect hbefore hfirst
  -- nothing of this changes while the connection stays connected
  have hsame := hconn.sameEnds
  rw [run_append]
  rw [run_snoc s pre] at hsame hconn ⊢
  exact ⟨hconn.last, hsame.registered.trans hreg, hsame.peer.trans hpeer⟩

end System

namespace Pool

/-- A connection that was connected to a peer, and is alone on its port, is the one that a
packet of the peer reaches that answers to the port its packets carry, but for this: it is
in the shared slot, and somebody on port zero takes the packet. -/
theorem reply_reaches_iff {conf : Config} {p : Pool} (hnew : new conf = .ok p) (ops : List Op)
    {c : Handle} {peer : Peer} (hconn : p.atRest.ConnectedTo ops c peer)
    (halone : ∀ s ∈ (p.atRest.run ops).pool.slot? c,
      (p.atRest.run ops).pool.Sole s.options.lport c) :
    ∃ s, (p.atRest.run ops).pool.slot? c = some s ∧
      (((p.atRest.run ops).pool.resolveInbound (Port.wirePort s.options.lport) peer).2 =
          .ok (some c) ↔
        ¬ (s.options.lport = Port.sharedSlot ∧ (p.atRest.run ops).pool.Served 0 peer)) := by
  have hplaced := placed_run hnew ops
  obtain ⟨⟨s, hs, hphase⟩, hreg, hpeer⟩ := hconn.linked
  generalize (p.atRest.run ops).pool = q at *
  have hl := live_of_slot? hs
  have hstatus := status_of_slot? hs
  have hport : (q.census.status c.index).options.lport = s.options.lport := by
    rw [hstatus]
    rfl
  refine ⟨s, hs, ?_⟩
  -- it takes packets of its peer, and nobody on its slot is asked before it
  have htakes : q.Takes peer c := by
    refine ⟨s, hs, .inr ⟨hphase, ?_⟩⟩
    rw [← hpeer, hstatus]
    simp [Options.acceptsPeer, Status.peer, Slot.status]
  obtain ⟨m, ms, hms, hm⟩ := members_of_sole hplaced.filed hl hreg hport (halone s hs)
  have hfirst : q.First s.options.lport peer c := ⟨[], m, ms, hms, hm, htakes, by simp⟩
  rw [resolveInbound_registered_iff hplaced hl hreg]
  obtain hnamed | hshared := le_or_eq_of_members hms
  · have hne : s.options.lport ≠ Port.sharedSlot := by
      intro heq
      rw [heq] at hnamed
      exact absurd hnamed (by decide)
    rw [Port.wirePort, if_pos hnamed, direct_iff hnamed ⟨s, hs, hphase⟩]
    exact iff_of_true (.inl hfirst) fun h => hne h.1
  · rw [hshared] at hfirst hport ⊢
    -- the members of port zero are on port zero, and so not `c`
    have hnot : ¬ q.First 0 peer c := by
      rintro ⟨ms₁, m, ms₂, hms, rfl, -⟩
      rw [lport_of_member hplaced.filed hms (by simp)] at hport
      cases hport
    rw [show Port.wirePort Port.sharedSlot = 0 from rfl, direct_iff (by decide) ⟨s, hs, hphase⟩]
    constructor
    · rintro (h | ⟨hno, -⟩) ⟨-, hserved⟩
      · exact hnot h
      · exact hno hserved
    · exact fun h => .inr ⟨fun hserved => h ⟨rfl, hserved⟩, hfirst⟩

/-- A connection that was never bound asks, somebody listens on port zero, and the answer
goes to a child of the listener. -/
theorem reply_taken_on_port_zero :
    ∃ p, new { maxConnections := 3 } = .ok p ∧
      p.atRest.ConnectedTo [.alloc, .connect ⟨0, 0⟩ ⟨0x42, 3⟩, .alloc, .bind ⟨1, 0⟩ 0,
        .listen ⟨1, 0⟩ 4] ⟨0, 0⟩ ⟨0x42, 3⟩ ∧
      let q := (p.atRest.run [.alloc, .connect ⟨0, 0⟩ ⟨0x42, 3⟩, .alloc, .bind ⟨1, 0⟩ 0,
        .listen ⟨1, 0⟩ 4]).pool
      (q.slot? ⟨0, 0⟩).map (·.options.lport) = some Port.sharedSlot ∧
        q.Sole Port.sharedSlot ⟨0, 0⟩ ∧
        (q.resolveInbound (Port.wirePort Port.sharedSlot) ⟨0x42, 3⟩).2 = .ok (some ⟨2, 0⟩) :=
  ⟨_, rfl, ⟨[.alloc], [.alloc, .bind ⟨1, 0⟩ 0, .listen ⟨1, 0⟩ 4], rfl, by decide +kernel,
    by decide +kernel⟩, by decide +kernel, by decide +kernel, by decide +kernel⟩

/-- The same connection with a listener on another port gets its answer. -/
theorem reply_reaches_past_listener :
    ∃ p, new { maxConnections := 3 } = .ok p ∧
      let ops := [.alloc, .connect ⟨0, 0⟩ ⟨0x42, 3⟩, .alloc, .bind ⟨1, 0⟩ 5, .listen ⟨1, 0⟩ 4]
      (p.atRest.ConnectedTo ops ⟨0, 0⟩ ⟨0x42, 3⟩ ∧
        (∀ s ∈ (p.atRest.run ops).pool.slot? ⟨0, 0⟩,
          (p.atRest.run ops).pool.Sole s.options.lport ⟨0, 0⟩) ∧
        ¬ (p.atRest.run ops).pool.Served 0 ⟨0x42, 3⟩) ∧
      ∃ s, (p.atRest.run ops).pool.slot? ⟨0, 0⟩ = some s ∧
        ((p.atRest.run ops).pool.resolveInbound (Port.wirePort s.options.lport) ⟨0x42, 3⟩).2 =
          .ok (some ⟨0, 0⟩) := by
  refine ⟨_, rfl, ?_⟩
  intro ops
  refine (and_iff_left_of_imp ?_).2 ⟨⟨[.alloc], [.alloc, .bind ⟨1, 0⟩ 5, .listen ⟨1, 0⟩ 4], rfl,
    by decide +kernel, by decide +kernel⟩, by decide +kernel, by decide +kernel⟩
  rintro ⟨hconn, halone, hserved⟩
  have hnew : new { maxConnections := 3 } = .ok _ := rfl
  obtain ⟨s, hs, hiff⟩ := reply_reaches_iff hnew ops hconn halone
  exact ⟨s, hs, hiff.2 fun h => hserved h.2⟩

end Pool

end Netstack
