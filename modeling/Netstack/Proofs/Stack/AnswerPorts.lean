import Netstack.Link.Scripted
import Netstack.Proofs.Pool.Inbound
import Netstack.Proofs.Stack.Packets

/-
From which port a connection answers the packets that reach it.

A packet for a port reaches a connection of this port or of the shared slot: a member of one
of the two that takes the packet itself, or the child of a member that listens, and a child
has the local port of its parent. The packets that it sends then carry the number of its
slot. For a port of its own this is the port that the peer has sent to, and nothing that is
sent to another port reaches the same connection while it stays connected. The shared slot
is where packets for any port end up, and it has no number: what is sent from there carries
port zero.
-/

set_option autoImplicit false

namespace Netstack.Pool

variable {p q : Pool} {d : UInt8} {peer : Peer} {k : Handle}

/-- Whom a packet for a port reaches is connected, and has this local port or the shared
slot. -/
theorem lport_of_resolveInbound (hp : p.census.Placed)
    (hfound : (p.resolveInbound d peer).2 = .ok (some k)) :
    (p.resolveInbound d peer).1.In k .connected ∧
      (((p.resolveInbound d peer).1.census.status k.index).options.lport = d ∨
        ((p.resolveInbound d peer).1.census.status k.index).options.lport = Port.sharedSlot) := by
  have hport : ∀ m ∈ p.candidates d, (p.census.status m.conn.index).options.lport = d ∨
      (p.census.status m.conn.index).options.lport = Port.sharedSlot := fun m hm =>
    (files_of_mem_candidates hp.filed hm).2.2.imp And.left id
  obtain ⟨hf, he⟩ | ⟨m, hm, hlisten, hentry, he⟩ | ⟨m, hm, -, o, he⟩ := resolveInbound_cases hfound
  · -- it is on the port itself
    obtain ⟨m, hm, rfl, hin, -⟩ := mem_of_direct hf
    rw [he]
    exact ⟨hin, hport m hm⟩
  · -- it is the child that the listening connection has for the peer
    rw [he]
    rw [listed?_of_live (in_iff.1 hlisten).1] at hentry
    have hchild := hp.family.entry_of_live (in_iff.1 hlisten).1 hentry
    rw [hp.housed.lport _ _ _ (in_iff.1 hlisten).2 hentry]
    exact ⟨in_iff.2 ⟨hchild.live, hchild.connected⟩, hport m hm⟩
  · -- it is a new child
    rw [in_iff, he, o.status_child]
    exact ⟨⟨o.live_child, rfl⟩, hport m hm⟩

/-- The number that a slot's packets carry is a given port if the slot is that of the port;
those of the shared slot carry port zero. -/
theorem wirePort_eq_iff {lport : UInt8} (hd : d ≤ portMax)
    (hport : lport = d ∨ lport = Port.sharedSlot) :
    Port.wirePort lport = d ↔ lport ≠ Port.sharedSlot ∨ d = 0 := by
  obtain rfl | rfl := hport
  · have hne : lport ≠ Port.sharedSlot := by
      rintro rfl
      exact absurd hd (by decide)
    rw [Port.wirePort, if_pos hd]
    exact iff_of_true rfl (.inl hne)
  · rw [show Port.wirePort Port.sharedSlot = 0 from rfl]
    simp [eq_comm]

/-- Who has fixed the other's port takes a packet if that is the port that it carries. -/
theorem acceptsPeer_iff {o : Options} {addr : Address} {port : UInt8} (hport : o.rport ≤ portMax)
    (haddr : o.raddr = anyAddress ∨ o.raddr = addr) :
    o.acceptsPeer addr port = true ↔ port = o.rport := by
  have hne : o.rport ≠ anyPort := by
    intro heq
    rw [heq] at hport
    exact absurd hport (by decide)
  have hfrom : (o.raddr == anyAddress || o.raddr == addr) = true := by
    rw [Bool.or_eq_true, beq_iff_eq, beq_iff_eq]
    exact haddr
  rw [Options.acceptsPeer, hfrom, Bool.true_and, beq_eq_false_iff_ne.2 hne, Bool.false_or,
    beq_iff_eq, eq_comm]

/-- The packets of a connection that a packet for a port has reached carry this port, unless
the connection is on the shared slot, from where they carry port zero; so it is exactly then
that whoever is connected to the port takes them. While the connection stays connected, no
packet for another port reaches it, unless it is on the shared slot. All of this holds of
children in particular. -/
theorem answers_from_port {conf : Config} {p : Pool} (hnew : new conf = .ok p) (ops : List Op)
    {d : UInt8} (hd : d ≤ portMax) {peer : Peer} {k : Handle}
    (hfound : ((p.atRest.run ops).pool.resolveInbound d peer).2 = .ok (some k))
    {post : List Op}
    (hstays : (p.atRest.run (ops ++ [.resolveInbound d peer])).StaysConnected k post) :
    let q := (p.atRest.run (ops ++ [.resolveInbound d peer] ++ post)).pool
    ∃ s, q.slot? k = some s ∧
      (s.options.lport = d ∨ s.options.lport = Port.sharedSlot) ∧
      (Port.wirePort s.options.lport = d ↔ s.options.lport ≠ Port.sharedSlot ∨ d = 0) ∧
      (∀ {δ : Type} (node : Stack δ) (data : List UInt8) (dst : Peer) (out : Stack.Outbound),
        node.pool = q → node.outbound k data dst = .ok out →
          ∃ header, out.frame.parseHeader = some header ∧
            header.srcPort = Port.wirePort s.options.lport) ∧
      (∀ (client : Options) (addr : Address), client.rport = d →
        client.raddr = anyAddress ∨ client.raddr = addr →
          (client.acceptsPeer addr (Port.wirePort s.options.lport) = true ↔
            s.options.lport ≠ Port.sharedSlot ∨ d = 0)) ∧
      (∀ (d' : UInt8) (peer' : Peer), d' ≤ portMax →
        (q.resolveInbound d' peer').2 = .ok (some k) →
          d' = d ∨ s.options.lport = Port.sharedSlot) := by
  intro q
  obtain ⟨-, hport⟩ := lport_of_resolveInbound (placed_run hnew ops) hfound
  -- the local port is still the one with which the packet has found the connection
  have hsame := hstays.sameEnds
  rw [← System.run_append] at hsame
  rw [System.run_snoc p.atRest ops] at hsame
  change (_ : Status).SameEnds
    (((p.atRest.run ops).pool.resolveInbound d peer).1.census.status k.index) at hsame
  obtain ⟨s, hs, hphase⟩ : q.In k .connected := by
    have hlast := hstays.last
    rw [← System.run_append] at hlast
    exact hlast
  have hlport : s.options.lport = d ∨ s.options.lport = Port.sharedSlot := by
    have heq : s.options.lport = _ := (congrArg (fun t : Status => t.options.lport)
      (status_of_slot? hs)).symm.trans hsame.lport
    rw [heq]
    exact hport
  have hwire := wirePort_eq_iff hd hlport
  refine ⟨s, hs, hlport, hwire, ?_, ?_, ?_⟩
  · intro δ node data dst out hpool hout
    have hoptions : node.pool.options k = .ok s.options := by
      rw [hpool, options, slot_eq_ok_iff.2 hs]
      rfl
    obtain ⟨hfits, hused⟩ := Stack.used_of_outbound hout hoptions
    exact ⟨_, Buffer.parseHeader_of_used hfits hused, rfl⟩
  · intro client addr hrport hraddr
    rw [acceptsPeer_iff (hrport ▸ hd) hraddr, hrport]
    exact hwire
  · intro d' peer' hd' hfound'
    -- a packet for the other port finds it there or on the shared slot, where it was before
    have hplaced : q.census.Placed := placed_run hnew _
    obtain ⟨hin, hport'⟩ := lport_of_resolveInbound hplaced hfound'
    have hkeeps := (moves_resolveInbound q d' peer').sameEnds (i := k.index)
      (by rw [status_of_slot? hs]; exact hphase) (by rw [(in_iff.1 hin).2]; rfl)
    rw [hkeeps.lport, status_of_slot? hs] at hport'
    change s.options.lport = d' ∨ s.options.lport = Port.sharedSlot at hport'
    obtain hshared | hshared := hlport
    · exact hport'.imp (fun h => h.symm.trans hshared) id
    · exact .inr hshared

/-- A listener on any port gets a child that its peer has addressed on port five. The child
answers from port zero, and what the peer sends to port six reaches the same child. -/
theorem one_child_for_two_ports :
    ∃ p, new { maxConnections := 3 } = .ok p ∧
      let ops := [.alloc, .bind ⟨0, 0⟩ anyPort, .listen ⟨0, 0⟩ 4]
      let q := (p.atRest.run (ops ++ [.resolveInbound 5 ⟨0x42, 3⟩])).pool
      ((p.atRest.run ops).pool.resolveInbound 5 ⟨0x42, 3⟩).2 = .ok (some ⟨1, 0⟩) ∧
        (q.slot? ⟨1, 0⟩).bind (·.role.parent?) = some ⟨0, 0⟩ ∧
        (q.slot? ⟨1, 0⟩).map (fun s => Port.wirePort s.options.lport) = some 0 ∧
        (q.resolveInbound 6 ⟨0x42, 3⟩).2 = .ok (some ⟨1, 0⟩) :=
  ⟨_, rfl, by decide +kernel, by decide +kernel, by decide +kernel, by decide +kernel⟩

/-- The child of a listener on port five answers from there after it was accepted, and a
client of port five takes the answer. -/
theorem answers_from_port_five :
    ∃ p, new { maxConnections := 3 } = .ok p ∧
      let ops := [.alloc, .bind ⟨0, 0⟩ 5, .listen ⟨0, 0⟩ 4]
      let post := [.accept ⟨0, 0⟩ none]
      let q := (p.atRest.run (ops ++ [.resolveInbound 5 ⟨0x42, 3⟩] ++ post)).pool
      (((p.atRest.run ops).pool.resolveInbound 5 ⟨0x42, 3⟩).2 = .ok (some ⟨1, 0⟩) ∧
        (p.atRest.run (ops ++ [.resolveInbound 5 ⟨0x42, 3⟩])).StaysConnected ⟨1, 0⟩ post ∧
        (q.slot? ⟨1, 0⟩).map (·.options.lport) = some 5) ∧
      ∃ (node : Stack ScriptedLink) (out : Stack.Outbound) (header : Header),
        node.pool = q ∧ node.outbound ⟨1, 0⟩ [7] ⟨0xAE55, 3⟩ = .ok out ∧
        out.frame.parseHeader = some header ∧ header.srcPort = 5 ∧
        Options.acceptsPeer { raddr := 0xAE55, rport := 5 } 0xAE55 header.srcPort = true := by
  refine ⟨_, rfl, ?_⟩
  intro ops post q
  refine (and_iff_left_of_imp ?_).2
    ⟨by decide +kernel, by decide +kernel, by decide +kernel⟩
  rintro ⟨hfound, hstays, hport⟩
  let node : Stack ScriptedLink :=
    { config := {}, addr := 0xAE55, pool := q, interfaces := {}, routes := {}
      events := { ring := { capacity := 1 }, store := .new 1 } }
  have hok : (node.outbound ⟨1, 0⟩ [7] ⟨0xAE55, 3⟩).isOk = true := by decide +kernel
  cases hout : node.outbound ⟨1, 0⟩ [7] ⟨0xAE55, 3⟩ with
  | error e =>
    rw [hout] at hok
    cases hok
  | ok out =>
    have hnew : new { maxConnections := 3 } = .ok _ := rfl
    obtain ⟨s, hs, -, -, hpackets, haccepts, -⟩ :=
      answers_from_port hnew ops (by decide) hfound hstays
    rw [hs] at hport
    have hlport : s.options.lport = 5 := Option.some.inj hport
    obtain ⟨header, hheader, hsrc⟩ := hpackets node [7] _ out rfl hout
    refine ⟨node, out, header, rfl, hout, hheader, ?_, ?_⟩
    · rw [hsrc, hlport]
      rfl
    · rw [hsrc]
      exact (haccepts _ _ rfl (.inr rfl)).2 (.inl (by rw [hlport]; decide))

end Netstack.Pool
