import Netstack.Pool.Basic

/-
How connections get their two ends: `bind`, `listen` and `connect`.

A bound connection is not reachable yet. Listening and connecting make it a member of
its local port, which is the shared slot for a connection that was never bound. Each
operation announces itself on the connection's event group at the end; if the group was
given up, that is reported after the connection has changed.
-/

set_option autoImplicit false

namespace Netstack.Pool

/-- Announce what has become of a connection: clear and set event bits and tell the
monitor. -/
def announce (p : Pool) (h : Handle) (clear set : EventBits) (event : ConnEvent) :
    Pool × Except Error Unit :=
  match p.events h with
  | .error e => (p, .error e)
  | .ok _ =>
    ((p.modify h.index fun s => (s.unsignal clear).signal set).emit event, .ok ())

/-- Bind a closed connection to a port. -/
def bind (p : Pool) (h : Handle) (port : UInt8) : Pool × Except Error Unit :=
  match p.slot h with
  | .error e => (p, .error e)
  | .ok s =>
    if s.phase ≠ .closed then (p, .error s.phase.refusal)
    else
      match p.ports.checkBind port with
      | .error e => (p, .error e)
      | .ok lport =>
        let p := p.modify h.index fun s =>
          { s with phase := .bound, options := { s.options with lport := lport } }
        p.announce h (ConnBits.closed ||| ConnBits.interrupt) ConnBits.bound
          (.bound h lport)

/-- Turn a bound connection into a server with room for `backlog` pending children. -/
def listen (p : Pool) (h : Handle) (backlog : Nat) : Pool × Except Error Unit :=
  match (Fifo.new backlog : Except Error (Fifo Handle)) with
  | .error e => (p, .error e)
  | .ok queue =>
    match p.slot h with
    | .error e => (p, .error e)
    | .ok s =>
      if s.phase ≠ .bound then (p, .error s.phase.refusal)
      else
        match p.ports.listen s.options.lport h s.options.priority with
        | .error e => (p, .error e)
        | .ok ports =>
          let p := { p with ports := ports }.modify h.index fun s =>
            { s with
              role := .server queue []
              phase := .listen
              registered := true
              opened := true }
          p.announce h 0 ConnBits.listen (.listening h s.options.lport)

/-- Fix the peer of a closed or bound connection. -/
def connect (p : Pool) (h : Handle) (peer : Peer) : Pool × Except Error Unit :=
  if portMax < peer.port then (p, .error (.portInvalid peer.port))
  else
    match p.slot h with
    | .error e => (p, .error e)
    | .ok s =>
      if s.phase ≠ .closed ∧ s.phase ≠ .bound then (p, .error s.phase.refusal)
      else
        let lport := if s.phase = .closed then Port.sharedSlot else s.options.lport
        match p.ports.insert lport h s.options.priority with
        | .error e => (p, .error e)
        | .ok ports =>
          let p := { p with ports := ports }.modify h.index fun s =>
            { s with
              phase := .connected
              registered := true
              opened := true
              options := { s.options with lport := lport, raddr := peer.addr, rport := peer.port } }
          p.announce h (ConnBits.closed ||| ConnBits.interrupt) ConnBits.connect
            (.connected h peer.addr peer.port)

/-- Set the priority of a connection, and with it its place on its port. -/
def setPriority (p : Pool) (h : Handle) (priority : UInt8) : Pool × Except Error Unit :=
  match p.slot h with
  | .error e => (p, .error e)
  | .ok s =>
    let p := p.modify h.index fun s => { s with options := { s.options with priority := priority } }
    if s.registered then
      match p.ports.reprioritize s.options.lport h priority with
      | .error e => (p, .error e)
      | .ok (ports, _) => ({ p with ports := ports }, .ok ())
    else (p, .ok ())

end Netstack.Pool
