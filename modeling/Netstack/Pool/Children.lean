import Netstack.Pool.Lifecycle

/-
Children of listening connections, and which connection an inbound packet is for.

A listening connection has one child for each peer. A child is connected from the start,
waits in the backlog until somebody accepts it, and is found through its parent: it is no
member of a port itself.
-/

set_option autoImplicit false

namespace Netstack.Pool

/-- Turn a connection just handed out into the child of `parent` for `peer`. -/
def makeChild (parent : Handle) (o : Options) (peer : Peer) (s : Slot) : Slot :=
  { s with
    role := .child parent
    phase := .connected
    opened := true
    options :=
      { priority := o.priority, lport := o.lport, laddr := o.laddr
        raddr := peer.addr, rport := peer.port } }

/-- Put a new child into the backlog of its parent. -/
def joinBacklog (p : Pool) (parent child : Handle) : Pool × Except Error Handle :=
  match (p.slotAt parent.index).role with
  | .server backlog _ =>
    match backlog.offer child with
    | (_, .error rejected) =>
      match p.free child with
      | (p, .error e) => (p, .error e)
      | (p, .ok ()) => (p, .error rejected.error)
    | (backlog, .ok ()) =>
      let p := p.modify parent.index fun s =>
        { s with role := s.role.withBacklog backlog }.signal ConnBits.accept
      (p.emit (.accepted parent child), .ok child)
  | _ => (p, .error .staleHandle)

/-- The child of a listening connection for a peer. A peer without a child gets a new one,
which joins the backlog; if that is full, the new child is freed again. -/
def offerChild (p : Pool) (parent : Handle) (peer : Peer) : Pool × Except Error Handle :=
  match p.slot parent with
  | .error e => (p, .error e)
  | .ok s =>
    match s.role, s.phase with
    | .server _ children, .listen =>
      match children.lookup peer, s.events with
      | some child, _ => (p, .ok child)
      | none, none => (p, .error .destroyed)
      | none, some _ =>
        match p.alloc with
        | (p, .error e) => (p, .error e)
        | (p, .ok child) =>
          let p := p.modify child.index (makeChild parent s.options peer)
          let p := p.modify parent.index fun s => { s with role := s.role.adopt peer child }
          p.joinBacklog parent child
    | _, phase => (p, .error phase.refusal)

/-! ## Accepting -/

/-- Whether a handle from a backlog still is a child of the listener. -/
def isPendingChild (p : Pool) (parent child : Handle) : Bool :=
  match p.slot? child with
  | some s => s.phase = .connected && s.role.parent? = some parent
  | none => false

/-- Take handles from the front of a backlog of length `n` until one still is a child. -/
def nextPending (p : Pool) (parent : Handle) : Nat → Fifo Handle → Fifo Handle × Option Handle
  | 0, backlog => (backlog, none)
  | n + 1, backlog =>
    match backlog.take with
    | (backlog, .ok (some child)) =>
      if p.isPendingChild parent child then (backlog, some child)
      else p.nextPending parent n backlog
    | (backlog, _) => (backlog, none)

/-- Look for a child in the backlog. An empty backlog takes the accept bit back. -/
def lookChild (p : Pool) (h : Handle) : Pool × Except Error (Option Handle) :=
  match p.slot h with
  | .error e => (p, .error e)
  | .ok s =>
    match s.role, s.phase with
    | .server backlog _, .listen =>
      match s.events with
      | none => (p, .error .destroyed)
      | some _ =>
        let (backlog, child) := p.nextPending h backlog.ring.length backlog
        let p := p.modify h.index fun s => { s with role := s.role.withBacklog backlog }
        match child with
        | some child => (p, .ok (some child))
        | none => (p.modify h.index (Slot.unsignal ConnBits.accept), .ok none)
    | _, phase => (p, .error phase.refusal)

/-! ## Inbound packets -/

/-- Who takes a packet. -/
inductive Taker
  /-- a connected socket whose peer sent it -/
  | direct (conn : Handle)
  /-- a listening socket, which takes it through a child -/
  | listener (conn : Handle)
  deriving DecidableEq, Repr

/-- Whether a member of a port takes a packet from `peer`, and how. -/
def taker? (p : Pool) (peer : Peer) (m : PortMember) : Option Taker :=
  match p.slot? m.conn with
  | none => none
  | some s =>
    if s.phase = .connected then
      if s.options.acceptsPeer peer.addr peer.port then some (.direct m.conn) else none
    else if s.phase = .listen then some (.listener m.conn)
    else none

/-- The members that a packet for a port is offered to, in order: those of the port and
then those of the shared slot. A port number that no header carries has no members. -/
def candidates (p : Pool) (dstPort : UInt8) : List PortMember :=
  let named := if dstPort ≤ portMax then (p.ports.members dstPort).toOption.getD [] else []
  named ++ (p.ports.members Port.sharedSlot).toOption.getD []

/-- The connection that a packet from `peer` for a port belongs to. -/
def resolveInbound (p : Pool) (dstPort : UInt8) (peer : Peer) :
    Pool × Except Error (Option Handle) :=
  match (p.candidates dstPort).findSome? (p.taker? peer) with
  | none => (p, .ok none)
  | some (.direct conn) => (p, .ok (some conn))
  | some (.listener conn) =>
    match p.offerChild conn peer with
    | (p, .ok child) => (p, .ok (some child))
    | (p, .error e) => (p, .error e)

end Netstack.Pool
