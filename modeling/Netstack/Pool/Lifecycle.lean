import Netstack.Pool.Basic

/-
How connections come and go: `alloc`, `close` and `free`.

Closing keeps the connection's handle valid, so that it can be bound or connected
again; freeing gives the slot back and ends the generation of the handle. A listening
connection that is freed takes along the children that nobody has accepted, which may
be listening themselves.
-/

set_option autoImplicit false

namespace Netstack.Pool

/-- Hand out the first free slot. -/
def alloc (p : Pool) : Pool × Except Error Handle :=
  match p.slots.findIdx? fun s => s.phase = .free with
  | none => (p, .error .outOfMemory)
  | some i =>
    match (p.slotAt i).prepared p.limits with
    | .error e => (p, .error e)
    | .ok s =>
      let handle : Handle := ⟨i, s.generation⟩
      ((p.modify i fun _ => s).emit (.allocated handle), .ok handle)

/-! ## Closing -/

/-- The parent of a child forgets the peer that the child was for. A parent that is
gone, or is no server any more, has nothing to forget. -/
def forgetChild (p : Pool) (parent : Handle) (peer : Peer) : Pool :=
  match p.slot? parent with
  | some _ => p.modify parent.index fun s => { s with role := s.role.forget peer }
  | none => p

/-- Take a connection off its port. -/
def unregister (p : Pool) (port : UInt8) (h : Handle) : Pool :=
  match p.ports.remove port h with
  | .ok (ports, _) => { p with ports := ports }
  | .error _ => p

/-- Detach a connection from its parent and its port. -/
def detach (p : Pool) (h : Handle) (s : Slot) : Pool :=
  let p := match s.role.parent? with
    | some parent => p.forgetChild parent s.peer
    | none => p
  if s.registered then p.unregister s.options.lport h else p

/-- Close a connection. One that is closed already stays as it is. -/
def close (p : Pool) (h : Handle) : Pool × Except Error Unit :=
  match p.slot? h with
  | none => (p, .error .staleHandle)
  | some s =>
    if !s.phase.isActive then (p, .ok ())
    else
      let p := (p.detach h s).modify h.index Slot.shut
      let p := if p.limits.releaseOnClose then p.modify h.index Slot.released else p
      (p.emit (.closed h), .ok ())

/-! ## Freeing -/

/-- Free a connection when at most `depth` connections are live. Every listener on the
way from `h` to one of its pending children is freed before the child is looked at, so
with no live connection left there is nothing but stale handles. -/
def freeWithin : Nat → Pool → Handle → Pool × Except Error Unit
  | 0, p, _ => (p, .error .staleHandle)
  | depth + 1, p, h =>
    match p.close h with
    | (p, .error e) => (p, .error e)
    | (p, .ok ()) =>
      let pending := (p.slotAt h.index).role.pending
      let p := p.modify h.index Slot.vacated
      let p := pending.foldl (fun p child => (freeWithin depth p child).1) p
      (p.emit (.freed h), .ok ())

/-- Give a connection back, closing it first if need be, together with the children in
its backlog. -/
def free (p : Pool) (h : Handle) : Pool × Except Error Unit :=
  freeWithin p.slots.size p h

end Netstack.Pool
