import Netstack.Pool.Calls

/-
The calls of a pool for somebody who is alone with it: a call that would have to wait
waits in vain.
-/

set_option autoImplicit false

namespace Netstack.Pool

/-- Queue a packet for a connection. A failure gives it back. -/
def rxPush (p : Pool) (h : Handle) (packet : Buffer) : Pool × Except (Rejected Buffer) Unit :=
  match p.inlet h with
  | .error e => (p, .error ⟨e, packet⟩)
  | .ok queue =>
    let (queue, result) := queue.push packet (some p.limits.queueTimeout)
    ((p.setQueue h.index queue).afterPush h result, result)

/-- Take the oldest packet of a connection. -/
def rxPop (p : Pool) (h : Handle) (timeout : Timeout) : Pool × Except Error Buffer :=
  match p.lookPacket h with
  | (p, .error e) => (p, .error e)
  | (p, .ok (some packet)) => (p, .ok packet)
  | (p, .ok none) => (p, .error (if timeout.waits then .timeout else .queueEmpty))

/-- Drop every packet of a connection: their number. -/
def rxFlush (p : Pool) (h : Handle) : Pool × Except Error Nat :=
  p.onQueue h fun queue =>
    let (queue, packets) := Fifo.drain queue
    (queue, packets.length)

/-- Accept the oldest child of a listening connection. -/
def accept (p : Pool) (h : Handle) (timeout : Timeout) : Pool × Except Error Handle :=
  match p.lookChild h with
  | (p, .error e) => (p, .error e)
  | (p, .ok (some child)) => (p, .ok child)
  | (p, .ok none) => (p, .error (if timeout.waits then .timeout else .queueEmpty))

end Netstack.Pool
