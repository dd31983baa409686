import Netstack.Pool.Calls
import Netstack.Stack.Core
import Netstack.Stack.Socket
import Netstack.Wait.Step

/-
The calls of a stack that may wait: those of its pool, sending, and queueing frames on its
interfaces.
-/

set_option autoImplicit false

namespace Netstack.Stack

variable {δ : Type}

/-- A call that waits. -/
inductive Call
  | pool (call : Pool.Call)
  | send (call : SendCall)
  /-- a received frame waits for room on an interface -/
  | input (index : Nat) (frame : Buffer)
  /-- a frame waits for room in a queue of an interface, for somebody who has the
  interface -/
  | frame (index : Nat) (d : Interface.Direction) (frame : Buffer)

/-- What such a call answers. -/
inductive Answer
  | pool (answer : Pool.Answer)
  | sent (result : Except Error Nat)
  | input (result : Except Error Unit)
  | frame (result : Except (Rejected Buffer) Unit)

/-- The state of the stack and what a call has come to. -/
abbrev Outcome (δ : Type) := Stack δ × Progress Call Answer

/-- A call of the pool. -/
def beginPool (s : Stack δ) (f : Pool → Pool.Outcome) : Outcome δ :=
  (s.onPool f).map id (·.map .pool .pool)

/-- Queue a frame on an interface. Nothing is queued on one that does not exist. -/
def beginFrame (s : Stack δ) (index : Nat) (d : Interface.Direction) (frame : Buffer)
    (waits : Bool) : Outcome δ :=
  match s.onLink index fun i => i.beginPush d frame waits with
  | (s, some progress) => (s, progress.map (.frame index d) .frame)
  | (s, none) => (s, .done (.frame (.ok ())))

/-- Receive one packet, waiting as long as the socket's options say. -/
def beginReceive (s : Stack δ) (h : Handle) : Outcome δ :=
  match s.pool.options h with
  | .error e => (s, .done (.pool (.popped (.error e))))
  | .ok o => s.beginPool (·.beginPop h (Timeout.waits o.recvTimeout))

/-- Wait for events of a socket. The answer is the bits that were seen, also when the time
is up. -/
def beginPoll (s : Stack δ) (h : Handle) (mask : EventBits) (all waits : Bool) : Outcome δ :=
  s.beginPool (·.beginWait h ⟨mask, pollOptions all⟩ waits)

/-! ## Resuming -/

/-- Whether somebody who waits for room on an interface was woken. -/
def roomReady (s : Stack δ) (index : Nat) (d : Interface.Direction) : Bool :=
  ((s.interfaces.byIndex index).map (·.roomReady d)).getD false

def ready (s : Stack δ) : Call → Bool
  | .pool call => s.pool.ready call
  | .send (.loop _ receiver _ _) => s.pool.roomReady receiver.index
  | .send (.link _ index _ _) => s.roomReady index .tx
  | .input index _ => s.roomReady index .rx
  | .frame index d _ => s.roomReady index d

/-- Resume a call with a wake-up. -/
def wake (s : Stack δ) (call : Call) : Outcome δ :=
  match call with
  | .pool call => s.beginPool (·.wake call)
  | .send call => (s.wakeSend call).map id (·.map .send .sent)
  | .input index frame => (s.wakeInput index frame).map id (·.map (.input index) .input)
  | .frame index d frame =>
    match s.onLink index fun i => i.wakePush d frame with
    | (s, some progress) => (s, progress.map (.frame index d) .frame)
    | (s, none) => (s, .done (.frame (.ok ())))

/-- Resume a call because its time is up. -/
def expire (s : Stack δ) (call : Call) : Stack δ × Answer :=
  match call with
  | .pool call => (s.onPool (·.expire call)).map id .pool
  | .send call => (s.expireSend call).map id .sent
  | .input index frame => (s.expireInput index frame).map id .input
  | .frame index d frame =>
    match s.onLink index fun i => i.expirePush d frame with
    | (s, some result) => (s, .frame result)
    | (s, none) => (s, .frame (.ok ()))

variable [LinkDriver δ]

/-- Whether the core looks around within a length of time. -/
def looksAroundWithin (s : Stack δ) (left : Timeout) : Bool :=
  s.running && match left with
    | none => true
    | some d => s.config.corePollInterval.nanos ≤ d.nanos

instance : Blocking (Stack δ) Call Answer where
  ready := ready
  wake := wake
  expire := expire
  advance := advance?
  pieces := pieces
  elapse s left := if s.looksAroundWithin left then s.serviceAll else s

omit [LinkDriver δ] in
/-- A step on the pool of a stack. A call of the pool answers as calls of the pool do. -/
def poolStep {ω : Type} [Inhabited ω] :
    Step Pool Pool.Call Pool.Answer ω → Step (Stack δ) Call Answer ω
  | .act work => .act (·.onPool work)
  | .call timeout begun finish =>
    .call (fun s => timeout s.pool) (·.beginPool begun) fun
      | .pool answer => finish answer
      | _ => default

end Netstack.Stack
