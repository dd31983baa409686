import Netstack.Link.Scripted
import Netstack.Proofs.Pool.Readiness
import Netstack.Proofs.Stack.Dispatch
import Netstack.Proofs.Stack.Sends

/-
Readiness bits never miss work.

A stack is used by callers who come one after another, while its core and its drivers are at
work in between. All of them move packets and children and change connections through the
operations of the pool only, so every use is a change of the pool (`changes_use`), and a pool
that was ready stays ready. Calls that wait for a packet, a child or event bits may sleep
meanwhile. A call that waits for room may not: it would queue its packet out of turn.
-/

set_option autoImplicit false

namespace Netstack.Stack

variable {δ : Type} {s : Stack δ} {h : Handle} {packet : Buffer}

/-! ## Dispatching and sending -/

theorem pool_countDrop (s : Stack δ) (via : Option LinkId) : (s.countDrop via).pool = s.pool := by
  cases via <;> rfl

theorem pool_countRxError (s : Stack δ) (via : Option LinkId) :
    (s.countRxError via).pool = s.pool := by
  cases via <;> rfl

theorem shifts_addressee (s : Stack δ) (via : Option LinkId) (packet : Buffer) :
    s.pool.Shifts (s.addressee via packet).1.pool := by
  unfold addressee
  split
  · dsimp only
    rw [pool_countRxError]
    exact .refl _
  · next header _ =>
    split
    · dsimp only
      rw [pool_countDrop]
      exact .refl _
    · have hfind := Pool.shifts_resolveInbound s.pool header.dstPort
        ⟨header.srcAddr, header.srcPort⟩
      unfold onPool
      rw [pool_learn]
      dsimp only
      split <;> rename_i hq
      · obtain ⟨rfl, -⟩ := Prod.mk.inj hq
        exact hfind
      · obtain ⟨rfl, -⟩ := Prod.mk.inj hq
        dsimp only
        rw [pool_countDrop]
        exact hfind

theorem shifts_dispatch (s : Stack δ) (via : Option LinkId) (packet : Buffer) :
    s.pool.Shifts (s.dispatch via packet).pool := by
  have hfind := shifts_addressee s via packet
  unfold dispatch
  split <;> rename_i hq <;> rw [hq] at hfind
  · exact hfind
  · next t conn =>
    have hpush := hfind.trans (Pool.shifts_rxPush t.pool conn packet)
    unfold onPool
    dsimp only
    split <;> rename_i hr
    · obtain ⟨rfl, -⟩ := Prod.mk.inj hr
      exact hpush
    · obtain ⟨rfl, -⟩ := Prod.mk.inj hr
      rw [pool_countDrop]
      exact hpush

theorem shifts_sent (s : Stack δ) (h : Handle) (size : Nat) :
    s.pool.Shifts (s.sent h size).1.pool := by
  have hbit := Pool.shifts_announceSent s.pool h
  unfold sent onPool
  dsimp only
  split <;> rename_i hq <;> obtain ⟨rfl, -⟩ := Prod.mk.inj hq <;> exact hbit

theorem shifts_afterTx (s : Stack δ) (h : Handle) (index size : Nat)
    (result : Except (Rejected Buffer) Unit) :
    s.pool.Shifts (s.afterTx h index size result).1.pool := by
  cases result with
  | ok u => exact shifts_sent (s.post (.tx index)).1 h size
  | error rejected => exact .refl _

theorem pool_onLink {α : Type} {t : Stack δ} {index : Nat} {f : Interface δ → Interface δ × α}
    {answer : Option α} (hlink : s.onLink index f = (t, answer)) : t.pool = s.pool := by
  have hpool : (s.onLink index f).1.pool = s.pool := rfl
  rw [hlink] at hpool
  exact hpool

/-- What is sent alone with the stack is dispatched, or queued on an interface. -/
theorem shifts_sendTo (s : Stack δ) (h : Handle) (data : List UInt8) (dst : Peer) :
    s.pool.Shifts (s.sendTo h data dst).1.pool := by
  cases hout : s.outbound h data dst with
  | error e =>
    unfold sendTo beginSendTo
    rw [hout]
    exact .refl _
  | ok out =>
    cases out with
    | loop packet =>
      rw [sendTo_loop hout]
      exact (shifts_dispatch s none packet).trans (shifts_sent _ h _)
    | link index frame timeout =>
      unfold sendTo beginSendTo
      rw [hout]
      dsimp only
      split <;> rename_i hbegin <;> split at hbegin <;> rename_i hlink <;>
        obtain ⟨rfl, hend⟩ := Prod.mk.inj hbegin
      · rw [← pool_onLink hlink]
        exact shifts_afterTx _ h index _ _
      · cases hend
      · rw [pool_onLink hlink]
        exact .refl _
      · cases hend
      · obtain rfl := Progress.parked.inj hend
        rw [← pool_onLink hlink]
        unfold expireSend
        dsimp only
        split <;> rename_i hlast <;> rw [← pool_onLink hlast]
        · exact shifts_afterTx _ h index _ _
        · exact .refl _
      · cases hend

theorem shifts_receive (s : Stack δ) (h : Handle) : s.pool.Shifts (s.receive h).1.pool := by
  unfold receive
  split
  · exact .refl _
  · exact Pool.shifts_rxPop _ h _

theorem shifts_poll (s : Stack δ) (h : Handle) (mask : EventBits) (all waits : Bool) :
    s.pool.Shifts (s.beginPoll h mask all waits).1.pool :=
  Pool.shifts_beginWait s.pool h rfl waits

/-! ## The core and the drivers -/

theorem pool_afterInput (s : Stack δ) (index : Nat) (result : Except (Rejected Buffer) Unit) :
    (s.afterInput index result).1.pool = s.pool := by
  cases result <;> rfl

/-- A frame that is handed over waits on its interface. -/
theorem pool_input (s : Stack δ) (index : Nat) (frame : List UInt8) :
    (s.input index frame).1.pool = s.pool := by
  unfold input beginInput
  cases frameBuffer index frame with
  | error e => rfl
  | ok buffer =>
    dsimp only
    split <;> rename_i hbegin <;> split at hbegin <;> rename_i hlink <;>
      obtain ⟨rfl, hend⟩ := Prod.mk.inj hbegin
    · rw [← pool_onLink hlink]
      exact pool_afterInput _ index _
    · cases hend
    · exact pool_onLink hlink
    · cases hend
    · rw [← pool_onLink hlink]
      unfold expireInput
      split <;> rename_i hlast <;> rw [← pool_onLink hlast]
      exact pool_afterInput _ index _
    · cases hend

theorem shifts_receiveUpTo (n : Nat) (s : Stack δ) (index : Nat) :
    s.pool.Shifts (receiveUpTo n s index).pool := by
  induction n generalizing s with
  | zero => exact .refl _
  | succ n ih =>
    unfold receiveUpTo
    split
    · next t ht =>
      refine Pool.Through.trans ?_ (ih t)
      unfold receive? at ht
      split at ht
      · cases ht
      · next i _ =>
        split at ht
        · next i' frame _ =>
          obtain rfl := Option.some.inj ht
          exact shifts_dispatch (s.modifyLink index fun _ => i') (some i.id) frame
        · cases ht
    · exact .refl _

theorem pool_nextEvent (s : Stack δ) : s.nextEvent.1.pool = s.pool := by
  unfold nextEvent
  split <;> rfl

variable [LinkDriver δ]

theorem shifts_process (s : Stack δ) (event : CoreEvent) :
    s.pool.Shifts (s.process event).pool := by
  cases event with
  | rx index => exact shifts_receiveUpTo _ s index
  | tx index => exact .refl _

theorem shifts_serviceAll (s : Stack δ) : s.pool.Shifts s.serviceAll.pool := by
  unfold serviceAll
  generalize s.interfaces.all = links
  induction links generalizing s with
  | nil => exact .refl _
  | cons i links ih =>
    exact (shifts_receiveUpTo _ s i.index).trans (ih ((s.processRx i.index).processTx i.index))

theorem shifts_coreStep (s : Stack δ) : s.pool.Shifts s.coreStep.pool := by
  have hnext := pool_nextEvent s
  unfold coreStep
  split <;> rename_i hq <;> rw [hq] at hnext <;> rw [← hnext]
  · exact shifts_process _ _
  · exact shifts_serviceAll _

/-! ## What may be done with a stack -/

/-- What callers do with a stack who come one after another, and what happens in between. A
socket that needs nothing but its connection uses the pool. -/
inductive Use (δ : Type)
  /-- an operation on the connections -/
  | pool (op : Pool.Op)
  /-- a call that sleeps on a connection is resumed with a wake-up -/
  | wake (call : Pool.Call)
  /-- the time of such a call is up -/
  | expire (call : Pool.Call)
  | connect (h : Handle) (peer : Peer)
  | sendTo (h : Handle) (data : List UInt8) (dst : Peer)
  | send (h : Handle) (data : List UInt8)
  | receive (h : Handle)
  /-- event bits are watched -/
  | poll (h : Handle) (mask : EventBits) (all waits : Bool)
  /-- a driver hands over a frame -/
  | input (index : Nat) (frame : List UInt8)
  /-- the core takes an event and does its work, or looks around if there is none -/
  | core
  /-- anything becomes of the interfaces and the routes -/
  | links (interfaces : Registry δ) (routes : RouteTable)

/-- Whether nobody is left behind who queues a packet out of turn or takes bits away. -/
def Use.isInTurn : Use δ → Bool
  | .pool op => op.isInTurn
  | .wake call | .expire call => call.isConsumer
  | _ => true

def use (s : Stack δ) : Use δ → Stack δ
  | .pool op => { s with pool := (s.pool.atRest.step op).1.pool }
  | .wake call => (s.onPool (·.wake call)).1
  | .expire call => (s.onPool (·.expire call)).1
  | .connect h peer => (s.connect h peer).1
  | .sendTo h data dst => (s.sendTo h data dst).1
  | .send h data => (s.send h data).1
  | .receive h => (s.receive h).1
  | .poll h mask all waits => (s.beginPoll h mask all waits).1
  | .input index frame => (s.input index frame).1
  | .core => s.coreStep
  | .links interfaces routes => { s with interfaces := interfaces, routes := routes }

/-- One use after the other. -/
def useAll (s : Stack δ) (uses : List (Use δ)) : Stack δ := uses.foldl use s

theorem changes_use (s : Stack δ) {u : Use δ} (hu : u.isInTurn = true) :
    s.pool.Changes (s.use u).pool := by
  cases u with
  | pool op => exact System.changes_step (s := s.pool.atRest) hu (by rintro call ⟨⟩)
  | wake call => exact (Pool.shifts_wake s.pool hu).changes
  | expire call => exact (Pool.shifts_expire s.pool hu).changes
  | connect h peer =>
    rw [use, connect]
    split
    · exact .refl _
    · exact (Pool.shifts_connect s.pool h peer).changes
  | sendTo h data dst => exact (shifts_sendTo s h data dst).changes
  | send h data =>
    rw [use, send]
    split
    · exact .refl _
    · exact (shifts_sendTo s h data _).changes
  | receive h => exact (shifts_receive s h).changes
  | poll h mask all waits => exact (shifts_poll s h mask all waits).changes
  | input index frame =>
    rw [use, pool_input]
    exact .refl _
  | core => exact (shifts_coreStep s).changes
  | links interfaces routes => exact .refl _

/-- A pool that is ready stays ready however it is used. -/
theorem ready_useAll {uses : List (Use δ)} (hturn : ∀ u ∈ uses, u.isInTurn = true)
    (hs : s.pool.Ready) : (s.useAll uses).pool.Ready := by
  induction uses generalizing s with
  | nil => exact hs
  | cons u uses ih =>
    exact ih (fun v hv => hturn v (.tail _ hv)) ((changes_use s (hturn u (.head _))).ready hs)

/-- Whatever is done with a stack whose connections started out as new, on every live connection
with an event group the bits tell what there is to take. So nobody who waits for a packet or a
child goes to sleep while there is one, or is got up again by a bit that an earlier end has
left. -/
theorem readiness_never_missed {c : Config} (hnew : Pool.new c = .ok s.pool)
    {uses : List (Use δ)} (hturn : ∀ u ∈ uses, u.isInTurn = true) {h : Handle} {x : Slot}
    {group : EventGroup} (hlive : (s.useAll uses).pool.slot? h = some x)
    (hgroup : x.events = some group) : (s.useAll uses).pool.Attends h x group :=
  (ready_useAll hturn (Pool.ready_new hnew)).attends hlive hgroup

/-- A connection that was closed with a packet in its queue and bound again has neither the packet
nor a bit that tells of the end; the next packet is told of. -/
theorem readiness_never_missed_after_close :
    ∃ s : Stack ScriptedLink, new { addr := 0xAE55 } = .ok s ∧
      let uses : List (Use ScriptedLink) :=
        [.pool .alloc, .pool (.bind ⟨0, 0⟩ 5), .connect ⟨0, 0⟩ ⟨0xAE55, 5⟩,
          .sendTo ⟨0, 0⟩ [1, 2] ⟨0xAE55, 5⟩, .pool (.close ⟨0, 0⟩), .pool (.bind ⟨0, 0⟩ 5),
          .connect ⟨0, 0⟩ ⟨0xAE55, 5⟩, .sendTo ⟨0, 0⟩ [3] ⟨0xAE55, 5⟩]
      let p := (s.useAll uses).pool
      ∃ x group, (Pool.new { addr := 0xAE55 } = .ok s.pool ∧ (∀ u ∈ uses, u.isInTurn = true) ∧
        p.slot? ⟨0, 0⟩ = some x ∧ x.events = some group) ∧
          (p.packets 0).length = 1 ∧ group.bits = 0x27 ∧ p.Attends ⟨0, 0⟩ x group := by
  refine ⟨_, rfl, ?_⟩
  intro uses p
  have hseen : ((p.slot? ⟨0, 0⟩).bind (·.events)).map (·.bits) = some 0x27 := by decide +kernel
  obtain ⟨group, hfound, hbits⟩ := Option.map_eq_some_iff.1 hseen
  obtain ⟨x, hlive, hgroup⟩ := Option.bind_eq_some_iff.1 hfound
  have hturn : ∀ u ∈ uses, u.isInTurn = true := by decide
  have hnew : Pool.new { addr := 0xAE55 } = .ok _ := rfl
  refine ⟨x, group, ⟨hnew, hturn, hlive, hgroup⟩, by decide +kernel, hbits, ?_⟩
  exact readiness_never_missed hnew hturn hlive hgroup

end Netstack.Stack
