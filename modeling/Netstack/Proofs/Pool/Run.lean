import Netstack.Pool.Receive
import Netstack.Proofs.Pool.Operations

/-
Runs of a pool: any number of operations, one after another, by any number of callers.

An operation is made at once, with two exceptions. `beginPush`, `beginPop` and
`beginAccept` are the calls of somebody who is ready to wait; such a call may fall asleep,
and is resumed by a later `wake` or `expire`. Any sleeping call may be resumed at any
time, also when nobody woke it, so every order in which callers can come to resume is
among the runs, and a run in which nobody begins to wait is an ordinary sequence of
operations.
-/

set_option autoImplicit false

namespace Netstack

namespace Pool

/-- What may be asked of a pool. -/
inductive Op
  | alloc
  | bind (h : Handle) (port : UInt8)
  | listen (h : Handle) (backlog : Nat)
  | connect (h : Handle) (peer : Peer)
  | setPriority (h : Handle) (priority : UInt8)
  | setRecvTimeout (h : Handle) (timeout : Timeout)
  | setSendTimeout (h : Handle) (timeout : Timeout)
  | offerChild (parent : Handle) (peer : Peer)
  | resolveInbound (dstPort : UInt8) (peer : Peer)
  | accept (h : Handle) (timeout : Timeout)
  | rxPush (h : Handle) (packet : Buffer)
  | rxPop (h : Handle) (timeout : Timeout)
  | rxFlush (h : Handle)
  | close (h : Handle)
  | free (h : Handle)
  | options (h : Handle)
  | phase (h : Handle)
  | info (h : Handle)
  | events (h : Handle)
  | rxQueue (h : Handle)
  | attachMonitor
  | dropMonitor
  | readEvents
  /-- a push that waits for room if it has to -/
  | beginPush (h : Handle) (packet : Buffer)
  /-- a pop that waits for a packet if it has to -/
  | beginPop (h : Handle)
  /-- an accept that waits for a child if it has to -/
  | beginAccept (h : Handle)
  /-- resume a sleeping call, by its place among them -/
  | wake (k : Nat)
  /-- the time of a sleeping call is up -/
  | expire (k : Nat)

/-- Whether an operation only moves packets, event bits or pending children, or looks. -/
def Op.isQuiet : Op → Bool
  | alloc | bind _ _ | listen _ _ | connect _ _ | setPriority _ _ | setRecvTimeout _ _
  | setSendTimeout _ _ | offerChild _ _ | resolveInbound _ _ | close _ | free _ => false
  | _ => true

/-- What comes back. -/
inductive Reply
  | unit (result : Except Error Unit)
  | handle (result : Except Error Handle)
  | found (result : Except Error (Option Handle))
  | packet (result : Except Error Buffer)
  | count (result : Except Error Nat)
  | pushed (result : Except (Rejected Buffer) Unit)
  | options (result : Except Error Options)
  | phase (result : Except Error Phase)
  | info (result : Except Error ConnInfo)
  | events (result : Except Error EventGroup)
  | rxQueue (result : Except Error (Fifo Buffer))
  | read (events : Option (List ConnEvent))
  | bits (bits : EventBits)
  /-- the call waits -/
  | asleep
  /-- there was nobody to resume -/
  | nobody

def Reply.ofAnswer : Answer → Reply
  | .pushed r => .pushed r
  | .popped r => .packet r
  | .accepted r => .handle r
  | .bits set => .bits set
  | .missing e => .unit (.error e)

end Pool

open Pool (Op Reply)

/-- A pool and the calls that sleep on it. -/
structure System where
  pool : Pool
  asleep : List Pool.Call := []

namespace System

/-- Make an operation of the pool at once. -/
def act {α : Type} (s : System) (work : Pool → Pool × α) (reply : α → Reply) : System × Reply :=
  ({ s with pool := (work s.pool).1 }, reply (work s.pool).2)

/-- Look at the pool. -/
def look (s : System) (reply : Pool → Reply) : System × Reply := (s, reply s.pool)

/-- What a call that may wait has come to. -/
def settle (s : System) : Pool.Outcome → System × Reply
  | (p, .done answer) => ({ s with pool := p }, .ofAnswer answer)
  | (p, .parked call) => ({ pool := p, asleep := s.asleep ++ [call] }, .asleep)

/-- Without the call at a place among the sleeping ones. -/
def rouse (s : System) (k : Nat) : System := { s with asleep := s.asleep.eraseIdx k }

def step (s : System) : Op → System × Reply
  | .alloc => s.act (·.alloc) .handle
  | .bind h port => s.act (·.bind h port) .unit
  | .listen h backlog => s.act (·.listen h backlog) .unit
  | .connect h peer => s.act (·.connect h peer) .unit
  | .setPriority h priority => s.act (·.setPriority h priority) .unit
  | .setRecvTimeout h timeout => s.act (·.setRecvTimeout h timeout) .unit
  | .setSendTimeout h timeout => s.act (·.setSendTimeout h timeout) .unit
  | .offerChild parent peer => s.act (·.offerChild parent peer) .handle
  | .resolveInbound dstPort peer => s.act (·.resolveInbound dstPort peer) .found
  | .accept h timeout => s.act (·.accept h timeout) .handle
  | .rxPush h packet => s.act (·.rxPush h packet) .pushed
  | .rxPop h timeout => s.act (·.rxPop h timeout) .packet
  | .rxFlush h => s.act (·.rxFlush h) .count
  | .close h => s.act (·.close h) .unit
  | .free h => s.act (·.free h) .unit
  | .options h => s.look fun p => .options (p.options h)
  | .phase h => s.look fun p => .phase (p.phase h)
  | .info h => s.look fun p => .info (p.info h)
  | .events h => s.look fun p => .events (p.events h)
  | .rxQueue h => s.look fun p => .rxQueue (p.rxQueue h)
  | .attachMonitor => s.act (fun p => (p.attachMonitor, ())) fun _ => .unit (.ok ())
  | .dropMonitor => s.act (fun p => (p.dropMonitor, ())) fun _ => .unit (.ok ())
  | .readEvents => s.act (·.readEvents) .read
  | .beginPush h packet => s.settle (s.pool.beginPush h packet)
  | .beginPop h => s.settle (s.pool.beginPop h true)
  | .beginAccept h => s.settle (s.pool.beginAccept h true)
  | .wake k =>
    match s.asleep[k]? with
    | none => (s, .nobody)
    | some call => (s.rouse k).settle (s.pool.wake call)
  | .expire k =>
    match s.asleep[k]? with
    | none => (s, .nobody)
    | some call => (s.rouse k).act (·.expire call) .ofAnswer

/-- The state after a sequence of operations. -/
def run (s : System) (ops : List Op) : System := ops.foldl (fun s op => (s.step op).1) s

@[simp] theorem run_nil (s : System) : s.run [] = s := rfl

@[simp] theorem run_cons (s : System) (op : Op) (ops : List Op) :
    s.run (op :: ops) = ((s.step op).1).run ops := rfl

theorem run_append (s : System) (ops ops' : List Op) :
    s.run (ops ++ ops') = (s.run ops).run ops' := List.foldl_append

theorem run_snoc (s : System) (ops : List Op) (op : Op) :
    s.run (ops ++ [op]) = ((s.run ops).step op).1 := run_append s ops [op]

/-- What holds at the start and is kept by every step holds after every run. -/
theorem run_invariant {P : System → Prop} (hstep : ∀ s op, P s → P (s.step op).1) {s : System}
    (hs : P s) (ops : List Op) : P (s.run ops) := by
  induction ops generalizing s with
  | nil => exact hs
  | cons op ops ih => exact ih (hstep s op hs)

/-- What is said of every step of a run can be checked step by step. -/
theorem forall_prefix_iff {P : List Op → Op → Prop} {ops : List Op} :
    (∀ pre op, pre ++ [op] <+: ops → P pre op) ↔
      ∀ k (hk : k < ops.length), P (ops.take k) (ops[k]) := by
  constructor
  · intro h k hk
    refine h _ _ ?_
    rw [List.take_append_getElem]
    exact List.take_prefix _ _
  · rintro h pre op ⟨rest, rfl⟩
    have hk := h pre.length (by simp)
    simpa using hk

theorem step_wake_cases (s : System) (k : Nat) :
    s.step (.wake k) = (s, .nobody) ∨
    ∃ call, s.asleep[k]? = some call ∧
      s.step (.wake k) = (s.rouse k).settle (s.pool.wake call) := by
  rw [step]
  cases s.asleep[k]? with
  | none => exact .inl rfl
  | some call => exact .inr ⟨call, rfl, rfl⟩

theorem step_expire_cases (s : System) (k : Nat) :
    s.step (.expire k) = (s, .nobody) ∨
    ∃ call, s.asleep[k]? = some call ∧
      s.step (.expire k) = (s.rouse k).act (·.expire call) .ofAnswer := by
  rw [step]
  cases s.asleep[k]? with
  | none => exact .inl rfl
  | some call => exact .inr ⟨call, rfl, rfl⟩

theorem pool_settle (s : System) (o : Pool.Outcome) : (s.settle o).1.pool = o.1 := by
  unfold settle
  split <;> rfl

end System

/-! ## Where a run starts -/

namespace Pool

/-- A pool on which nobody waits. -/
def atRest (p : Pool) : System := { pool := p }

theorem new_eq_ok {c : Config} {p : Pool} (h : new c = .ok p) :
    p.slots = Array.replicate c.maxConnections Slot.vacant ∧ p.ports = .empty ∧
      p.limits = .ofConfig c := by
  unfold new at h
  dsimp only [bind, Except.bind] at h
  split at h
  · cases h
  · cases hr : Memory.reserve c.maxConnections with
    | error e =>
      rw [hr] at h
      cases h
    | ok u =>
      rw [hr] at h
      obtain rfl := Except.ok.inj h
      exact ⟨rfl, rfl, rfl⟩

theorem slotAt_new {c : Config} {p : Pool} (h : new c = .ok p) (i : Nat) :
    p.slotAt i = Slot.vacant := by
  rw [slotAt, (new_eq_ok h).1, Array.getElem?_replicate]
  split <;> rfl

/-- A new pool has slots that were never used, and nobody is on a port. -/
theorem census_new {c : Config} {p : Pool} (h : new c = .ok p) :
    p.census = ⟨c.maxConnections, fun _ => Slot.vacant.status, .empty⟩ := by
  have hsize : p.census.size = c.maxConnections := by
    rw [size_census, (new_eq_ok h).1, Array.size_replicate]
  have hstatus : p.census.status = fun _ => Slot.vacant.status := by
    funext i
    rw [status_census, slotAt_new h]
  exact congr (congr (congrArg Census.mk hsize) hstatus) (new_eq_ok h).2.1

end Pool

/-! ## Packets, bits and backlogs leave the census alone -/

namespace Pool

open Census (Opening Openings Moves Turns)

variable {p : Pool}

theorem census_afterPush (h : Handle) (result : Except (Rejected Buffer) Unit) :
    (p.afterPush h result).census = p.census := by
  unfold afterPush
  split
  · exact census_modify_signal _ _
  · rfl

theorem census_lookPacket (h : Handle) : (p.lookPacket h).1.census = p.census := by
  unfold lookPacket
  split
  · rfl
  · split
    · split
      · exact census_setQueue _ _
      · exact census_setQueue _ _
      · split <;> rw [census_modify_unsignal, census_setQueue]
    · rfl

theorem census_lookChild (h : Handle) : (p.lookChild h).1.census = p.census := by
  unfold lookChild
  split
  · rfl
  · split
    · split
      · rfl
      · dsimp only
        split <;> simp only [census_modify_unsignal, census_modify_withBacklog]
    · rfl

theorem census_rxPush (h : Handle) (packet : Buffer) : (p.rxPush h packet).1.census = p.census := by
  unfold rxPush
  split
  · rfl
  · rw [census_afterPush, census_setQueue]

/-- Who is alone with a pool looks for a packet once, whatever comes of it. -/
theorem rxPop_fst (p : Pool) (h : Handle) (timeout : Timeout) :
    (p.rxPop h timeout).1 = (p.lookPacket h).1 := by
  unfold rxPop
  split <;> rename_i hq <;> rw [hq]

theorem census_rxPop (h : Handle) (timeout : Timeout) :
    (p.rxPop h timeout).1.census = p.census := by
  rw [rxPop_fst, census_lookPacket]

theorem census_rxFlush (h : Handle) : (p.rxFlush h).1.census = p.census := by
  unfold rxFlush onQueue
  split
  · rfl
  · exact census_setQueue _ _

/-- Who is alone with a pool looks for a child once. -/
theorem accept_fst (p : Pool) (h : Handle) (timeout : Timeout) :
    (p.accept h timeout).1 = (p.lookChild h).1 := by
  unfold accept
  split <;> rename_i hq <;> rw [hq]

theorem census_accept (h : Handle) (timeout : Timeout) :
    (p.accept h timeout).1.census = p.census := by
  rw [accept_fst, census_lookChild]

theorem census_beginPush (h : Handle) (packet : Buffer) :
    (p.beginPush h packet).1.census = p.census := by
  unfold beginPush
  split
  · rfl
  · split
    · rw [census_afterPush, census_setQueue]
    · exact census_setQueue _ _

/-- Whoever takes a packet looks for one, and may go to sleep. -/
theorem beginPop_fst (p : Pool) (h : Handle) (waits : Bool) :
    (p.beginPop h waits).1 = (p.lookPacket h).1 ∨
      (p.beginPop h waits).1 = (p.lookPacket h).1.sleep h.index := by
  unfold beginPop
  split <;> rename_i hq <;> rw [hq]
  · exact .inl rfl
  · exact .inl rfl
  · split
    · exact .inr rfl
    · exact .inl rfl

theorem census_beginPop (h : Handle) (waits : Bool) :
    (p.beginPop h waits).1.census = p.census := by
  obtain he | he := beginPop_fst p h waits
  · rw [he, census_lookPacket]
  · rw [he, census_sleep, census_lookPacket]

/-- Whoever accepts a child looks for one, and may go to sleep. -/
theorem beginAccept_fst (p : Pool) (h : Handle) (waits : Bool) :
    (p.beginAccept h waits).1 = (p.lookChild h).1 ∨
      (p.beginAccept h waits).1 = (p.lookChild h).1.sleep h.index := by
  unfold beginAccept
  split <;> rename_i hq <;> rw [hq]
  · exact .inl rfl
  · exact .inl rfl
  · split
    · exact .inr rfl
    · exact .inl rfl

theorem census_beginAccept (h : Handle) (waits : Bool) :
    (p.beginAccept h waits).1.census = p.census := by
  obtain he | he := beginAccept_fst p h waits
  · rw [he, census_lookChild]
  · rw [he, census_sleep, census_lookChild]

theorem census_wakeBits (i : Nat) (call : EventGroup.Call) :
    (p.wakeBits i call).1.census = p.census := by
  unfold wakeBits
  split
  · rfl
  · split <;> exact census_setEvents _ _

theorem census_wake (call : Call) : (p.wake call).1.census = p.census := by
  unfold wake
  cases call with
  | push h packet =>
    dsimp only
    split
    · rfl
    · split
      · rw [census_afterPush, census_setQueue]
      · exact census_setQueue _ _
  | pushRaw i packet =>
    dsimp only
    split
    · rfl
    · split <;> exact census_setQueue _ _
  | pop h =>
    have hw := census_wakeBits (p := p) h.index (watching packetBits)
    dsimp only
    split <;> rename_i hq <;> rw [hq] at hw
    · rw [census_beginPop, hw]
    · exact hw
  | accept h =>
    have hw := census_wakeBits (p := p) h.index (watching childBits)
    dsimp only
    split <;> rename_i hq <;> rw [hq] at hw
    · rw [census_beginAccept, hw]
    · exact hw
  | bits i call =>
    have hw := census_wakeBits (p := p) i call
    dsimp only
    split <;> rename_i hq <;> rw [hq] at hw <;> exact hw

/-- Whose time is up looks for a packet once more. -/
theorem expire_pop_fst (p : Pool) (h : Handle) :
    (p.expire (.pop h)).1 = ((p.rise h.index).lookPacket h).1 := by
  unfold expire
  dsimp only
  split <;> rename_i hq <;> rw [hq]

/-- Whose time is up looks for a child once more. -/
theorem expire_accept_fst (p : Pool) (h : Handle) :
    (p.expire (.accept h)).1 = ((p.rise h.index).lookChild h).1 := by
  unfold expire
  dsimp only
  split <;> rename_i hq <;> rw [hq]

theorem census_expire (call : Call) : (p.expire call).1.census = p.census := by
  cases call with
  | push h packet =>
    unfold expire
    dsimp only
    split
    · rfl
    · rw [census_afterPush, census_setQueue]
  | pushRaw i packet =>
    unfold expire
    dsimp only
    split
    · rfl
    · exact census_setQueue _ _
  | pop h => rw [expire_pop_fst, census_lookPacket, census_rise]
  | accept h => rw [expire_accept_fst, census_lookChild, census_rise]
  | bits i call =>
    unfold expire
    dsimp only
    split
    · rfl
    · exact census_setEvents _ _

/-! ## Every operation is a sequence of moves -/

theorem openings_alloc (p : Pool) : Openings p.census p.alloc.1.census := by
  obtain ⟨e, he⟩ | ⟨i, hi, hfree, -, hc⟩ := alloc_cases p
  · rw [he]
  · rw [hc]
    exact .single (.claim hi hfree)

theorem openings_bind (p : Pool) (h : Handle) (port : UInt8) :
    Openings p.census (p.bind h port).1.census := by
  obtain ⟨e, he⟩ | ⟨lport, hl, hp, hb, hc⟩ := bind_cases p h port
  · rw [he]
  · rw [hc]
    exact .single (.attach hl hp hb)

theorem openings_listen (p : Pool) (h : Handle) (backlog : Nat) :
    Openings p.census (p.listen h backlog).1.census := by
  obtain ⟨e, he⟩ | ⟨t, hl, hp, ht, hc⟩ := listen_cases p h backlog
  · rw [he]
  · rw [hc]
    exact .single (.listen hl hp ht)

theorem openings_connect (p : Pool) (h : Handle) (peer : Peer) :
    Openings p.census (p.connect h peer).1.census := by
  obtain ⟨e, he⟩ | ⟨lport, t, hl, hp, ht, hc⟩ := connect_cases p h peer
  · rw [he]
  · rw [hc]
    exact .single (.link hl hp ht)

theorem openings_setPriority (p : Pool) (h : Handle) (priority : UInt8) :
    Openings p.census (p.setPriority h priority).1.census := by
  obtain ⟨-, he⟩ | ⟨hl, hc⟩ := setPriority_cases p h priority
  · rw [he]
  · rw [hc]
    exact .single (.rank hl)

theorem openings_setRecvTimeout (p : Pool) (h : Handle) (timeout : Timeout) :
    Openings p.census (p.setRecvTimeout h timeout).1.census := by
  obtain he | ⟨hl, hc⟩ := updateOptions_cases p h fun o => { o with recvTimeout := timeout }
  · rw [setRecvTimeout, he]
  · rw [setRecvTimeout, hc]
    exact .single (@Opening.retime _ _ timeout (p.census.status h.index).options.sendTimeout hl)

theorem openings_setSendTimeout (p : Pool) (h : Handle) (timeout : Timeout) :
    Openings p.census (p.setSendTimeout h timeout).1.census := by
  obtain he | ⟨hl, hc⟩ := updateOptions_cases p h fun o => { o with sendTimeout := timeout }
  · rw [setSendTimeout, he]
  · rw [setSendTimeout, hc]
    exact .single (@Opening.retime _ _ (p.census.status h.index).options.recvTimeout timeout hl)

theorem turns_offerChild (p : Pool) (parent : Handle) (peer : Peer) :
    p.census.Turns (p.offerChild parent peer).1.census := by
  obtain ⟨e, he⟩ | ⟨_, _, -, -, -, he⟩ | ⟨child, o, ⟨-, hc⟩ | ⟨e, -, hc⟩⟩ :=
    offerChild_cases p parent peer
  · rw [he]
    exact .opens .refl
  · rw [he]
    exact .opens .refl
  · rw [hc]
    exact .opens ((Relation.ReflTransGen.single o.claim).tail o.adopt)
  · rw [hc]
    exact .rejects o

theorem turns_resolveInbound (p : Pool) (dstPort : UInt8) (peer : Peer) :
    p.census.Turns (p.resolveInbound dstPort peer).1.census := by
  obtain he | ⟨conn, he⟩ := resolveInbound_fst p dstPort peer
  · rw [he]
    exact .opens .refl
  · rw [he]
    exact turns_offerChild p conn peer

theorem moves_resolveInbound (p : Pool) (dstPort : UInt8) (peer : Peer) :
    Moves p.census (p.resolveInbound dstPort peer).1.census :=
  (turns_resolveInbound p dstPort peer).moves

end Pool

namespace System

open Census (Opening Ending Moves)

/-- Packets, bits and backlogs leave the census alone. -/
theorem census_step_of_quiet (s : System) {op : Op} (hq : op.isQuiet = true) :
    (s.step op).1.pool.census = s.pool.census := by
  cases op with
  | alloc | bind _ _ | listen _ _ | connect _ _ | setPriority _ _ | setRecvTimeout _ _
  | setSendTimeout _ _ | offerChild _ _ | resolveInbound _ _ | close _ | free _ => cases hq
  | accept h timeout => exact Pool.census_accept h timeout
  | rxPush h packet => exact Pool.census_rxPush h packet
  | rxPop h timeout => exact Pool.census_rxPop h timeout
  | rxFlush h => exact Pool.census_rxFlush h
  | options _ | phase _ | info _ | events _ | rxQueue _ => rfl
  | attachMonitor | dropMonitor | readEvents => rfl
  | beginPush h packet => rw [step, pool_settle, Pool.census_beginPush]
  | beginPop h => rw [step, pool_settle, Pool.census_beginPop]
  | beginAccept h => rw [step, pool_settle, Pool.census_beginAccept]
  | wake k =>
    obtain he | ⟨call, -, he⟩ := step_wake_cases s k
    · rw [he]
    · rw [he, pool_settle, Pool.census_wake]
  | expire k =>
    obtain he | ⟨call, -, he⟩ := step_expire_cases s k
    · rw [he]
    · rw [he]
      exact Pool.census_expire call

theorem turns_step (s : System) (op : Op) :
    s.pool.census.Turns (s.step op).1.pool.census := by
  by_cases hq : op.isQuiet = true
  · rw [census_step_of_quiet s hq]
    exact .opens .refl
  · cases op with
    | alloc => exact .opens (Pool.openings_alloc _)
    | bind h port => exact .opens (Pool.openings_bind _ h port)
    | listen h backlog => exact .opens (Pool.openings_listen _ h backlog)
    | connect h peer => exact .opens (Pool.openings_connect _ h peer)
    | setPriority h priority => exact .opens (Pool.openings_setPriority _ h priority)
    | setRecvTimeout h timeout => exact .opens (Pool.openings_setRecvTimeout _ h timeout)
    | setSendTimeout h timeout => exact .opens (Pool.openings_setSendTimeout _ h timeout)
    | offerChild parent peer => exact Pool.turns_offerChild _ parent peer
    | resolveInbound dstPort peer => exact Pool.turns_resolveInbound _ dstPort peer
    | close h => exact .ends (Pool.endings_close _ h)
    | free h => exact .ends (Pool.endings_free _ h)
    | _ => exact absurd rfl hq

theorem moves_step (s : System) (op : Op) : Moves s.pool.census (s.step op).1.pool.census :=
  (turns_step s op).moves

/-- What every move keeps holds of the census after every run. -/
theorem census_run {P : Census → Prop} (hopen : ∀ σ τ, Opening σ τ → P σ → P τ)
    (hend : ∀ σ τ, Ending σ τ → P σ → P τ) {s : System} (hs : P s.pool.census) (ops : List Op) :
    P (s.run ops).pool.census :=
  run_invariant (P := fun s => P s.pool.census)
    (fun s op hP => (moves_step s op).invariant hopen hend hP) hs ops

end System

end Netstack
