import Mathlib.Data.List.Basic
import Netstack.Proofs.Pool.Discard

/-
For which handle a packet was accepted, and through which handle it is popped.

The pool does not remember who a packet in a queue was pushed for, so a run is followed with
a ledger beside it: for every slot the packets that were accepted and neither popped nor
dropped since, oldest first, each with the handle that was named when it was pushed. The
ledger is read off the calls and what they answered, and `Kept` says that the queues hold its
packets.

A push that finds its connection active is on time, and the connection stays the same as long
as the packet is in the queue, since the end of the connection empties it. A push that slept
while its connection ended is late: it goes into the queue that has just been emptied, and
nothing removes it when the slot is given back and handed out again. So a packet is popped
through another handle than its own exactly where a late packet comes first in the queue.
-/

set_option autoImplicit false

namespace Netstack

namespace Pool

/-! ## The ledger -/

/-- A packet that was accepted, with the handle it was pushed for. It is late if this handle
had no active connection by then. -/
structure Entry where
  owner : Handle
  packet : Buffer
  late : Bool
  deriving DecidableEq

/-- The packets of every slot, oldest first. -/
abbrev Ledger := Nat → List Entry

/-- What a call and its reply say about packets. -/
inductive Traffic
  /-- a packet was accepted -/
  | put (entry : Entry)
  /-- a packet was popped -/
  | took (h : Handle) (packet : Buffer)
  /-- a queue was flushed -/
  | emptied (h : Handle)
  | nothing

/-- The queues after the traffic. -/
def Traffic.apply {α : Type} (f : Entry → α) (t : Traffic) (m : Nat → List α) : Nat → List α :=
  match t with
  | .put e => Function.update m e.owner.index (m e.owner.index ++ [f e])
  | .took h _ => Function.update m h.index (m h.index).tail
  | .emptied h => Function.update m h.index []
  | .nothing => m

/-- A pop that succeeded: the handle, the packet, and what came first in the ledger. -/
structure Popped where
  handle : Handle
  packet : Buffer
  front : Option Entry
  deriving DecidableEq

def Traffic.puts : Traffic → List Entry
  | .put e => [e]
  | _ => []

def Traffic.pops (l : Ledger) : Traffic → List Popped
  | .took h packet => [⟨h, packet, (l h.index).head?⟩]
  | _ => []

/-- What has come of a call that may wait. -/
def delivery (p : Pool) : Call → Reply → Traffic
  | .push h packet, .pushed (.ok ()) => .put ⟨h, packet, !p.isOpen h⟩
  | .pop h, .packet (.ok packet) => .took h packet
  | _, _ => .nothing

/-- The packets that were accepted for a handle. -/
def Entry.packetsFor (h : Handle) (entries : List Entry) : List Buffer :=
  (entries.filter fun e => e.owner = h).map Entry.packet

/-- The packets that were popped through a handle. -/
def Popped.packetsOf (h : Handle) (pops : List Popped) : List Buffer :=
  (pops.filter fun pop => pop.handle = h).map Popped.packet

/-- A call on a queue without a connection. -/
def Call.isRaw : Call → Bool
  | .pushRaw _ _ => true
  | _ => false

end Pool

namespace System

open Pool (Op Reply Call Entry Ledger Traffic Popped delivery)

/-- What a step says about packets. -/
def traffic (s : System) (op : Op) : Traffic :=
  match op, (s.step op).2 with
  | .rxPush h packet, reply | .beginPush h packet, reply => delivery s.pool (.push h packet) reply
  | .rxPop h _, reply | .beginPop h, reply => delivery s.pool (.pop h) reply
  | .rxFlush h, .count (.ok _) => .emptied h
  | .wake k, reply | .expire k, reply =>
    match s.asleep[k]? with
    | some call => delivery s.pool call reply
    | none => .nothing
  | _, _ => .nothing

/-- The ledger after a step. A connection that has ended in this step leaves nothing. -/
def record (s : System) (op : Op) (l : Ledger) : Ledger := fun i =>
  if s.pool.Ends (s.step op).1.pool i then [] else (s.traffic op).apply id l i

/-- The packets accepted in a run. -/
def puts : System → List Op → List Entry
  | _, [] => []
  | s, op :: ops => (s.traffic op).puts ++ puts (s.step op).1 ops

/-- The pops of a run that succeeded, with a ledger to begin with. -/
def popsFrom : Ledger → System → List Op → List Popped
  | _, _, [] => []
  | l, s, op :: ops => (s.traffic op).pops l ++ popsFrom (s.record op l) (s.step op).1 ops

/-- The pops of a run that begins with empty queues. -/
def pops (s : System) (ops : List Op) : List Popped := popsFrom (fun _ => []) s ops

/-- Packets stay with the handle that they were pushed for. -/
structure Isolated (s : System) (ops : List Op) : Prop where
  /-- a pop returns the oldest packet that is left, and it was accepted for this handle -/
  own : ∀ pop ∈ s.pops ops, ∃ e, pop.front = some e ∧ e.packet = pop.packet ∧
    e.owner = pop.handle
  /-- what is popped through a handle was accepted for it, in this order, each packet once -/
  ordered : ∀ h, (Popped.packetsOf h (s.pops ops)).Sublist (Entry.packetsFor h (s.puts ops))

end System

/-! ## The traffic tells what happens to the queues -/

namespace Pool

variable {p q : Pool} {t : Traffic} {m : Nat → List Buffer} {l : Ledger} {h : Handle}

theorem packets_apply (t : Traffic) (l : Ledger) :
    (fun i => (t.apply id l i).map Entry.packet) =
      t.apply Entry.packet fun i => (l i).map Entry.packet := by
  have hupdate : ∀ (k : Nat) (es : List Entry),
      (fun i => (Function.update l k es i).map Entry.packet) =
        Function.update (fun i => (l i).map Entry.packet) k (es.map Entry.packet) := by
    intro k es
    funext i
    exact Function.apply_update (fun _ => List.map Entry.packet) l k es i
  cases t with
  | put e =>
    refine (hupdate _ _).trans ?_
    rw [List.map_append]
    rfl
  | took h packet =>
    refine (hupdate _ _).trans ?_
    rw [List.map_tail]
    rfl
  | emptied h => exact hupdate _ _
  | nothing => rfl

/-- The queues are as the traffic says, and a packet that was popped came first. -/
structure Conveys (p q : Pool) (t : Traffic) (m : Nat → List Buffer) : Prop where
  mail : q.Mail (t.apply Entry.packet m)
  first : ∀ h packet, t = .took h packet → p.census.Live h ∧ (m h.index).head? = some packet

theorem conveys_nothing (hm : q.Mail m) : Conveys p q .nothing m := ⟨hm, by rintro _ _ ⟨⟩⟩

theorem conveys_put {e : Entry}
    (hm : q.Mail (Function.update m e.owner.index (m e.owner.index ++ [e.packet]))) :
    Conveys p q (.put e) m := ⟨hm, by rintro _ _ ⟨⟩⟩

theorem conveys_emptied (hm : q.Mail (Function.update m h.index [])) :
    Conveys p q (.emptied h) m := ⟨hm, by rintro _ _ ⟨⟩⟩

theorem conveys_took {packet : Buffer} {rest : List Buffer} (hl : p.census.Live h)
    (hfirst : m h.index = packet :: rest) (hm : q.Mail (Function.update m h.index rest)) :
    Conveys p q (.took h packet) m := by
  constructor
  · show q.Mail (Function.update m h.index (m h.index).tail)
    rw [hfirst]
    exact hm
  · rintro _ _ ⟨⟩
    refine ⟨hl, ?_⟩
    rw [hfirst]
    rfl

/-- A call that is resumed puts a packet, pops one or leaves the queues alone. -/
theorem conveys_wake {call : Call} (hraw : call.isRaw = false) (hm : p.Mail m) (s : System) :
    Conveys p (s.settle (p.wake call)).1.pool
      (delivery p call (s.settle (p.wake call)).2) m := by
  cases call with
  | push h packet =>
    obtain ⟨e, q, he, hq⟩ | ⟨q, he, hq⟩ | ⟨q, he, hq⟩ := wake_push_cases hm h packet
    · rw [he]
      exact conveys_nothing hq
    · rw [he]
      exact conveys_nothing hq
    · rw [he]
      exact conveys_put hq
  | pop h =>
    obtain ⟨e, q, he, hq⟩ | ⟨q, he, hq⟩ | ⟨packet, rest, q, he, hl, hfirst, hq⟩ :=
      wake_pop_cases hm h
    · rw [he]
      exact conveys_nothing hq
    · rw [he]
      exact conveys_nothing hq
    · rw [he]
      exact conveys_took hl hfirst hq
  | accept h =>
    apply conveys_nothing
    rw [System.pool_settle]
    exact (sameInboxes_wake_accept h).mail hm
  | bits i call =>
    apply conveys_nothing
    rw [System.pool_settle]
    exact (sameInboxes_wake_bits i call).mail hm
  | pushRaw i packet => cases hraw

theorem conveys_expire {call : Call} (hraw : call.isRaw = false) (hm : p.Mail m) :
    Conveys p (p.expire call).1 (delivery p call (.ofAnswer (p.expire call).2)) m := by
  cases call with
  | push h packet =>
    obtain ⟨e, q, he, hq⟩ | ⟨q, he, hq⟩ := expire_push_cases hm h packet
    · rw [he]
      exact conveys_nothing hq
    · rw [he]
      exact conveys_put hq
  | pop h =>
    obtain ⟨e, q, he, hq⟩ | ⟨packet, rest, q, he, hl, hfirst, hq⟩ := expire_pop_cases hm h
    · rw [he]
      exact conveys_nothing hq
    · rw [he]
      exact conveys_took hl hfirst hq
  | accept h =>
    apply conveys_nothing
    exact (sameInboxes_expire_accept h).mail hm
  | bits i call =>
    apply conveys_nothing
    exact (sameInboxes_expire_bits i call).mail hm
  | pushRaw i packet => cases hraw

end Pool

namespace System

open Pool (Op Reply Call Entry Ledger Traffic Popped delivery Conveys conveys_nothing conveys_put
  conveys_took conveys_emptied)

variable {s : System} {m : Nat → List Buffer} {l : Ledger} {h : Handle}

/-- Nobody waits on a queue without a connection. -/
def Plain (s : System) : Prop := ∀ call ∈ s.asleep, call.isRaw = false

theorem traffic_of_not_quiet {op : Op} (hq : op.isQuiet = false) : s.traffic op = .nothing := by
  cases op with
  | alloc | bind _ _ | listen _ _ | connect _ _ | setPriority _ _ | setRecvTimeout _ _
  | setSendTimeout _ _ | offerChild _ _ | resolveInbound _ _ | close _ | free _ => rfl
  | _ => cases hq

theorem conveys_rxPush (hm : s.pool.Mail m) (h : Handle) (packet : Buffer) :
    Conveys s.pool (s.step (.rxPush h packet)).1.pool (s.traffic (.rxPush h packet)) m := by
  have ht : s.traffic (.rxPush h packet) =
      delivery s.pool (.push h packet) (.pushed (s.pool.rxPush h packet).2) := rfl
  obtain ⟨e, he, hq⟩ | ⟨he, -, hq⟩ := Pool.rxPush_cases hm h packet
  · rw [ht, he]
    exact conveys_nothing hq
  · rw [ht, he]
    exact conveys_put hq

theorem conveys_rxPop (hm : s.pool.Mail m) (h : Handle) (timeout : Timeout) :
    Conveys s.pool (s.step (.rxPop h timeout)).1.pool (s.traffic (.rxPop h timeout)) m := by
  have ht : s.traffic (.rxPop h timeout) =
      delivery s.pool (.pop h) (.packet (s.pool.rxPop h timeout).2) := rfl
  obtain ⟨e, he, hq⟩ | ⟨packet, rest, he, hl, hfirst, hq⟩ := Pool.rxPop_cases hm h timeout
  · rw [ht, he]
    exact conveys_nothing hq
  · rw [ht, he]
    exact conveys_took hl hfirst hq

theorem conveys_rxFlush (hm : s.pool.Mail m) (h : Handle) :
    Conveys s.pool (s.step (.rxFlush h)).1.pool (s.traffic (.rxFlush h)) m := by
  have hr : (s.step (.rxFlush h)).2 = .count (s.pool.rxFlush h).2 := rfl
  unfold traffic
  rw [hr]
  obtain ⟨e, he, hq⟩ | ⟨he, hq⟩ := Pool.rxFlush_cases hm h
  · rw [he]
    exact conveys_nothing hq
  · rw [he]
    exact conveys_emptied hq

theorem conveys_beginPush (hm : s.pool.Mail m) (h : Handle) (packet : Buffer) :
    Conveys s.pool (s.step (.beginPush h packet)).1.pool (s.traffic (.beginPush h packet)) m := by
  have hs : s.step (.beginPush h packet) = s.settle (s.pool.beginPush h packet) := rfl
  obtain ⟨e, q, he, hq⟩ | ⟨q, he, hq⟩ | ⟨q, he, -, hq⟩ := Pool.beginPush_cases hm h packet
  · rw [traffic, hs, he]
    exact conveys_nothing hq
  · rw [traffic, hs, he]
    exact conveys_nothing hq
  · rw [traffic, hs, he]
    exact conveys_put hq

theorem conveys_beginPop (hm : s.pool.Mail m) (h : Handle) :
    Conveys s.pool (s.step (.beginPop h)).1.pool (s.traffic (.beginPop h)) m := by
  have hs : s.step (.beginPop h) = s.settle (s.pool.beginPop h true) := rfl
  obtain ⟨e, q, he, hq⟩ | ⟨q, he, hq⟩ | ⟨packet, rest, q, he, hl, hfirst, hq⟩ :=
    Pool.beginPop_cases hm h
  · rw [traffic, hs, he]
    exact conveys_nothing hq
  · rw [traffic, hs, he]
    exact conveys_nothing hq
  · rw [traffic, hs, he]
    exact conveys_took hl hfirst hq

/-- What a step that leaves the census alone does to the queues. -/
theorem conveys_step {op : Op} (hq : op.isQuiet = true)
    (hplain : s.Plain) (hm : s.pool.Mail m) :
    Conveys s.pool (s.step op).1.pool (s.traffic op) m := by
  cases op with
  | alloc | bind _ _ | listen _ _ | connect _ _ | setPriority _ _ | setRecvTimeout _ _
  | setSendTimeout _ _ | offerChild _ _ | resolveInbound _ _ | close _ | free _ => cases hq
  | rxPush h packet => exact conveys_rxPush hm h packet
  | rxPop h timeout => exact conveys_rxPop hm h timeout
  | rxFlush h => exact conveys_rxFlush hm h
  | beginPush h packet => exact conveys_beginPush hm h packet
  | beginPop h => exact conveys_beginPop hm h
  | accept h timeout => exact conveys_nothing ((Pool.sameInboxes_accept h timeout).mail hm)
  | options _ | phase _ | info _ | events _ | rxQueue _ => exact conveys_nothing hm
  | attachMonitor | dropMonitor | readEvents => exact conveys_nothing hm
  | beginAccept h =>
    apply conveys_nothing
    rw [step, pool_settle]
    exact (Pool.sameInboxes_beginAccept h true).mail hm
  | wake k =>
    cases hk : s.asleep[k]? with
    | none =>
      rw [traffic, step, hk]
      exact conveys_nothing hm
    | some call =>
      rw [traffic, step, hk]
      exact Pool.conveys_wake (hplain call (List.mem_of_getElem? hk)) hm _
  | expire k =>
    cases hk : s.asleep[k]? with
    | none =>
      rw [traffic, step, hk]
      exact conveys_nothing hm
    | some call =>
      rw [traffic, step, hk]
      exact Pool.conveys_expire (hplain call (List.mem_of_getElem? hk)) hm

/-- The packets after any step: what has ended is empty, and the rest is as the traffic says. -/
theorem mail_step (op : Op) (hplain : s.Plain)
    (hm : s.pool.Mail m) : (s.step op).1.pool.Mail fun i =>
      if s.pool.Ends (s.step op).1.pool i then [] else (s.traffic op).apply Entry.packet m i := by
  by_cases hq : op.isQuiet = true
  · -- the census is the same, so nothing has ended
    have hn : ∀ i, ¬ s.pool.Ends (s.step op).1.pool i := by
      intro i
      unfold Pool.Ends
      rw [census_step_of_quiet s hq]
      exact Status.not_ends_self _
    intro i
    dsimp only
    rw [if_neg (hn i)]
    exact (conveys_step hq hplain hm).mail i
  · rw [Bool.not_eq_true] at hq
    rw [traffic_of_not_quiet hq]
    exact discards_step s hq m hm

/-! ## Nobody begins to wait on a bare queue -/

theorem Plain.rouse (hs : s.Plain) (k : Nat) : (s.rouse k).Plain :=
  fun call hc => hs call (List.mem_of_mem_eraseIdx hc)

theorem Plain.settle {o : Pool.Outcome} (hs : s.Plain)
    (ho : ∀ call, o.2 = .parked call → call.isRaw = false) : (s.settle o).1.Plain := by
  obtain ⟨p, answer | call⟩ := o
  · exact hs
  · intro call' hc
    obtain hc | hc := List.mem_append.1 hc
    · exact hs call' hc
    · rw [List.mem_singleton.1 hc]
      exact ho call rfl

theorem parked_beginPush {p : Pool} {packet : Buffer} {call : Call}
    (hp : (p.beginPush h packet).2 = .parked call) : call.isRaw = false := by
  unfold Pool.beginPush at hp
  split at hp
  · cases hp
  · split at hp <;> cases hp
    rfl

theorem parked_beginPop {p : Pool} {waits : Bool} {call : Call}
    (hp : (p.beginPop h waits).2 = .parked call) : call.isRaw = false := by
  unfold Pool.beginPop at hp
  split at hp
  · cases hp
  · cases hp
  · split at hp <;> cases hp
    rfl

theorem parked_beginAccept {p : Pool} {waits : Bool} {call : Call}
    (hp : (p.beginAccept h waits).2 = .parked call) : call.isRaw = false := by
  unfold Pool.beginAccept at hp
  split at hp
  · cases hp
  · cases hp
  · split at hp <;> cases hp
    rfl

theorem parked_wake {p : Pool} {call call' : Call} (hraw : call.isRaw = false)
    (hp : (p.wake call).2 = .parked call') : call'.isRaw = false := by
  unfold Pool.wake at hp
  cases call with
  | push h packet =>
    dsimp only at hp
    split at hp
    · cases hp
    · split at hp <;> cases hp
      rfl
  | pushRaw i packet => cases hraw
  | pop h =>
    dsimp only at hp
    split at hp
    · exact parked_beginPop hp
    · cases hp
      rfl
  | accept h =>
    dsimp only at hp
    split at hp
    · exact parked_beginAccept hp
    · cases hp
      rfl
  | bits i call =>
    dsimp only at hp
    split at hp <;> cases hp
    rfl

theorem Plain.step (hs : s.Plain) (op : Op) : (s.step op).1.Plain := by
  cases op with
  | beginPush h packet => exact hs.settle fun _ => parked_beginPush
  | beginPop h => exact hs.settle fun _ => parked_beginPop
  | beginAccept h => exact hs.settle fun _ => parked_beginAccept
  | wake k =>
    obtain he | ⟨call, hk, he⟩ := step_wake_cases s k
    · rw [he]
      exact hs
    · rw [he]
      exact (hs.rouse k).settle fun _ => parked_wake (hs call (List.mem_of_getElem? hk))
  | expire k =>
    obtain he | ⟨call, hk, he⟩ := step_expire_cases s k
    · rw [he]
      exact hs
    · rw [he]
      exact hs.rouse k
  | _ => exact hs

/-! ## The ledger is kept -/

/-- The ledger lists the packets in the queues, and a packet that was on time belongs to the
connection that has the slot. -/
structure Kept (s : System) (l : Ledger) : Prop where
  mail : s.pool.Mail fun i => (l i).map Entry.packet
  owner : ∀ i, ∀ e ∈ l i, e.late = false →
    (s.pool.census.status i).phase.isActive = true ∧
      e.owner = ⟨i, (s.pool.census.status i).generation⟩
  plain : s.Plain

theorem kept_new {c : Config} {p : Pool} (hnew : Pool.new c = .ok p) :
    p.atRest.Kept fun _ => [] where
  mail := by
    intro i
    have hnone : p.inbox i = none := by
      rw [Pool.inbox, Pool.slotAt_new hnew]
      rfl
    change p.Carries i []
    unfold Pool.Carries
    rw [hnone]
  owner := fun _ _ he => absurd he List.not_mem_nil
  plain := fun _ hc => absurd hc List.not_mem_nil

theorem mem_or_of_mem_update {i k : Nat} {e : Entry} {es : List Entry}
    (he : e ∈ Function.update l k es i) : e ∈ l i ∨ (i = k ∧ e ∈ es) := by
  by_cases hi : i = k
  · rw [hi, Function.update_self] at he
    exact .inr ⟨hi, he⟩
  · rw [Function.update_of_ne hi] at he
    exact .inl he

/-- What is in the ledger after some traffic was there before or has just come. -/
theorem mem_apply {t : Traffic} {e : Entry} {i : Nat} (he : e ∈ t.apply id l i) :
    e ∈ l i ∨ (t = .put e ∧ i = e.owner.index) := by
  cases t with
  | put e' =>
    obtain hold | ⟨rfl, hnew⟩ := mem_or_of_mem_update he
    · exact .inl hold
    · obtain hold | hnew := List.mem_append.1 hnew
      · exact .inl hold
      · obtain rfl := List.mem_singleton.1 hnew
        exact .inr ⟨rfl, rfl⟩
  | took h packet =>
    left
    obtain hold | ⟨rfl, hrest⟩ := mem_or_of_mem_update he
    · exact hold
    · exact List.mem_of_mem_tail hrest
  | emptied h =>
    left
    obtain hold | ⟨rfl, hnone⟩ := mem_or_of_mem_update he
    · exact hold
    · exact absurd hnone List.not_mem_nil
  | nothing => exact .inl he

/-- Whether a packet is late is whether its connection is active when it is accepted. -/
theorem late_of_put {op : Op} {e : Entry} (ht : s.traffic op = .put e) :
    e.late = !s.pool.isOpen e.owner := by
  have hdelivery : ∀ (call : Call) (reply : Reply), delivery s.pool call reply = .put e →
      e.late = !s.pool.isOpen e.owner := by
    intro call reply hd
    unfold delivery at hd
    split at hd <;> cases hd
    rfl
  unfold traffic at ht
  split at ht
  · exact hdelivery _ _ ht
  · exact hdelivery _ _ ht
  · exact hdelivery _ _ ht
  · exact hdelivery _ _ ht
  · cases ht
  · split at ht
    · exact hdelivery _ _ ht
    · cases ht
  · split at ht
    · exact hdelivery _ _ ht
    · cases ht
  · cases ht

theorem Kept.step (hk : s.Kept l) (op : Op) : (s.step op).1.Kept (s.record op l) where
  mail := by
    have hm := mail_step op hk.plain hk.mail
    intro i
    have hi := hm i
    dsimp only [record] at hi ⊢
    by_cases hends : s.pool.Ends (s.step op).1.pool i
    · rw [if_pos hends] at hi ⊢
      exact hi
    · rw [if_neg hends] at hi ⊢
      rw [congrFun (Pool.packets_apply (s.traffic op) l) i]
      exact hi
  owner := by
    intro i e he hlate
    unfold record at he
    by_cases hends : s.pool.Ends (s.step op).1.pool i
    · rw [if_pos hends] at he
      exact absurd he List.not_mem_nil
    · rw [if_neg hends] at he
      -- before the step the slot was that of the owner, be the packet an old or a new one
      have hbefore : (s.pool.census.status i).phase.isActive = true ∧
          e.owner = ⟨i, (s.pool.census.status i).generation⟩ := by
        obtain he | ⟨ht, hi⟩ := mem_apply he
        · exact hk.owner i e he hlate
        · have hopen : s.pool.isOpen e.owner = true := by
            rw [← Bool.not_eq_false', ← late_of_put ht]
            exact hlate
          obtain ⟨hl, ha⟩ := Pool.isOpen_iff.1 hopen
          rw [hi]
          exact ⟨ha, (Census.Live.eta hl).symm⟩
      obtain ⟨hact, howner⟩ := hbefore
      obtain ⟨hact', hgen⟩ := (moves_step s op).generation_of_active hact hends
      refine ⟨hact', ?_⟩
      rw [hgen]
      exact howner
  plain := hk.plain.step op

/-- A packet that is popped is the oldest in the ledger, and reaches its own handle if it was
on time. -/
theorem Kept.front (hk : s.Kept l) {op : Op} {packet : Buffer}
    (ht : s.traffic op = .took h packet) :
    ∃ e, (l h.index).head? = some e ∧ e.packet = packet ∧ (e.late = false → e.owner = h) := by
  -- only steps that leave the census alone pop
  have hq : op.isQuiet = true := by
    by_contra hq
    rw [Bool.not_eq_true] at hq
    rw [traffic_of_not_quiet hq] at ht
    cases ht
  obtain ⟨hl, hfirst⟩ := (conveys_step hq hk.plain hk.mail).first h packet ht
  rw [List.head?_map, Option.map_eq_some_iff] at hfirst
  obtain ⟨e, he, hpacket⟩ := hfirst
  refine ⟨e, he, hpacket, ?_⟩
  -- the slot is that of the owner, and `h` is live in it
  intro hlate
  obtain ⟨-, howner⟩ := hk.owner h.index e (List.mem_of_head? he) hlate
  rw [howner, hl.1]

/-! ## Runs -/

variable {ops : List Op}

/-- In every run a pop returns the oldest packet in the ledger. -/
theorem front_of_pops (hk : s.Kept l) : ∀ pop ∈ popsFrom l s ops, ∃ e, pop.front = some e ∧
    e.packet = pop.packet ∧ (e.late = false → e.owner = pop.handle) := by
  induction ops generalizing s l with
  | nil => exact fun _ hpop => absurd hpop List.not_mem_nil
  | cons op ops ih =>
    intro pop hpop
    obtain hnow | hlater := List.mem_append.1 hpop
    · cases ht : s.traffic op with
      | took h packet =>
        rw [ht] at hnow
        obtain rfl := List.mem_singleton.1 hnow
        exact hk.front ht
      | put _ | emptied _ | nothing =>
        rw [ht] at hnow
        exact absurd hnow List.not_mem_nil
    · exact ih (hk.step op) pop hlater

/-- If no push is late, neither is what is popped. -/
theorem front_of_puts (hl : ∀ i, ∀ e ∈ l i, e.late = false)
    (hputs : ∀ e ∈ s.puts ops, e.late = false) :
    ∀ pop ∈ popsFrom l s ops, ∀ e, pop.front = some e → e.late = false := by
  induction ops generalizing s l with
  | nil => exact fun _ hpop => absurd hpop List.not_mem_nil
  | cons op ops ih =>
    intro pop hpop e he
    obtain hnow | hlater := List.mem_append.1 hpop
    · cases ht : s.traffic op with
      | took h packet =>
        rw [ht] at hnow
        obtain rfl := List.mem_singleton.1 hnow
        exact hl _ e (List.mem_of_head? he)
      | put _ | emptied _ | nothing =>
        rw [ht] at hnow
        exact absurd hnow List.not_mem_nil
    · refine ih ?_ ?_ pop hlater e he
      · intro i e' he'
        unfold record at he'
        by_cases hends : s.pool.Ends (s.step op).1.pool i
        · rw [if_pos hends] at he'
          exact absurd he' List.not_mem_nil
        · rw [if_neg hends] at he'
          obtain he' | ⟨ht, -⟩ := mem_apply he'
          · exact hl i e' he'
          · apply hputs
            rw [puts, ht]
            exact List.mem_cons_self
      · intro e' he'
        exact hputs e' (List.mem_append_right _ he')

/-- What may still be popped through a handle. -/
def owed (l : Ledger) (h : Handle) : List Buffer := Entry.packetsFor h (l h.index)

theorem packetsFor_append (h : Handle) (a b : List Entry) :
    Entry.packetsFor h (a ++ b) = Entry.packetsFor h a ++ Entry.packetsFor h b := by
  rw [Entry.packetsFor, List.filter_append, List.map_append]
  rfl

theorem packetsOf_append (h : Handle) (a b : List Popped) :
    Popped.packetsOf h (a ++ b) = Popped.packetsOf h a ++ Popped.packetsOf h b := by
  rw [Popped.packetsOf, List.filter_append, List.map_append]
  rfl

theorem packetsFor_sublist {a b : List Entry} (hab : a.Sublist b) (h : Handle) :
    (Entry.packetsFor h a).Sublist (Entry.packetsFor h b) := (hab.filter _).map _

/-- A queue that loses packets leaves less owed. -/
theorem owed_update_sublist {i : Nat} {es : List Entry} (hes : es.Sublist (l i)) (h : Handle) :
    (owed (Function.update l i es) h).Sublist (owed l h) := by
  apply packetsFor_sublist
  by_cases hi : h.index = i
  · rw [hi, Function.update_self]
    exact hes
  · rw [Function.update_of_ne hi]

theorem owed_put (e : Entry) (h : Handle) :
    (owed (Function.update l e.owner.index (l e.owner.index ++ [e])) h).Sublist
      (owed l h ++ Entry.packetsFor h [e]) := by
  by_cases hi : h.index = e.owner.index
  · rw [owed, hi, Function.update_self, packetsFor_append, owed, hi]
  · -- the packet is for a connection of another slot
    rw [owed, Function.update_of_ne hi]
    exact List.sublist_append_left _ _

theorem owed_took {e : Entry} {k : Handle} (he : (l k.index).head? = some e) (howner : e.owner = k)
    (h : Handle) :
    (Popped.packetsOf h [⟨k, e.packet, some e⟩] ++
      owed (Function.update l k.index (l k.index).tail) h).Sublist (owed l h) := by
  by_cases hk : k = h
  · subst hk
    obtain ⟨rest, hrest⟩ := List.head?_eq_some_iff.1 he
    have hsame : Popped.packetsOf k [⟨k, e.packet, some e⟩] ++ Entry.packetsFor k rest =
        Entry.packetsFor k (e :: rest) := by
      simp [Popped.packetsOf, Entry.packetsFor, howner]
    rw [owed, Function.update_self, hrest, List.tail_cons, hsame, owed, hrest]
  · -- what another handle pops is owed to that handle
    have hnone : Popped.packetsOf h [⟨k, e.packet, some e⟩] = [] := by
      simp [Popped.packetsOf, hk]
    rw [hnone, List.nil_append]
    exact owed_update_sublist (List.tail_sublist _) h

/-- What is popped through a handle in a step, and what is still owed after it, was owed
before or has just been accepted. -/
theorem owed_step {op : Op} (h : Handle)
    (hown : ∀ pop ∈ (s.traffic op).pops l, ∃ e, pop.front = some e ∧ e.packet = pop.packet ∧
      e.owner = pop.handle) :
    (Popped.packetsOf h ((s.traffic op).pops l) ++ owed (s.record op l) h).Sublist
      (owed l h ++ Entry.packetsFor h (s.traffic op).puts) := by
  -- what is dropped at the end of a connection is owed no more
  have hrecord : (owed (s.record op l) h).Sublist (owed ((s.traffic op).apply id l) h) := by
    apply packetsFor_sublist
    unfold record
    split
    · exact List.nil_sublist _
    · exact .refl _
  refine List.Sublist.trans (List.Sublist.append (.refl _) hrecord) ?_
  cases ht : s.traffic op with
  | nothing => exact List.sublist_append_left _ _
  | emptied k =>
    exact (owed_update_sublist (List.nil_sublist _) h).trans (List.sublist_append_left _ _)
  | put e => exact owed_put e h
  | took k packet =>
    rw [ht] at hown
    obtain ⟨e, he, hpacket, howner⟩ := hown _ List.mem_cons_self
    have htook := owed_took he howner h
    rw [hpacket] at htook
    refine List.Sublist.trans ?_ (List.sublist_append_left _ _)
    rw [show Traffic.pops l (.took k packet) = [⟨k, packet, some e⟩] from
      congrArg (fun front => [Popped.mk k packet front]) he]
    exact htook

/-- If every packet reaches its own handle, those that are popped are those that are owed or
accepted later, in this order. -/
theorem popped_sublist (h : Handle)
    (hown : ∀ pop ∈ popsFrom l s ops, ∃ e, pop.front = some e ∧ e.packet = pop.packet ∧
      e.owner = pop.handle) :
    (Popped.packetsOf h (popsFrom l s ops)).Sublist
      (owed l h ++ Entry.packetsFor h (s.puts ops)) := by
  induction ops generalizing s l with
  | nil => exact List.nil_sublist _
  | cons op ops ih =>
    have hnow := owed_step h fun pop hpop => hown pop (List.mem_append_left _ hpop)
    have hlater := ih fun pop hpop => hown pop (List.mem_append_right _ hpop)
    -- the later pops come out of what is owed after this step and what is accepted later
    rw [popsFrom, puts, packetsOf_append, packetsFor_append, ← List.append_assoc]
    refine List.Sublist.trans (List.Sublist.append (.refl _) hlater) ?_
    rw [← List.append_assoc]
    exact List.Sublist.append hnow (.refl _)

theorem isolated_of_own (hown : ∀ pop ∈ s.pops ops, ∃ e, pop.front = some e ∧
    e.packet = pop.packet ∧ e.owner = pop.handle) : s.Isolated ops where
  own := hown
  -- nothing is owed at the start
  ordered := fun h => popped_sublist h hown

end System

namespace Pool

/-- In every run, packets stay with their handles exactly if no late packet comes first when
another handle pops; and they do if no push that slept is accepted after the end of its
connection. -/
theorem isolated_run_iff {c : Config} {p : Pool} (hnew : new c = .ok p) (ops : List Op) :
    (p.atRest.Isolated ops ↔ ∀ pop ∈ p.atRest.pops ops, ∀ e, pop.front = some e →
      e.late = true → e.owner = pop.handle) ∧
    ((∀ e ∈ p.atRest.puts ops, e.late = false) → p.atRest.Isolated ops) := by
  have hfront := @System.front_of_pops _ _ ops (System.kept_new hnew)
  have hiff : p.atRest.Isolated ops ↔ ∀ pop ∈ p.atRest.pops ops, ∀ e, pop.front = some e →
      e.late = true → e.owner = pop.handle := by
    constructor
    · intro hiso pop hpop e he hlate
      obtain ⟨e', he', -, howner⟩ := hiso.own pop hpop
      rw [he] at he'
      cases he'
      exact howner
    · intro hlate
      apply System.isolated_of_own
      intro pop hpop
      obtain ⟨e, he, hpacket, htime⟩ := hfront pop hpop
      refine ⟨e, he, hpacket, ?_⟩
      cases hl : e.late with
      | false => exact htime hl
      | true => exact hlate pop hpop e he hl
  refine ⟨hiff, ?_⟩
  intro hputs
  apply hiff.2
  intro pop hpop e he hlate
  have htime := System.front_of_puts (fun _ _ he => absurd he List.not_mem_nil) hputs pop hpop e he
  rw [hlate] at htime
  cases htime

/-- A push sleeps behind a full queue, its connection is closed and the queue drained, and the
push goes in: the connection that gets the slot next pops the packet. -/
theorem late_packet_for_next_connection :
    ∃ p, new { maxConnections := 1, connQueueLen := 1 } = .ok p ∧
      ¬ p.atRest.Isolated [.alloc, .connect ⟨0, 0⟩ ⟨0x42, 3⟩,
        .rxPush ⟨0, 0⟩ ⟨none, [1], 0, 1⟩, .beginPush ⟨0, 0⟩ ⟨none, [2], 0, 1⟩, .close ⟨0, 0⟩,
        .wake 0, .free ⟨0, 0⟩, .alloc, .connect ⟨0, 1⟩ ⟨0x42, 3⟩, .rxPop ⟨0, 1⟩ none] := by
  refine ⟨_, rfl, ?_⟩
  intro hiso
  -- the one pop of the run
  have hpop := hiso.own ⟨⟨0, 1⟩, ⟨none, [2], 0, 1⟩, some ⟨⟨0, 0⟩, ⟨none, [2], 0, 1⟩, true⟩⟩
    (by decide +kernel)
  obtain ⟨e, he, -, howner⟩ := hpop
  cases he
  revert howner
  decide

/-- A push that slept is in time, since a pop and not the end of the connection made room. -/
theorem isolated_push_that_slept :
    ∃ p, new { maxConnections := 1, connQueueLen := 1 } = .ok p ∧
      ((p.atRest.pops [.alloc, .connect ⟨0, 0⟩ ⟨0x42, 3⟩, .rxPush ⟨0, 0⟩ ⟨none, [1], 0, 1⟩,
        .beginPush ⟨0, 0⟩ ⟨none, [2], 0, 1⟩, .rxPop ⟨0, 0⟩ none, .wake 0,
        .rxPop ⟨0, 0⟩ none]).map fun pop => pop.packet.used) = [[1], [2]] ∧
      p.atRest.Isolated [.alloc, .connect ⟨0, 0⟩ ⟨0x42, 3⟩, .rxPush ⟨0, 0⟩ ⟨none, [1], 0, 1⟩,
        .beginPush ⟨0, 0⟩ ⟨none, [2], 0, 1⟩, .rxPop ⟨0, 0⟩ none, .wake 0, .rxPop ⟨0, 0⟩ none] := by
  refine ⟨_, rfl, by decide +kernel, ?_⟩
  apply (isolated_run_iff (c := { maxConnections := 1, connQueueLen := 1 }) rfl _).2
  decide +kernel

end Pool

end Netstack
