import Netstack.Conn.Event
import Netstack.Pool.Slot
import Netstack.Port.Table

/-
Connection pools: a fixed number of slots, and the port table that their connections
are members of.

A connection is found through its handle, and only while the slot is in the use that
the handle names. Every operation gives the pool afterwards together with its result:
most failures leave the pool as it was, but that is a statement about each operation
and not a property of the form.
-/

set_option autoImplicit false

namespace Netstack

/-- Who is told about the connections of a pool. -/
inductive Monitor
  /-- nobody ever asked -/
  | absent
  /-- the events that were not read yet, oldest first -/
  | attached (events : List ConnEvent)
  /-- somebody asked and went away -/
  | abandoned
  deriving DecidableEq, Repr

namespace Monitor

def record (m : Monitor) (event : ConnEvent) : Monitor :=
  match m with
  | attached events => attached (events ++ [event])
  | m => m

/-- Read the events: nothing if nobody listens. -/
def read : Monitor → Monitor × Option (List ConnEvent)
  | attached events => (attached [], some events)
  | m => (m, none)

/-- Whether somebody ever asked. -/
def isPresent : Monitor → Bool
  | absent => false
  | _ => true

end Monitor

structure Pool where
  slots : Array Slot
  ports : PortTable
  limits : Limits
  monitor : Monitor

/-- A snapshot of a connection. -/
structure ConnInfo where
  phase : Phase
  role : String
  options : Options
  parent : Option Handle
  opened : Bool
  /-- packets in the receive queue -/
  pending : Nat

namespace Pool

/-- A pool with its slots as the configuration says. -/
def new (c : Config) : Except Error Pool := do
  if c.maxConnections = 0 ∨ c.connQueueLen = 0 then throw (.invalidArgument .emptyPool)
  Memory.reserve c.maxConnections
  return { slots := Array.replicate c.maxConnections Slot.vacant
           ports := .empty
           limits := .ofConfig c
           monitor := .absent }

/-! ## Looking connections up -/

/-- The slot with this number. -/
def slotAt (p : Pool) (i : Nat) : Slot := (p.slots[i]?).getD Slot.vacant

/-- The slot of a live connection. -/
def slot? (p : Pool) (h : Handle) : Option Slot :=
  match p.slots[h.index]? with
  | some s => if s.generation = h.generation ∧ s.phase ≠ .free then some s else none
  | none => none

/-- The slot of a connection, which has to be live. -/
def slot (p : Pool) (h : Handle) : Except Error Slot :=
  match p.slot? h with
  | some s => .ok s
  | none => .error .staleHandle

theorem slot?_eq_some_iff {p : Pool} {h : Handle} {s : Slot} :
    p.slot? h = some s ↔
      p.slots[h.index]? = some s ∧ s.generation = h.generation ∧ s.phase ≠ .free := by
  unfold slot?
  split
  · next t ht =>
    rw [ht]
    split
    · next hc =>
      constructor
      · rintro ⟨⟩; exact ⟨rfl, hc⟩
      · rintro ⟨⟨⟩, _⟩; rfl
    · next hc =>
      constructor
      · intro hn; simp at hn
      · rintro ⟨⟨⟩, hs⟩; exact absurd hs hc
  · next hn => simp [hn]

theorem slot_eq_ok_iff {p : Pool} {h : Handle} {s : Slot} :
    p.slot h = .ok s ↔ p.slot? h = some s := by
  unfold slot
  split <;> simp [*]

/-- The event group of a connection. -/
def events (p : Pool) (h : Handle) : Except Error EventGroup := do
  match (← p.slot h).events with
  | some group => return group
  | none => throw .destroyed

/-- The receive queue of a connection. -/
def rxQueue (p : Pool) (h : Handle) : Except Error (Fifo Buffer) := do
  match (← p.slot h).rxQueue with
  | some queue => return queue
  | none => throw .destroyed

def options (p : Pool) (h : Handle) : Except Error Options := do
  return (← p.slot h).options

def phase (p : Pool) (h : Handle) : Except Error Phase := do
  return (← p.slot h).phase

def info (p : Pool) (h : Handle) : Except Error ConnInfo := do
  let s ← p.slot h
  return { phase := s.phase
           role := s.role.name
           options := s.options
           parent := s.role.parent?
           opened := s.opened
           pending := (s.rxQueue.map (·.length)).getD 0 }

/-- Number of slots. -/
def capacity (p : Pool) : Nat := p.slots.size

/-- Number of live connections. -/
def inUse (p : Pool) : Nat := p.slots.countP fun s => s.phase ≠ .free

/-- The handles of the live connections, by slot. -/
def live (p : Pool) : List Handle :=
  (List.range p.slots.size).filterMap fun i =>
    let s := p.slotAt i
    if s.phase ≠ .free then some ⟨i, s.generation⟩ else none

/-! ## Changing one slot -/

def modify (p : Pool) (i : Nat) (f : Slot → Slot) : Pool :=
  { p with slots := p.slots.modify i f }

theorem size_modify (p : Pool) (i : Nat) (f : Slot → Slot) :
    (p.modify i f).slots.size = p.slots.size := by
  simp [modify]

theorem slotAt_modify {p : Pool} {i : Nat} (h : i < p.slots.size) (f : Slot → Slot) :
    (p.modify i f).slotAt i = f (p.slotAt i) := by
  rw [slotAt, slotAt, modify, Array.getElem?_modify]
  simp [h]

theorem slotAt_modify_of_ne {i j : Nat} (h : i ≠ j) (p : Pool) (f : Slot → Slot) :
    (p.modify i f).slotAt j = p.slotAt j := by
  simp [slotAt, modify, Array.getElem?_modify, h]

/-- Tell the monitor. -/
def emit (p : Pool) (event : ConnEvent) : Pool :=
  { p with monitor := p.monitor.record event }

def setQueue (p : Pool) (i : Nat) (queue : Fifo Buffer) : Pool :=
  p.modify i fun s => { s with rxQueue := some queue }

def setEvents (p : Pool) (i : Nat) (group : EventGroup) : Pool :=
  p.modify i fun s => { s with events := some group }

/-- Work on the receive queue of a connection. -/
def onQueue {α : Type} (p : Pool) (h : Handle) (f : Fifo Buffer → Fifo Buffer × α) :
    Pool × Except Error α :=
  match p.rxQueue h with
  | .error e => (p, .error e)
  | .ok queue =>
    let (queue, answer) := f queue
    (p.setQueue h.index queue, .ok answer)

/-- Work on the event group of a connection. -/
def onEvents {α : Type} (p : Pool) (h : Handle) (f : EventGroup → EventGroup × α) :
    Pool × Except Error α :=
  match p.events h with
  | .error e => (p, .error e)
  | .ok group =>
    let (group, answer) := f group
    (p.setEvents h.index group, .ok answer)

/-- Change the options of a connection. -/
def updateOptions (p : Pool) (h : Handle) (f : Options → Options) : Pool × Except Error Unit :=
  match p.slot h with
  | .error e => (p, .error e)
  | .ok _ => (p.modify h.index fun s => { s with options := f s.options }, .ok ())

def setRecvTimeout (p : Pool) (h : Handle) (timeout : Timeout) : Pool × Except Error Unit :=
  p.updateOptions h fun o => { o with recvTimeout := timeout }

def setSendTimeout (p : Pool) (h : Handle) (timeout : Timeout) : Pool × Except Error Unit :=
  p.updateOptions h fun o => { o with sendTimeout := timeout }

/-! ## Monitoring -/

/-- Start to tell a new monitor about the connections; an earlier one is forgotten. -/
def attachMonitor (p : Pool) : Pool := { p with monitor := .attached [] }

/-- The monitor goes away. -/
def dropMonitor (p : Pool) : Pool :=
  { p with monitor := if p.monitor.isPresent then .abandoned else .absent }

/-- The events since they were last read. -/
def readEvents (p : Pool) : Pool × Option (List ConnEvent) :=
  let (monitor, events) := p.monitor.read
  ({ p with monitor := monitor }, events)

def debug (p : Pool) : String :=
  Text.recordPart "ConnectionPool"
    [ Text.field "limits" p.limits.debug,
      Text.field "monitored" (Text.bool p.monitor.isPresent) ]

end Pool

end Netstack
