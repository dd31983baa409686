import Netstack.Proofs.Queue.Alone

/-
The calls of a queue, each seen from the gate at which it waits.

A push waits for room and a pop waits for items. Apart from that they go the same way: a
call is served if there is something to serve it with, and whoever is served leaves one
more for the other side and wakes one caller there. `Ring.stock` counts what there is for a
side, free slots or entries, and `Ring.Serves` is what serving does to a ring.

The pieces of a call are described once for both sides, `begin_cases`, `wake_cases` and
`last_cases` by what they come to and `serve_cases` by what serving does. A pop is the only
call that can fail although there is something for it: when its destination cannot take the
oldest entry. What every piece keeps is checked piece by piece with `Queue.Stable`.
-/

set_option autoImplicit false

namespace Netstack

/-- The two gates of a queue: who pushes waits for room, who pops for items. -/
inductive Side
  | room
  | items
  deriving DecidableEq

def Side.opposite : Side → Side
  | room => items
  | items => room

theorem Side.eq_or_eq_opposite (σ τ : Side) : τ = σ ∨ τ = σ.opposite := by
  cases σ <;> cases τ <;> simp [opposite]

theorem Side.opposite_ne (σ : Side) : σ.opposite ≠ σ := by
  cases σ <;> simp [opposite]

namespace Ring

variable {r : Ring} {σ : Side}

def gate (r : Ring) : Side → Gate
  | .room => r.room
  | .items => r.items

def mapGate (r : Ring) : Side → (Gate → Gate) → Ring
  | .room, f => r.mapRoom f
  | .items, f => r.mapItems f

/-- How many callers of a side can be served: free slots, or entries. -/
def stock (r : Ring) : Side → Nat
  | .room => r.capacity - r.length
  | .items => r.length

@[simp] theorem gate_mapGate_self (f : Gate → Gate) : (r.mapGate σ f).gate σ = f (r.gate σ) := by
  cases σ <;> rfl

@[simp] theorem gate_mapGate_opposite (f : Gate → Gate) :
    (r.mapGate σ f).gate σ.opposite = r.gate σ.opposite := by
  cases σ <;> rfl

@[simp] theorem stock_mapGate (f : Gate → Gate) (τ : Side) :
    (r.mapGate σ f).stock τ = r.stock τ := by
  cases σ <;> cases τ <;> rfl

@[simp] theorem destroyed_mapGate (f : Gate → Gate) : (r.mapGate σ f).destroyed = r.destroyed := by
  cases σ <;> rfl

@[simp] theorem length_mapGate (f : Gate → Gate) : (r.mapGate σ f).length = r.length := by
  cases σ <;> rfl

@[simp] theorem capacity_mapGate (f : Gate → Gate) : (r.mapGate σ f).capacity = r.capacity := by
  cases σ <;> rfl

theorem isFull_iff : r.isFull = true ↔ r.stock .room = 0 := by
  simp only [isFull, stock, decide_eq_true_eq]
  omega

theorem isEmpty_iff : r.isEmpty = true ↔ r.stock .items = 0 := by
  simp [isEmpty, stock]

/-- A queue is emptied or retired only when nobody waits. -/
theorem waiters_of_checkIdle {r : Ring} (h : r.checkIdle = .ok ()) : r.waiters = 0 := by
  unfold checkIdle at h
  split at h
  · cases h
  · split at h
    · cases h
    · next hnone => exact Nat.eq_zero_of_not_pos hnone

/-- A caller of a side was served: there is one less for its side and one more for the
other, where one caller is woken. -/
structure Serves (σ : Side) (r r' : Ring) : Prop where
  own : r'.gate σ = r.gate σ
  other : r'.gate σ.opposite = (r.gate σ.opposite).notifyOne
  stock : r'.stock σ + 1 = r.stock σ
  stockOther : r'.stock σ.opposite = r.stock σ.opposite + 1
  destroyed : r'.destroyed = r.destroyed

theorem serves_pushed (h : r.stock .room ≠ 0) : r.Serves .room r.pushed := by
  refine ⟨rfl, rfl, ?_, rfl, rfl⟩
  simp only [stock, pushed] at h ⊢
  omega

theorem serves_popped (h : r.stock .items ≠ 0) (hfits : r.length ≤ r.capacity) :
    r.Serves .items r.popped := by
  refine ⟨rfl, rfl, ?_, ?_, rfl⟩ <;>
    simp only [stock, popped, Side.opposite] at h ⊢ <;> omega

end Ring

namespace Queue

variable {S ι δ ρ : Type} [Storage S ι δ ρ] {q : Queue S}

/-- The gate at which a call waits. -/
def Call.side : Call ι δ → Side
  | push _ => .room
  | pop _ => .items

/-- The answer of a call that fails. -/
def Call.fail (e : Error) : Call ι δ → Answer ι ρ
  | push item => .pushed (.error ⟨e, item⟩)
  | pop _ => .popped (.error e)

/-- The beginning of a call. -/
def begin (q : Queue S) (waits : Bool) : Call ι δ → Queue S × Progress (Call ι δ) (Answer ι ρ)
  | .push item => (q.beginPush item waits).map id (·.map .push .pushed)
  | .pop destination => (q.beginPop destination waits).map id (·.map .pop .popped)

/-- The last look of a call whose time is up. -/
def last (q : Queue S) : Call ι δ → Queue S × Answer ι ρ
  | .push item => (q.lastPush item).map id .pushed
  | .pop destination => (q.lastPop destination).map id .popped

/-- What a call does when there is something for it. -/
def serve (q : Queue S) : Call ι δ → Queue S × Answer ι ρ
  | .push item => (q.enqueue item, .pushed (.ok ()))
  | .pop destination => (q.dequeue destination).map id .popped

def mapGate (q : Queue S) (σ : Side) (f : Gate → Gate) : Queue S :=
  { q with ring := q.ring.mapGate σ f }

@[simp] theorem ring_mapGate (σ : Side) (f : Gate → Gate) :
    (q.mapGate σ f).ring = q.ring.mapGate σ f := rfl

theorem mapGate_mapGate (σ : Side) (f g : Gate → Gate) :
    (q.mapGate σ f).mapGate σ g = q.mapGate σ fun gate => g (f gate) := by
  cases σ <;> rfl

/-- When the time of a call is up, it sleeps no more, and then looks for the last time. -/
theorem expire_eq (q : Queue S) (c : Call ι δ) :
    (Blocking.expire q c : Queue S × Answer ι ρ) = (q.mapGate c.side Gate.giveUp).last c := by
  cases c <;> rfl

/-! ## What the pieces of a call come to -/

/-- A call fails at once, or is served at once, or goes to sleep because there is nothing
for it. -/
theorem begin_cases (q : Queue S) (waits : Bool) (c : Call ι δ) :
    (∃ e, q.begin waits c = (q, .done (c.fail e))) ∨
    (q.ring.destroyed = false ∧ q.ring.stock c.side ≠ 0 ∧
      q.begin waits c = (q.serve c).map id .done) ∨
    (q.ring.destroyed = false ∧ q.ring.stock c.side = 0 ∧
      q.begin waits c = (q.mapGate c.side Gate.enter, .parked c)) := by
  cases c with
  | push item =>
    simp only [begin, beginPush, Call.side, ne_eq, ← Ring.isFull_iff]
    cases Storage.checkItem q.store item with
    | error e => exact .inl ⟨e, rfl⟩
    | ok u =>
      cases hd : q.ring.destroyed with
      | true => exact .inl ⟨.destroyed, rfl⟩
      | false =>
        cases hfull : q.ring.isFull with
        | false => exact .inr (.inl ⟨rfl, by simp, rfl⟩)
        | true =>
          cases waits with
          | false => exact .inl ⟨.queueFull, rfl⟩
          | true => exact .inr (.inr ⟨rfl, rfl, rfl⟩)
  | pop destination =>
    simp only [begin, beginPop, Call.side, ne_eq, ← Ring.isEmpty_iff]
    cases Storage.checkDestination q.store destination with
    | error e => exact .inl ⟨e, rfl⟩
    | ok u =>
      cases hd : q.ring.destroyed with
      | true => exact .inl ⟨.destroyed, rfl⟩
      | false =>
        cases hempty : q.ring.isEmpty with
        | false => exact .inr (.inl ⟨rfl, by simp, rfl⟩)
        | true =>
          cases waits with
          | false => exact .inl ⟨.queueEmpty, rfl⟩
          | true => exact .inr (.inr ⟨rfl, rfl, rfl⟩)

/-- A call whose time is up leaves its gate, and is served if there is something for it. -/
theorem last_cases (q : Queue S) (c : Call ι δ) :
    ((q.ring.destroyed = true ∨ q.ring.stock c.side = 0) ∧
      ∃ e, q.last c = (q.mapGate c.side Gate.leave, c.fail e)) ∨
    (q.ring.destroyed = false ∧ q.ring.stock c.side ≠ 0 ∧
      q.last c = (q.mapGate c.side Gate.leave).serve c) := by
  cases c with
  | push item =>
    simp only [last, lastPush, Call.side, ne_eq, ← Ring.isFull_iff]
    cases hd : q.ring.destroyed with
    | true => exact .inl ⟨.inl rfl, .destroyed, rfl⟩
    | false =>
      cases hfull : q.ring.isFull with
      | false => exact .inr ⟨rfl, by simp, rfl⟩
      | true => exact .inl ⟨.inr rfl, .timeout, rfl⟩
  | pop destination =>
    simp only [last, lastPop, Call.side, ne_eq, ← Ring.isEmpty_iff]
    cases hd : q.ring.destroyed with
    | true => exact .inl ⟨.inl rfl, .destroyed, rfl⟩
    | false =>
      cases hempty : q.ring.isEmpty with
      | false => exact .inr ⟨rfl, by simp, rfl⟩
      | true => exact .inl ⟨.inr rfl, .timeout, rfl⟩

/-- Both at once: a call gives up, leaves its gate, and is served if there is something. -/
theorem expire_cases (q : Queue S) (c : Call ι δ) :
    ((q.ring.destroyed = true ∨ q.ring.stock c.side = 0) ∧
      ∃ e, Blocking.expire q c = (q.mapGate c.side fun g => g.giveUp.leave, c.fail e)) ∨
    (q.ring.destroyed = false ∧ q.ring.stock c.side ≠ 0 ∧
      Blocking.expire q c = (q.mapGate c.side fun g => g.giveUp.leave).serve c) := by
  have hlast := (q.mapGate c.side Gate.giveUp).last_cases c
  rw [← expire_eq, mapGate_mapGate, ring_mapGate, Ring.destroyed_mapGate,
    Ring.stock_mapGate] at hlast
  exact hlast

/-- A call that was woken takes the wake-up. It goes back to sleep if there is nothing for
it, and otherwise leaves its gate and is served. -/
theorem wake_cases (q : Queue S) (c : Call ι δ) :
    (q.ring.destroyed = true ∧
      ∃ e, Blocking.wake q c = (q.mapGate c.side fun g => g.take.leave, .done (c.fail e))) ∨
    (q.ring.stock c.side = 0 ∧
      Blocking.wake q c = (q.mapGate c.side fun g => g.take.doze, .parked c)) ∨
    (q.ring.destroyed = false ∧ q.ring.stock c.side ≠ 0 ∧
      Blocking.wake q c = ((q.mapGate c.side fun g => g.take.leave).serve c).map id .done) := by
  cases c with
  | push item =>
    simp only [Blocking.wake, wakePush, Call.side, ne_eq, ← Ring.isFull_iff]
    have hd' : (q.ring.mapRoom Gate.take).destroyed = q.ring.destroyed := rfl
    have hfull' : (q.ring.mapRoom Gate.take).isFull = q.ring.isFull := rfl
    cases hd : q.ring.destroyed with
    | true =>
      rw [hd', hd]
      exact .inl ⟨rfl, .destroyed, rfl⟩
    | false =>
      rw [hd', hd, hfull']
      cases hfull : q.ring.isFull with
      | false => exact .inr (.inr ⟨rfl, by simp, rfl⟩)
      | true => exact .inr (.inl ⟨rfl, rfl⟩)
  | pop destination =>
    simp only [Blocking.wake, wakePop, Call.side, ne_eq, ← Ring.isEmpty_iff]
    have hd' : (q.ring.mapItems Gate.take).destroyed = q.ring.destroyed := rfl
    have hempty' : (q.ring.mapItems Gate.take).isEmpty = q.ring.isEmpty := rfl
    cases hd : q.ring.destroyed with
    | true =>
      rw [hd', hd]
      exact .inl ⟨rfl, .destroyed, rfl⟩
    | false =>
      rw [hd', hd, hempty']
      cases hempty : q.ring.isEmpty with
      | false => exact .inr (.inr ⟨rfl, by simp, rfl⟩)
      | true => exact .inr (.inl ⟨rfl, rfl⟩)

/-- A call for which there is something is served, unless it is a pop whose destination
cannot take the oldest entry. -/
theorem serve_cases {c : Call ι δ} (hstock : q.ring.stock c.side ≠ 0)
    (hfits : q.ring.length ≤ q.ring.capacity) :
    (∃ destination e, c = .pop destination ∧
      Storage.get q.store q.ring.head destination = .error e ∧
      q.serve c = (q, c.fail e)) ∨
    ∃ q' answer, q.serve c = (q', answer) ∧ q.ring.Serves c.side q'.ring := by
  cases c with
  | push item => exact .inr ⟨_, _, rfl, Ring.serves_pushed hstock⟩
  | pop destination =>
    cases hget : Storage.get q.store q.ring.head destination with
    | error e =>
      left
      refine ⟨destination, e, rfl, hget, ?_⟩
      rw [serve, dequeue, hget]
      rfl
    | ok result =>
      right
      refine ⟨{ ring := q.ring.popped, store := Storage.release q.store q.ring.head,
                announced := q.ring.popped.length }, .popped (.ok result), ?_,
        Ring.serves_popped hstock hfits⟩
      rw [serve, dequeue, hget]
      rfl

/-! ## What every piece keeps -/

/-- A property of queues that survives callers who come and go, one entry in or out, and the
loss of all entries. -/
structure Stable (P : Queue S → Prop) : Prop where
  mapGate {q : Queue S} (h : P q) (σ : Side) (f : Gate → Gate) : P (q.mapGate σ f)
  serve {q : Queue S} (h : P q) {c : Call ι δ} (hd : q.ring.destroyed = false)
    (hstock : q.ring.stock c.side ≠ 0) : P (q.serve c).1
  cleared {q : Queue S} (h : P q) : P { ring := q.ring.cleared, store := Storage.clear q.store }
  retired {q : Queue S} (h : P q) : P { ring := q.ring.retired, store := Storage.clear q.store }

namespace Stable

variable {P : Queue S → Prop}

theorem begin (hP : Stable P) (h : P q) (waits : Bool) (c : Call ι δ) :
    P (q.begin waits c).1 := by
  obtain ⟨e, hb⟩ | ⟨hd, hstock, hb⟩ | ⟨-, -, hb⟩ := q.begin_cases waits c <;> rw [hb]
  · exact h
  · exact hP.serve h hd hstock
  · exact hP.mapGate h _ _

theorem wake (hP : Stable P) (h : P q) (c : Call ι δ) : P (Blocking.wake q c).1 := by
  obtain ⟨-, e, hw⟩ | ⟨-, hw⟩ | ⟨hd, hstock, hw⟩ := q.wake_cases c <;> rw [hw]
  · exact hP.mapGate h _ _
  · exact hP.mapGate h _ _
  · exact hP.serve (hP.mapGate h _ _) (by simpa using hd) (by simpa using hstock)

theorem last (hP : Stable P) (h : P q) (c : Call ι δ) : P (q.last c).1 := by
  obtain ⟨-, e, he⟩ | ⟨hd, hstock, he⟩ := q.last_cases c <;> rw [he]
  · exact hP.mapGate h _ _
  · exact hP.serve (hP.mapGate h _ _) (by simpa using hd) (by simpa using hstock)

theorem clear (hP : Stable P) (h : P q) : P q.clear.1 := by
  unfold Queue.clear
  cases q.ring.checkIdle with
  | error e => exact h
  | ok u => exact hP.cleared h

theorem destroy (hP : Stable P) (h : P q) : P q.destroy.1 := by
  unfold Queue.destroy
  cases q.ring.checkIdle with
  | error e => exact h
  | ok u => exact hP.retired h

end Stable

/-- There is a slot, and there are never more entries than slots. -/
structure Bounded (q : Queue S) : Prop where
  capacity : 0 < q.ring.capacity
  fits : q.ring.length ≤ q.ring.capacity

omit [Storage S ι δ ρ] in
theorem Bounded.mapGate (h : q.Bounded) (σ : Side) (f : Gate → Gate) :
    (q.mapGate σ f).Bounded := by
  constructor
  · simpa using h.capacity
  · simpa using h.fits

theorem stable_bounded : Stable (Bounded : Queue S → Prop) where
  mapGate := Bounded.mapGate
  serve {q} h c _ hstock := by
    have hfits := h.fits
    cases c with
    | push item =>
      simp only [Call.side, Ring.stock] at hstock
      refine ⟨h.capacity, ?_⟩
      show q.ring.length + 1 ≤ q.ring.capacity
      omega
    | pop destination =>
      simp only [serve, dequeue]
      cases Storage.get q.store q.ring.head destination with
      | error e => exact h
      | ok result => exact ⟨h.capacity, Nat.le_trans (Nat.sub_le _ 1) hfits⟩
  cleared h := ⟨h.capacity, Nat.zero_le _⟩
  retired h := ⟨h.capacity, Nat.zero_le _⟩

end Queue

end Netstack
