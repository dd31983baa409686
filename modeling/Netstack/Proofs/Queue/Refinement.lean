import Netstack.Proofs.Queue.Fifo

/-
A queue is a bounded list, for somebody who is alone with it.

`BoundedList` says what the operations of a queue are meant to do: a list of at most
`capacity` items to which one appends at the end and from which one takes at the front, and
whether it was taken out of service. There is no ring in it, no cursor and nobody who
waits; an operation that would have to wait has waited in vain.

A queue and a bounded list that started alike give the same answers to the same operations,
for as long as they go on. The relation that is kept is `Fifo.Represents`: the ring stands
for the items, and capacity, end of service and the absence of waiting callers are what they
were. It is kept operation by operation, each of which has one lemma that tells its answer
and the relation afterwards.
-/

set_option autoImplicit false

namespace Netstack

/-! ## Sequences of operations -/

section Sequences

variable {σ ω ρ : Type}

/-- The state after operations, one after another. -/
def after (step : σ → ω → σ × ρ) (s : σ) (ops : List ω) : σ :=
  ops.foldl (fun s op => (step s op).1) s

/-- The answers to operations, one after another. -/
def answers (step : σ → ω → σ × ρ) : σ → List ω → List ρ
  | _, [] => []
  | s, op :: ops => (step s op).2 :: answers step (step s op).1 ops

variable {step : σ → ω → σ × ρ}

theorem after_append (s : σ) (ops ops' : List ω) :
    after step s (ops ++ ops') = after step (after step s ops) ops' := List.foldl_append

/-- What holds at the start and is kept by every operation holds at the end. -/
theorem after_invariant {P : σ → Prop} (hstep : ∀ s op, P s → P (step s op).1) {s : σ} (hs : P s)
    (ops : List ω) : P (after step s ops) := by
  induction ops generalizing s with
  | nil => exact hs
  | cons op ops ih => exact ih (hstep s op hs)

/-- Two states that answer alike, and are related again afterwards, answer alike for good. -/
theorem simulates {τ : Type} {step' : τ → ω → τ × ρ} {R : σ → τ → Prop}
    (hstep : ∀ s t op, R s t →
      (step s op).2 = (step' t op).2 ∧ R (step s op).1 (step' t op).1)
    {s : σ} {t : τ} (hst : R s t) (ops : List ω) :
    answers step s ops = answers step' t ops ∧ R (after step s ops) (after step' t ops) := by
  induction ops generalizing s t with
  | nil => exact ⟨rfl, hst⟩
  | cons op ops ih =>
    obtain ⟨hanswer, hnext⟩ := hstep s t op hst
    obtain ⟨hrest, hend⟩ := ih hnext
    refine ⟨?_, hend⟩
    rw [answers, answers, hanswer, hrest]

end Sequences

namespace Fifo

/-- What may be asked of a queue. -/
inductive Op (α : Type)
  | push (item : α) (timeout : Timeout)
  | offer (item : α)
  | pop (timeout : Timeout)
  | take
  | drain
  | clear
  | destroy

/-- What comes back. -/
inductive Reply (α : Type)
  | pushed (result : Except (Rejected α) Unit)
  | popped (result : Except Error α)
  | taken (result : Except Error (Option α))
  | drained (items : List α)
  | cleared (result : Except Error Unit)
  | destroyed (result : Except Error Nat)

variable {α : Type}

/-- Whether an operation failed. -/
def Reply.isFailure : Reply α → Bool
  | pushed (.error _) | popped (.error _) | taken (.error _) | cleared (.error _)
  | destroyed (.error _) => true
  | _ => false

/-- The answer of a queue that was taken out of service. -/
def Op.outOfService : Op α → Reply α
  | push item _ | offer item => .pushed (.error ⟨.destroyed, item⟩)
  | pop _ => .popped (.error .destroyed)
  | take => .taken (.error .destroyed)
  | drain => .drained []
  | clear => .cleared (.error .destroyed)
  | destroy => .destroyed (.error .destroyed)

/-- An operation of somebody who is alone with the queue. -/
def step (q : Fifo α) : Op α → Fifo α × Reply α
  | .push item timeout => (q.push item timeout).map id .pushed
  | .offer item => (q.offer item).map id .pushed
  | .pop timeout => (q.pop () timeout).map id .popped
  | .take => q.take.map id .taken
  | .drain => q.drain.map id .drained
  | .clear => (Queue.clear q).map id .cleared
  | .destroy => (Queue.destroy q).map id .destroyed

end Fifo

/-! ## Bounded lists -/

/-- A list of at most `capacity` items, in service or not. -/
structure BoundedList (α : Type) where
  capacity : Nat
  items : List α := []
  destroyed : Bool := false

namespace BoundedList

variable {α : Type}

/-- Append an item if there is room; a full list fails with `full`. -/
def append (b : BoundedList α) (item : α) (full : Error) :
    BoundedList α × Except (Rejected α) Unit :=
  if b.destroyed then (b, .error ⟨.destroyed, item⟩)
  else if b.items.length < b.capacity then ({ b with items := b.items ++ [item] }, .ok ())
  else (b, .error ⟨full, item⟩)

/-- Take the oldest item if there is one. -/
def takeFirst (b : BoundedList α) : BoundedList α × Except Error (Option α) :=
  if b.destroyed then (b, .error .destroyed)
  else
    match b.items with
    | [] => (b, .ok none)
    | item :: rest => ({ b with items := rest }, .ok (some item))

/-- Take the oldest item; an empty list fails with `empty`. -/
def removeFirst (b : BoundedList α) (empty : Error) : BoundedList α × Except Error α :=
  match b.takeFirst with
  | (b, .error e) => (b, .error e)
  | (b, .ok none) => (b, .error empty)
  | (b, .ok (some item)) => (b, .ok item)

def clear (b : BoundedList α) : BoundedList α × Except Error Unit :=
  if b.destroyed then (b, .error .destroyed) else ({ b with items := [] }, .ok ())

def destroy (b : BoundedList α) : BoundedList α × Except Error Nat :=
  if b.destroyed then (b, .error .destroyed)
  else ({ b with items := [], destroyed := true }, .ok b.items.length)

/-- What an operation of a queue is meant to do. -/
def step (b : BoundedList α) : Fifo.Op α → BoundedList α × Fifo.Reply α
  | .push item timeout =>
    (b.append item (if timeout.waits then .timeout else .queueFull)).map id .pushed
  | .offer item => (b.append item .queueFull).map id .pushed
  | .pop timeout =>
    (b.removeFirst (if timeout.waits then .timeout else .queueEmpty)).map id .popped
  | .take => b.takeFirst.map id .taken
  | .drain => ({ b with items := [] }, .drained b.items)
  | .clear => b.clear.map id .cleared
  | .destroy => b.destroy.map id .destroyed

variable {b : BoundedList α} {item : α} {e : Error}

theorem append_of_error {r : Rejected α} (h : (b.append item e).2 = .error r) :
    (b.append item e).1 = b := by
  unfold append at h ⊢
  split
  · rfl
  · next hd =>
    split
    · next hroom =>
      rw [if_neg hd, if_pos hroom] at h
      cases h
    · rfl

/-- Appending changes nothing but the items. -/
theorem append_items (item : α) (e : Error) :
    ∃ items, (b.append item e).1 = { b with items := items } := by
  unfold append
  split
  · exact ⟨b.items, rfl⟩
  · split
    · exact ⟨b.items ++ [item], rfl⟩
    · exact ⟨b.items, rfl⟩

theorem takeFirst_of_error (h : b.takeFirst.2 = .error e) : b.takeFirst.1 = b := by
  unfold takeFirst at h ⊢
  cases hd : b.destroyed with
  | true => simp
  | false => cases hi : b.items <;> simp [hd, hi] at h

theorem removeFirst_of_error {empty : Error} (h : (b.removeFirst empty).2 = .error e) :
    (b.removeFirst empty).1 = b := by
  unfold removeFirst takeFirst at h ⊢
  cases hd : b.destroyed with
  | true => simp
  | false => cases hi : b.items <;> simp [hd, hi] at h ⊢

/-- An operation that fails changes nothing. -/
theorem step_of_isFailure {op : Fifo.Op α} (hfail : (b.step op).2.isFailure = true) :
    (b.step op).1 = b := by
  cases op with
  | push item timeout =>
    simp only [step] at hfail ⊢
    generalize (if timeout.waits then Error.timeout else Error.queueFull) = full at hfail ⊢
    cases h : (b.append item full).2 with
    | ok u => simp [h, Fifo.Reply.isFailure] at hfail
    | error r => exact append_of_error h
  | offer item =>
    cases h : (b.append item .queueFull).2 with
    | ok u => simp [step, h, Fifo.Reply.isFailure] at hfail
    | error r => exact append_of_error h
  | pop timeout =>
    simp only [step] at hfail ⊢
    generalize (if timeout.waits then Error.timeout else Error.queueEmpty) = empty at hfail ⊢
    cases h : (b.removeFirst empty).2 with
    | ok item => simp [h, Fifo.Reply.isFailure] at hfail
    | error e => exact removeFirst_of_error h
  | take =>
    cases h : b.takeFirst.2 with
    | ok item => simp [step, h, Fifo.Reply.isFailure] at hfail
    | error e => exact takeFirst_of_error h
  | drain => simp [step, Fifo.Reply.isFailure] at hfail
  | clear =>
    simp only [step, clear] at hfail ⊢
    cases hd : b.destroyed <;> simp [hd, Fifo.Reply.isFailure] at hfail ⊢
  | destroy =>
    simp only [step, destroy] at hfail ⊢
    cases hd : b.destroyed <;> simp [hd, Fifo.Reply.isFailure] at hfail ⊢

/-- A list that was taken out of service stays so. -/
theorem destroyed_step (op : Fifo.Op α) (hd : b.destroyed = true) :
    (b.step op).1.destroyed = true := by
  cases op <;> simp [step, append, takeFirst, removeFirst, clear, destroy, hd]

theorem answer_of_destroyed (op : Fifo.Op α) (hd : b.destroyed = true) (hi : b.items = []) :
    (b.step op).2 = op.outOfService := by
  cases op <;>
    simp [step, append, takeFirst, removeFirst, clear, destroy, hd, hi, Fifo.Op.outOfService]

/-- Taking a list out of service is final. -/
theorem destroyed_after {pre : List (Fifo.Op α)} {n : Nat}
    (h : ((after step b pre).step .destroy).2 = .destroyed (.ok n)) (post : List (Fifo.Op α)) :
    (after step b (pre ++ .destroy :: post)).destroyed = true := by
  rw [after_append]
  refine after_invariant (P := fun b : BoundedList α => b.destroyed = true)
    (fun _ op hd => destroyed_step op hd) ?_ post
  generalize after step b pre = b at h ⊢
  cases hd : b.destroyed <;> simp [step, destroy, hd] at h ⊢

end BoundedList

/-! ## What the operations of a queue leave alone -/

namespace Fifo

variable {α : Type} {q q' r : Fifo α} {b : BoundedList α}

/-- Capacity, end of service and the number of waiting callers are as before. -/
structure Steady (q q' : Fifo α) : Prop where
  capacity : q'.ring.capacity = q.ring.capacity
  destroyed : q'.ring.destroyed = q.ring.destroyed
  waiters : q'.ring.waiters = q.ring.waiters

theorem Steady.refl (q : Fifo α) : q.Steady q := ⟨rfl, rfl, rfl⟩

theorem Steady.trans (h : q.Steady q') (h' : q'.Steady r) : q.Steady r :=
  ⟨h'.capacity.trans h.capacity, h'.destroyed.trans h.destroyed, h'.waiters.trans h.waiters⟩

theorem steady_enqueue (q : Fifo α) (x : α) : q.Steady (q.enqueue x) := by
  refine ⟨rfl, rfl, ?_⟩
  simp [Queue.enqueue, Ring.pushed, Ring.waiters]

theorem steady_dequeue (q : Fifo α) : q.Steady (q.dequeue ()).1 := by
  unfold Queue.dequeue
  split
  · exact .refl q
  · refine ⟨rfl, rfl, ?_⟩
    simp [Ring.popped, Ring.waiters]

theorem steady_offer (q : Fifo α) (x : α) : q.Steady (q.offer x).1 := by
  unfold offer
  split
  · exact .refl q
  · split
    · exact .refl q
    · exact steady_enqueue q x

theorem steady_take (q : Fifo α) : q.Steady q.take.1 := by
  unfold take
  split
  · exact .refl q
  · split
    · exact .refl q
    · exact steady_dequeue q

theorem steady_drain (q : Fifo α) : q.Steady q.drain.1 := by
  have hupTo : ∀ (n : Nat) (q : Fifo α), q.Steady (takeUpTo n q).1 := by
    intro n
    induction n with
    | zero => exact .refl
    | succ n ih =>
      intro q
      have htake := steady_take q
      unfold takeUpTo
      split
      · next q' item hq =>
        rw [hq] at htake
        exact htake.trans (ih q')
      · next q' result hno hq =>
        rw [hq] at htake
        exact htake
  exact hupTo q.ring.length q

/-- Nobody comes while a push waits in vain: it enters the gate, gives up and leaves. -/
theorem steady_push (q : Fifo α) (x : α) (timeout : Timeout) : q.Steady (q.push x timeout).1 := by
  have hlast : ∀ (r : Fifo α), r.ring.capacity = q.ring.capacity →
      r.ring.destroyed = q.ring.destroyed → (r.ring.mapRoom Gate.leave).waiters = q.ring.waiters →
      q.Steady (r.lastPush x).1 := by
    intro r hc hd hw
    unfold Queue.lastPush
    have hleft : q.Steady { r with ring := r.ring.mapRoom Gate.leave } := ⟨hc, hd, hw⟩
    dsimp only
    split
    · exact hleft
    · split
      · exact hleft
      · exact hleft.trans (steady_enqueue _ x)
  unfold Queue.push Queue.beginPush
  rw [show Storage.checkItem q.store x = .ok () from rfl]
  dsimp only
  by_cases hd : q.ring.destroyed = true
  · rw [if_pos hd]
    exact .refl q
  rw [if_neg hd]
  by_cases hroom : (!q.ring.isFull) = true
  · rw [if_pos hroom]
    exact steady_enqueue q x
  rw [if_neg hroom]
  cases timeout.waits with
  | false => exact .refl q
  | true =>
    refine hlast _ rfl rfl ?_
    simp [Ring.waiters, Ring.mapRoom]

theorem steady_pop (q : Fifo α) (timeout : Timeout) : q.Steady (q.pop () timeout).1 := by
  have hlast : ∀ (r : Fifo α), r.ring.capacity = q.ring.capacity →
      r.ring.destroyed = q.ring.destroyed → (r.ring.mapItems Gate.leave).waiters = q.ring.waiters →
      q.Steady (r.lastPop ()).1 := by
    intro r hc hd hw
    unfold Queue.lastPop
    have hleft : q.Steady { r with ring := r.ring.mapItems Gate.leave } := ⟨hc, hd, hw⟩
    dsimp only
    split
    · exact hleft
    · split
      · exact hleft
      · exact hleft.trans (steady_dequeue _)
  unfold Queue.pop Queue.beginPop
  rw [show Storage.checkDestination q.store () = .ok () from rfl]
  dsimp only
  by_cases hd : q.ring.destroyed = true
  · rw [if_pos hd]
    exact .refl q
  rw [if_neg hd]
  by_cases hitem : (!q.ring.isEmpty) = true
  · rw [if_pos hitem]
    exact steady_dequeue q
  rw [if_neg hitem]
  cases timeout.waits with
  | false => exact .refl q
  | true =>
    refine hlast _ rfl rfl ?_
    simp [Ring.waiters, Ring.mapItems]

/-! ## The relation that is kept -/

/-- A queue on which nobody waits, and the bounded list that it stands for. -/
structure Represents (q : Fifo α) (b : BoundedList α) : Prop where
  holds : q.Holds b.items
  capacity : q.ring.capacity = b.capacity
  destroyed : q.ring.destroyed = b.destroyed
  idle : q.ring.waiters = 0

theorem represents_new {n : Nat} (h : (new n : Except Error (Fifo α)) = .ok q) :
    q.Represents { capacity := n } := by
  have hholds := holds_new h
  unfold new checkCapacity at h
  split at h
  · cases h
  · cases hr : Memory.reserve n with
    | error e =>
      rw [hr] at h
      cases h
    | ok u =>
      rw [hr] at h
      obtain rfl := Except.ok.inj h
      exact ⟨hholds, rfl, rfl, rfl⟩

/-- A queue whose items have changed, and nothing else of it that the list knows. -/
theorem Represents.of_steady {xs : List α} (h : q.Represents b) (hs : q.Steady q')
    (hx : q'.Holds xs) : q'.Represents { b with items := xs } :=
  ⟨hx, hs.capacity.trans h.capacity, hs.destroyed.trans h.destroyed, hs.waiters.trans h.idle⟩

theorem Represents.push (h : q.Represents b) (x : α) (timeout : Timeout) :
    (q.push x timeout).2 =
        (b.append x (if timeout.waits then .timeout else .queueFull)).2 ∧
      Represents (q.push x timeout).1
        (b.append x (if timeout.waits then .timeout else .queueFull)).1 := by
  have hs := steady_push q x timeout
  unfold BoundedList.append
  obtain ⟨hd, he⟩ | ⟨hd, hfull, q', he, hq'⟩ | ⟨hd, hroom, q', he, hq'⟩ :=
    h.holds.push_cases x timeout
  all_goals
    rw [h.destroyed] at hd
    rw [he] at hs ⊢
  · rw [if_pos hd]
    exact ⟨rfl, h⟩
  · rw [h.capacity] at hfull
    have hserves : ¬ b.destroyed = true := by simp [hd]
    rw [if_neg hserves, if_neg (Nat.not_lt_of_le hfull)]
    exact ⟨rfl, h.of_steady hs hq'⟩
  · rw [h.capacity] at hroom
    rw [if_neg (by simp [hd]), if_pos hroom]
    exact ⟨rfl, h.of_steady hs hq'⟩

theorem Represents.offer (h : q.Represents b) (x : α) :
    (q.offer x).2 = (b.append x .queueFull).2 ∧
      (q.offer x).1.Represents (b.append x .queueFull).1 := by
  have hs := steady_offer q x
  unfold BoundedList.append
  obtain ⟨hd, he⟩ | ⟨hd, hfull, he⟩ | ⟨hd, hroom, q', he, hq'⟩ := h.holds.offer_cases x
  all_goals
    rw [h.destroyed] at hd
    rw [he] at hs ⊢
  · rw [if_pos hd]
    exact ⟨rfl, h⟩
  · rw [h.capacity] at hfull
    rw [if_neg (by simp [hd]), if_neg (Nat.not_lt_of_le hfull)]
    exact ⟨rfl, h⟩
  · rw [h.capacity] at hroom
    rw [if_neg (by simp [hd]), if_pos hroom]
    exact ⟨rfl, h.of_steady hs hq'⟩

/-- With an item in it, a list is in service. -/
theorem Represents.in_service {x : α} {xs : List α} (h : q.Represents b) (hx : b.items = x :: xs) :
    b.destroyed = false := by
  cases hd : b.destroyed with
  | false => rfl
  | true =>
    have hnil := h.holds.destroyed (h.destroyed.trans hd)
    rw [hx] at hnil
    cases hnil

theorem Represents.take (h : q.Represents b) :
    q.take.2 = b.takeFirst.2 ∧ q.take.1.Represents b.takeFirst.1 := by
  have hs := steady_take q
  unfold BoundedList.takeFirst
  obtain ⟨hd, he⟩ | ⟨hd, hnil, he⟩ | ⟨x, ys, q', hx, he, hq'⟩ := h.holds.take_cases
  · rw [h.destroyed] at hd
    rw [he, if_pos hd]
    exact ⟨rfl, h⟩
  · rw [h.destroyed] at hd
    rw [he, if_neg (by simp [hd]), hnil]
    exact ⟨rfl, h⟩
  · rw [he] at hs ⊢
    rw [if_neg (by simp [h.in_service hx]), hx]
    exact ⟨rfl, h.of_steady hs hq'⟩

theorem Represents.pop (h : q.Represents b) (timeout : Timeout) :
    (q.pop () timeout).2 =
        (b.removeFirst (if timeout.waits then .timeout else .queueEmpty)).2 ∧
      Represents (q.pop () timeout).1
        (b.removeFirst (if timeout.waits then .timeout else .queueEmpty)).1 := by
  have hs := steady_pop q timeout
  unfold BoundedList.removeFirst BoundedList.takeFirst
  obtain ⟨hd, he⟩ | ⟨hd, hnil, q', he, hq'⟩ | ⟨x, ys, q', hx, he, hq'⟩ :=
    h.holds.pop_cases timeout
  · rw [h.destroyed] at hd
    rw [he, if_pos hd]
    exact ⟨rfl, h⟩
  · rw [h.destroyed] at hd
    rw [he] at hs ⊢
    have hsame := h.of_steady hs hq'
    rw [← hnil] at hsame
    have hserves : ¬ b.destroyed = true := by simp [hd]
    rw [if_neg hserves, hnil]
    exact ⟨rfl, hsame⟩
  · rw [he] at hs ⊢
    rw [if_neg (by simp [h.in_service hx]), hx]
    exact ⟨rfl, h.of_steady hs hq'⟩

theorem Represents.drain (h : q.Represents b) :
    q.drain.2 = b.items ∧ q.drain.1.Represents { b with items := [] } :=
  ⟨h.holds.drain.1, h.of_steady (steady_drain q) h.holds.drain.2⟩

/-- As nobody waits, a queue in service may be emptied and retired. -/
theorem Represents.checkIdle (h : q.Represents b) :
    q.ring.checkIdle = if b.destroyed then .error .destroyed else .ok () := by
  unfold Ring.checkIdle
  rw [h.destroyed, h.idle]
  rfl

theorem Represents.clear (h : q.Represents b) :
    (Queue.clear q).2 = b.clear.2 ∧ Represents (Queue.clear q).1 b.clear.1 := by
  unfold Queue.clear BoundedList.clear
  rw [h.checkIdle]
  by_cases hd : b.destroyed = true
  · rw [if_pos hd, if_pos hd]
    exact ⟨rfl, h⟩
  · rw [if_neg hd, if_neg hd]
    exact ⟨rfl, h.holds.cleared, h.capacity, h.destroyed, h.idle⟩

theorem Represents.destroy (h : q.Represents b) :
    (Queue.destroy q).2 = b.destroy.2 ∧ Represents (Queue.destroy q).1 b.destroy.1 := by
  unfold Queue.destroy BoundedList.destroy
  rw [h.checkIdle]
  by_cases hd : b.destroyed = true
  · rw [if_pos hd, if_pos hd]
    exact ⟨rfl, h⟩
  · rw [if_neg hd, if_neg hd]
    refine ⟨?_, h.holds.retired, h.capacity, rfl, h.idle⟩
    rw [h.holds.length]

/-- Each operation answers as on the list, and keeps the relation. -/
theorem Represents.step (h : q.Represents b) (op : Op α) :
    (q.step op).2 = (b.step op).2 ∧ (q.step op).1.Represents (b.step op).1 := by
  cases op with
  | push item timeout =>
    obtain ⟨hanswer, hnext⟩ := h.push item timeout
    exact ⟨congrArg Reply.pushed hanswer, hnext⟩
  | offer item =>
    obtain ⟨hanswer, hnext⟩ := h.offer item
    exact ⟨congrArg Reply.pushed hanswer, hnext⟩
  | pop timeout =>
    obtain ⟨hanswer, hnext⟩ := h.pop timeout
    exact ⟨congrArg Reply.popped hanswer, hnext⟩
  | take =>
    obtain ⟨hanswer, hnext⟩ := h.take
    exact ⟨congrArg Reply.taken hanswer, hnext⟩
  | drain =>
    obtain ⟨hanswer, hnext⟩ := h.drain
    exact ⟨congrArg Reply.drained hanswer, hnext⟩
  | clear =>
    obtain ⟨hanswer, hnext⟩ := h.clear
    exact ⟨congrArg Reply.cleared hanswer, hnext⟩
  | destroy =>
    obtain ⟨hanswer, hnext⟩ := h.destroy
    exact ⟨congrArg Reply.destroyed hanswer, hnext⟩

/-! ## Whole sequences -/

/-- What can be read off a queue that stands for a bounded list of this capacity. -/
structure StandsFor (q : Fifo α) (b : BoundedList α) : Prop where
  contents : q.toList = b.items
  length : q.length = b.items.length
  fits : b.items.length ≤ b.capacity
  capacity : q.ring.capacity = b.capacity
  head : q.ring.head < b.capacity
  tail : q.ring.tail < b.capacity
  /-- the slot that a pop reads is never empty -/
  front : q.ring.length ≠ 0 → (q.store.item? q.ring.head).isSome

theorem Represents.standsFor (h : q.Represents b) : q.StandsFor b := by
  have hcap := h.capacity
  refine ⟨h.holds.toList, h.holds.announced, hcap ▸ h.holds.fits, hcap, hcap ▸ h.holds.head,
    hcap ▸ h.holds.tail, ?_⟩
  intro hne
  rw [h.holds.length] at hne
  have hcell := h.holds.cell 0 (Nat.pos_of_ne_zero hne)
  rw [Nat.add_zero, Nat.mod_eq_of_lt h.holds.head] at hcell
  rw [hcell]
  rfl

/-- A queue can be made for every positive number of items that can be allocated. It then
answers like a bounded list of this capacity, whatever is done with it, and stands for it:
its contents are the items of the list. An operation that fails leaves them as they are, and
once the queue was taken out of service every operation says so. -/
theorem refines_boundedList {n : Nat} (hn : 1 ≤ n) :
    (Memory.limit ≤ n ∧ (new n : Except Error (Fifo α)) = .error .outOfMemory) ∨
    ∃ q : Fifo α, new n = .ok q ∧ ∀ ops : List (Op α),
      answers step q ops = answers BoundedList.step { capacity := n } ops ∧
      (after step q ops).StandsFor (after BoundedList.step { capacity := n } ops) ∧
      (∀ op, ((after step q ops).step op).2.isFailure = true →
        ((after step q ops).step op).1.toList = (after step q ops).toList) ∧
      ∀ pre post m, ops = pre ++ .destroy :: post →
        ((after step q pre).step .destroy).2 = .destroyed (.ok m) →
        ∀ op, ((after step q ops).step op).2 = op.outOfService := by
  cases hm : (new n : Except Error (Fifo α)) with
  | error e =>
    left
    unfold new checkCapacity at hm
    rw [if_neg (by omega)] at hm
    unfold Memory.reserve at hm
    by_cases hlimit : n < Memory.limit
    · rw [if_pos hlimit] at hm
      cases hm
    · rw [if_neg hlimit] at hm
      cases hm
      exact ⟨Nat.le_of_not_lt hlimit, rfl⟩
  | ok q =>
    right
    refine ⟨q, rfl, fun ops => ?_⟩
    obtain ⟨hanswers, hend⟩ := simulates (fun _ _ op h => Represents.step h op)
      (represents_new hm) ops
    refine ⟨hanswers, hend.standsFor, ?_, ?_⟩
    · intro op hfail
      obtain ⟨hanswer, hnext⟩ := hend.step op
      rw [hanswer] at hfail
      rw [hnext.holds.toList, hend.holds.toList, BoundedList.step_of_isFailure hfail]
    · intro pre post m hops hdestroy op
      -- the same operation takes the list out of service, for good
      obtain ⟨-, hmiddle⟩ := simulates (fun _ _ op h => Represents.step h op)
        (represents_new hm) pre
      rw [(hmiddle.step .destroy).1] at hdestroy
      have hout := BoundedList.destroyed_after hdestroy post
      rw [← hops] at hout
      rw [(hend.step op).1, BoundedList.answer_of_destroyed op hout]
      exact hend.holds.destroyed (hend.destroyed.trans hout)

/-- The slots of a queue for two are used in turn; taking it out of service counts the item
that is left. -/
theorem refines_boundedList_two :
    ∃ q : Fifo Nat, new 2 = .ok q ∧
      answers step q [.offer 1, .offer 2, .offer 3, .take, .offer 3, .take, .destroy, .take] =
        [.pushed (.ok ()), .pushed (.ok ()), .pushed (.error ⟨.queueFull, 3⟩),
          .taken (.ok (some 1)), .pushed (.ok ()), .taken (.ok (some 2)), .destroyed (.ok 1),
          .taken (.error .destroyed)] := by
  obtain ⟨hlimit, -⟩ | ⟨q, hq, hops⟩ := refines_boundedList (α := Nat) (show 1 ≤ 2 by decide)
  · exact absurd hlimit (by decide)
  · exact ⟨q, hq, (hops _).1⟩

end Fifo

end Netstack
