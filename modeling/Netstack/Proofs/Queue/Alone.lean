import Netstack.Queue.Basic

/-
A queue with nobody behind its gates.

Whoever is alone with a queue never sleeps to any effect: a call that has to wait enters a
gate, gives up, finds what it found before, and leaves again, and nothing of that is left. So
a push or a pop alone is a plain case distinction on the ring, and one that fails leaves the
whole queue as it was, gates included.
-/

set_option autoImplicit false

namespace Netstack

namespace Queue

variable {S ι δ ρ : Type} [Storage S ι δ ρ] {q : Queue S}

/-- Nobody is behind the gates, and no wake-up is out. -/
structure Quiet (q : Queue S) : Prop where
  room : q.ring.room = {}
  items : q.ring.items = {}

theorem Quiet.enqueue (h : q.Quiet) (item : ι) : (q.enqueue item).Quiet := by
  refine ⟨h.room, ?_⟩
  show q.ring.items.notifyOne = {}
  rw [h.items]
  rfl

/-- A push that enters its gate alone and gives up looks at the queue as it was. -/
theorem Quiet.expirePush (h : q.Quiet) (item : ι) :
    expirePush { q with ring := q.ring.mapRoom Gate.enter } item =
      if q.ring.destroyed then (q, .error ⟨.destroyed, item⟩)
      else if q.ring.isFull then (q, .error ⟨.timeout, item⟩)
      else (q.enqueue item, .ok ()) := by
  have hgate : q.ring.room.enter.giveUp.leave = q.ring.room := by
    rw [h.room]
    rfl
  simp only [Queue.expirePush, lastPush, Ring.mapRoom, hgate]
  rfl

/-- And so does a pop. -/
theorem Quiet.expirePop (h : q.Quiet) (destination : δ) :
    expirePop { q with ring := q.ring.mapItems Gate.enter } destination =
      if q.ring.destroyed then (q, .error .destroyed)
      else if q.ring.isEmpty then (q, .error .timeout)
      else q.dequeue destination := by
  have hgate : q.ring.items.enter.giveUp.leave = q.ring.items := by
    rw [h.items]
    rfl
  simp only [Queue.expirePop, lastPop, Ring.mapItems, hgate]
  rfl

/-- A push alone: what has to wait has waited in vain. -/
theorem Quiet.push (h : q.Quiet) (item : ι) (timeout : Timeout) :
    q.push item timeout =
      match Storage.checkItem q.store item with
      | .error e => (q, .error ⟨e, item⟩)
      | .ok () =>
        if q.ring.destroyed then (q, .error ⟨.destroyed, item⟩)
        else if q.ring.isFull then
          (q, .error ⟨if timeout.waits then .timeout else .queueFull, item⟩)
        else (q.enqueue item, .ok ()) := by
  unfold Queue.push beginPush
  cases Storage.checkItem q.store item with
  | error e => rfl
  | ok u =>
    dsimp only
    cases hd : q.ring.destroyed with
    | true => rfl
    | false =>
      cases hfull : q.ring.isFull with
      | false => rfl
      | true =>
        cases timeout.waits with
        | false => rfl
        | true =>
          show Queue.expirePush { q with ring := q.ring.mapRoom Gate.enter } item = _
          simp only [h.expirePush, hd, hfull, Bool.false_eq_true, if_false, if_true]

/-- A pop alone. -/
theorem Quiet.pop (h : q.Quiet) (destination : δ) (timeout : Timeout) :
    q.pop destination timeout =
      match Storage.checkDestination q.store destination with
      | .error e => (q, .error e)
      | .ok () =>
        if q.ring.destroyed then (q, .error .destroyed)
        else if q.ring.isEmpty then
          (q, .error (if timeout.waits then .timeout else .queueEmpty))
        else q.dequeue destination := by
  unfold Queue.pop beginPop
  cases Storage.checkDestination q.store destination with
  | error e => rfl
  | ok u =>
    dsimp only
    cases hd : q.ring.destroyed with
    | true => rfl
    | false =>
      cases hempty : q.ring.isEmpty with
      | false => rfl
      | true =>
        cases timeout.waits with
        | false => rfl
        | true =>
          show Queue.expirePop { q with ring := q.ring.mapItems Gate.enter } destination = _
          simp only [h.expirePop, hd, hempty, Bool.false_eq_true, if_false, if_true]

theorem dequeue_of_error {destination : δ} {e : Error} (h : (q.dequeue destination).2 = .error e) :
    (q.dequeue destination).1 = q := by
  unfold dequeue at h ⊢
  cases hget : Storage.get q.store q.ring.head destination with
  | error e => rfl
  | ok result =>
    rw [hget] at h
    cases h

theorem Quiet.push_of_error (h : q.Quiet) {item : ι} {timeout : Timeout} {r : Rejected ι}
    (herror : (q.push item timeout).2 = .error r) : (q.push item timeout).1 = q := by
  rw [h.push] at herror ⊢
  cases hitem : Storage.checkItem q.store item with
  | error e => rfl
  | ok u =>
    rw [hitem] at herror
    dsimp only at herror ⊢
    cases hd : q.ring.destroyed with
    | true => rfl
    | false =>
      cases hfull : q.ring.isFull with
      | true => rfl
      | false => simp [hd, hfull] at herror

theorem Quiet.pop_of_error (h : q.Quiet) {destination : δ} {timeout : Timeout} {e : Error}
    (herror : (q.pop destination timeout).2 = .error e) : (q.pop destination timeout).1 = q := by
  rw [h.pop] at herror ⊢
  cases hdestination : Storage.checkDestination q.store destination with
  | error e => rfl
  | ok u =>
    rw [hdestination] at herror
    dsimp only at herror ⊢
    split
    · rfl
    · split
      · rfl
      · next hserves hitem =>
        rw [if_neg hserves, if_neg hitem] at herror
        exact dequeue_of_error herror

theorem clear_of_error {e : Error} (h : q.clear.2 = .error e) : q.clear.1 = q := by
  unfold clear at h ⊢
  cases hidle : q.ring.checkIdle with
  | error e => rfl
  | ok u =>
    rw [hidle] at h
    cases h

theorem destroy_of_error {e : Error} (h : q.destroy.2 = .error e) : q.destroy.1 = q := by
  unfold destroy at h ⊢
  cases hidle : q.ring.checkIdle with
  | error e => rfl
  | ok u =>
    rw [hidle] at h
    cases h

/-- With nobody waiting, a queue in service may be emptied and retired. -/
theorem Quiet.checkIdle (h : q.Quiet) :
    q.ring.checkIdle = if q.ring.destroyed then .error .destroyed else .ok () := by
  unfold Ring.checkIdle Ring.waiters
  rw [h.room, h.items]
  rfl

end Queue

end Netstack
