import Netstack.Proofs.Pool.Isolation
import Netstack.Proofs.Pool.Slots

/-
The packets of a pool, read off its queues.

`Mail` says of a function that it gives the packets of every slot. Here the function is read
off the queues (`packets`), and a pool is sound if it is right. Every operation keeps a pool
sound, those of callers included who have a receive queue in their hands and work on it
without regard to its connection.

For packets on their way from one queue to the next it is enough to know that an operation
adds no others: `Gains` says that a slot has nothing in it but what was there before and, at
the end, some of the packets that are named, in their order.
-/

set_option autoImplicit false

namespace Netstack.Pool

variable {p q r : Pool} {h : Handle} {i : Nat} {m : Nat → List Buffer} {xs ys : List Buffer}
  {packet : Buffer}

/-- The packets that wait in a slot, oldest first. -/
def packets (p : Pool) (i : Nat) : List Buffer := ((p.inbox i).map Fifo.toList).getD []

theorem Mail.packets_eq (hm : p.Mail m) : p.packets = m := by
  funext i
  have hc := hm i
  unfold Carries at hc
  unfold packets
  cases hi : p.inbox i with
  | none =>
    rw [hi] at hc
    exact hc.symm
  | some queue =>
    rw [hi] at hc
    exact hc.toList

/-- Every receive queue stands for the packets that are in it. -/
def Sound (p : Pool) : Prop := p.Mail p.packets

theorem Mail.sound (hm : p.Mail m) : p.Sound := by
  rw [Sound, hm.packets_eq]
  exact hm

theorem SameInboxes.sound (hs : p.SameInboxes q) (hp : p.Sound) : q.Sound := (hs.mail hp).sound

theorem sound_new {c : Config} (hnew : new c = .ok p) : p.Sound := by
  refine Mail.sound (m := fun _ => []) fun i => ?_
  unfold Carries
  rw [inbox, slotAt_new hnew]
  rfl

/-! ## Every operation keeps a pool sound -/

theorem Sound.step (hp : p.Sound) (op : Op) : (p.atRest.step op).1.pool.Sound :=
  (System.mail_step op (s := p.atRest) (by rintro call ⟨⟩) hp).sound

/-- Somebody works on the receive queue of a slot. -/
theorem Sound.setQueue {queue queue' : Fifo Buffer} (hp : p.Sound) (hi : p.inbox i = some queue)
    (hq : queue'.Holds xs) : (p.setQueue i queue').Sound := (Mail.setQueue hp hi hq).sound

theorem Sound.wake (hp : p.Sound) (call : Call) : (p.wake call).1.Sound := by
  by_cases hraw : call.isRaw = false
  · have hconveys := (conveys_wake hraw hp p.atRest).mail
    rw [System.pool_settle] at hconveys
    exact hconveys.sound
  · -- a push of somebody who has the queue
    cases call with
    | pushRaw slot packet =>
      unfold Pool.wake
      dsimp only
      cases hi : (p.slotAt slot).rxQueue with
      | none => exact hp
      | some queue =>
        dsimp only
        obtain ⟨q', hw, hq'⟩ | ⟨q', hw, hq'⟩ | ⟨q', hw, hq'⟩ :=
          ((hp slot).holds hi).wakePush_cases packet
        · rw [hw]
          exact hp.setQueue hi hq'
        · rw [hw]
          exact hp.setQueue hi hq'
        · rw [hw]
          exact hp.setQueue hi hq'
    | _ => exact absurd rfl hraw

theorem Sound.expire (hp : p.Sound) (call : Call) : (p.expire call).1.Sound := by
  by_cases hraw : call.isRaw = false
  · exact (conveys_expire hraw hp).mail.sound
  · cases call with
    | pushRaw slot packet =>
      unfold Pool.expire
      dsimp only
      cases hi : (p.slotAt slot).rxQueue with
      | none => exact hp
      | some queue =>
        obtain ⟨-, q', hw, hq'⟩ | ⟨-, -, q', hw, hq'⟩ | ⟨-, -, q', hw, hq'⟩ :=
          ((hp slot).holds hi).expirePush_cases packet
        · dsimp only
          rw [hw]
          exact hp.setQueue hi hq'
        · dsimp only
          rw [hw]
          exact hp.setQueue hi hq'
        · dsimp only
          rw [hw]
          exact hp.setQueue hi hq'
    | _ => exact absurd rfl hraw

/-! ## What an operation adds -/

/-- Every slot has what is left of the packets that it had, and behind them some of `xs`. -/
structure Gains (p q : Pool) (xs : List Buffer) : Prop where
  sound : q.Sound
  sublist : ∀ i, (q.packets i).Sublist (p.packets i ++ xs)

theorem Mail.gains (hm : q.Mail m) (hsub : ∀ i, (m i).Sublist (p.packets i ++ xs)) :
    p.Gains q xs := by
  refine ⟨hm.sound, fun i => ?_⟩
  rw [hm.packets_eq]
  exact hsub i

theorem Gains.trans (h₁ : p.Gains q xs) (h₂ : q.Gains r ys) : p.Gains r (xs ++ ys) := by
  refine ⟨h₂.sound, fun i => (h₂.sublist i).trans ?_⟩
  rw [← List.append_assoc]
  exact (h₁.sublist i).append (.refl _)

theorem Sound.gains_of_sameInboxes (hp : p.Sound) (hs : p.SameInboxes q) : p.Gains q [] :=
  (hs.mail hp).gains fun _ => List.sublist_append_left _ _

/-- A packet is appended in one slot. -/
theorem gains_of_append (hq : q.Mail (Function.update p.packets i (p.packets i ++ [packet]))) :
    p.Gains q [packet] := by
  refine hq.gains fun j => ?_
  by_cases hj : j = i
  · subst hj
    rw [Function.update_self]
  · rw [Function.update_of_ne hj]
    exact List.sublist_append_left _ _

/-- A packet that finds no room is not there. -/
theorem gains_of_mail (hq : q.Mail p.packets) (xs : List Buffer) : p.Gains q xs :=
  hq.gains fun _ => List.sublist_append_left _ _

/-- Looking for the connection of a packet brings no packet. -/
theorem Sound.resolveInbound (hp : p.Sound) (d : UInt8) (peer : Peer) :
    p.Gains (p.resolveInbound d peer).1 [] := by
  refine (discards_resolveInbound p d peer _ hp).gains fun i => ?_
  split
  · exact List.nil_sublist _
  · exact List.sublist_append_left _ _

/-- A connection can only have ended if no child was made for want of room, and then it is that
child, in a slot that was free. -/
theorem ends_offerChild {parent : Handle} {peer : Peer}
    (hends : p.Ends (p.offerChild parent peer).1 i) :
    (p.census.status i).phase = .free ∧ ∀ c, (p.offerChild parent peer).2 ≠ .ok c := by
  unfold Ends at hends
  obtain ⟨e, he⟩ | ⟨_, _, -, -, -, he⟩ | ⟨child, o, ⟨-, hcensus⟩ | ⟨e, hfail, hcensus⟩⟩ :=
    offerChild_cases p parent peer
  · rw [he] at hends
    exact absurd hends (Status.not_ends_self _)
  · rw [he] at hends
    exact absurd hends (Status.not_ends_self _)
  · -- the slot was claimed and adopted, and that ends nothing
    rw [hcensus] at hends
    have hopen : Census.Openings p.census (p.census.offered parent child peer) :=
      (Relation.ReflTransGen.single o.claim).tail o.adopt
    exact absurd hends (hopen.not_ends i)
  · rw [hcensus] at hends
    obtain rfl := o.ends_rejected_iff.1 hends
    rw [hfail]
    exact ⟨o.free, by rintro c ⟨⟩⟩

theorem ends_resolveInbound {port : UInt8} {peer : Peer}
    (hends : p.Ends (p.resolveInbound port peer).1 i) :
    (p.census.status i).phase = .free ∧ ∀ c, (p.resolveInbound port peer).2 ≠ .ok (some c) := by
  unfold resolveInbound at hends ⊢
  split at hends
  · exact absurd hends (Status.not_ends_self _)
  · exact absurd hends (Status.not_ends_self _)
  · next conn _ =>
    have hoffer := @ends_offerChild p i conn peer
    split at hends <;> rename_i hq <;> rw [hq] at hoffer
    · exact absurd rfl ((hoffer hends).2 _)
    · exact ⟨(hoffer hends).1, by rintro c ⟨⟩⟩

/-- Every slot has its packets when the connection for a packet was found. Otherwise a slot
that was free may have lost what lay in it. -/
theorem Sound.packets_resolveInbound (hp : p.Sound) (port : UInt8) (peer : Peer) :
    (∀ conn, (p.resolveInbound port peer).2 = .ok (some conn) →
      (p.resolveInbound port peer).1.packets = p.packets) ∧
    ∀ i, (p.resolveInbound port peer).1.packets i = p.packets i ∨
      ((p.census.status i).phase = .free ∧ (p.resolveInbound port peer).1.packets i = []) := by
  rw [(discards_resolveInbound p port peer _ hp).packets_eq]
  constructor
  · intro conn hfound
    funext i
    exact if_neg fun hends => (ends_resolveInbound hends).2 conn hfound
  · intro i
    dsimp only
    split
    · next hends => exact .inr ⟨(ends_resolveInbound hends).1, rfl⟩
    · exact .inl rfl

theorem Sound.rxPush (hp : p.Sound) (h : Handle) (packet : Buffer) :
    p.Gains (p.rxPush h packet).1 [packet] := by
  obtain ⟨e, -, hq⟩ | ⟨-, -, hq⟩ := rxPush_cases hp h packet
  · exact gains_of_mail hq _
  · exact gains_of_append hq

theorem Sound.beginPush (hp : p.Sound) (h : Handle) (packet : Buffer) :
    p.Gains (p.beginPush h packet).1 [packet] := by
  obtain ⟨e, q, he, hq⟩ | ⟨q, he, hq⟩ | ⟨q, he, -, hq⟩ := beginPush_cases hp h packet
  · rw [he]
    exact gains_of_mail hq _
  · rw [he]
    exact gains_of_mail hq _
  · rw [he]
    exact gains_of_append hq

/-- A push that waits has queued nothing yet. -/
theorem Sound.beginPush_asleep (hp : p.Sound) {call : Call}
    (hb : (p.beginPush h packet).2 = .parked call) : p.Gains (p.beginPush h packet).1 [] := by
  obtain ⟨e, q, he, hq⟩ | ⟨q, he, hq⟩ | ⟨q, he, -, hq⟩ := beginPush_cases hp h packet <;>
    rw [he] at hb ⊢ <;> cases hb
  exact gains_of_mail hq []

theorem Sound.wake_push (hp : p.Sound) (h : Handle) (packet : Buffer) :
    p.Gains (p.wake (.push h packet)).1 [packet] := by
  obtain ⟨e, q, he, hq⟩ | ⟨q, he, hq⟩ | ⟨q, he, hq⟩ := wake_push_cases hp h packet
  · rw [he]
    exact gains_of_mail hq _
  · rw [he]
    exact gains_of_mail hq _
  · rw [he]
    exact gains_of_append hq

theorem Sound.wake_push_asleep (hp : p.Sound) {call : Call}
    (hb : (p.wake (.push h packet)).2 = .parked call) :
    p.Gains (p.wake (.push h packet)).1 [] := by
  obtain ⟨e, q, he, hq⟩ | ⟨q, he, hq⟩ | ⟨q, he, hq⟩ := wake_push_cases hp h packet <;>
    rw [he] at hb ⊢ <;> cases hb
  exact gains_of_mail hq []

theorem Sound.expire_push (hp : p.Sound) (h : Handle) (packet : Buffer) :
    p.Gains (p.expire (.push h packet)).1 [packet] := by
  obtain ⟨e, q, he, hq⟩ | ⟨q, he, hq⟩ := expire_push_cases hp h packet
  · rw [he]
    exact gains_of_mail hq _
  · rw [he]
    exact gains_of_append hq

/-- A packet that is popped is the first in its slot. -/
theorem Sound.rxPop (hp : p.Sound) {timeout : Timeout} (hpop : (p.rxPop h timeout).2 = .ok packet) :
    ∃ rest, p.packets h.index = packet :: rest ∧
      (p.rxPop h timeout).1.Mail (Function.update p.packets h.index rest) := by
  obtain ⟨e, he, -⟩ | ⟨packet', rest, hok, -, hfirst, hq⟩ := rxPop_cases hp h timeout
  · rw [he] at hpop
    cases hpop
  · obtain rfl := Except.ok.inj (hok.symm.trans hpop)
    exact ⟨rest, hfirst, hq⟩

/-- Event bits are no packets. -/
theorem sameInboxes_onEvents {α : Type} (h : Handle) (f : EventGroup → EventGroup × α) :
    p.SameInboxes (p.onEvents h f).1 := by
  unfold onEvents
  split
  · exact .refl _
  · exact sameInboxes_setEvents _ _

/-! ## A push of somebody who is alone -/

/-- A queue that is put in the place of another takes its place. -/
theorem setQueue_setQueue (p : Pool) (i : Nat) (queue queue' : Fifo Buffer) :
    (p.setQueue i queue).setQueue i queue' = p.setQueue i queue' := by
  unfold setQueue
  rw [modify_modify]
  rfl

/-- A push that waits, waits with its packet. -/
theorem eq_of_beginPush_parked {queue queue' : Fifo Buffer} {packet packet' : Buffer}
    {waits : Bool} (h : queue.beginPush packet waits = (queue', .parked packet')) :
    packet' = packet := by
  unfold Queue.beginPush at h
  dsimp only [Storage.checkItem] at h
  split at h
  · cases h
  · split at h
    · cases h
    · split at h <;> cases h
      rfl

/-- A push of somebody who is alone is one that is begun and, if it has to wait, waits in
vain. -/
theorem rxPush_eq (p : Pool) (h : Handle) (packet : Buffer) :
    (p.rxPush h packet).1 =
      match p.beginPush h packet with
      | (q, .done _) => q
      | (q, .parked _) => (q.expire (.push h packet)).1 := by
  unfold rxPush beginPush
  cases hin : p.inlet h with
  | error e => rfl
  | ok queue =>
    dsimp only
    unfold Queue.push
    cases hb : queue.beginPush packet (Timeout.waits (some p.limits.queueTimeout)) with
    | mk queue' progress =>
      cases progress with
      | done result => rfl
      | parked packet' =>
        dsimp only
        obtain rfl := eq_of_beginPush_parked hb
        unfold expire
        dsimp only
        have hslot : ((p.setQueue h.index queue').slotAt h.index).rxQueue = some queue' := by
          rw [setQueue, slotAt_modify (lt_size_of_inbox (inlet_eq_ok hin).2)]
        rw [hslot]
        dsimp only
        rw [setQueue_setQueue]

end Netstack.Pool
