import Netstack.Proofs.Stack.Effects

/-
How a packet is sent, piece by piece.

The call that sleeps carries the packet that was made at the beginning, so whatever piece
ends the send adds this packet, and no other piece adds anything (`SendCall.Piece`). Alone
with the stack, sending to the own address is dispatching the packet.
-/

set_option autoImplicit false

namespace Netstack.Stack

variable {δ : Type} {s t : Stack δ} {h receiver : Handle} {data : List UInt8} {dst : Peer}
  {packet frame : Buffer} {index n m : Nat}

theorem Sound.adds_sent (hs : s.Sound) (h : Handle) (n : Nat) :
    s.Adds (s.sent h n).1 noFrames [] := by
  have hbits := hs.adds_onPool (·.onEvents h fun g => (g.set ConnBits.send, ()))
    (hs.pool.gains_of_sameInboxes (Pool.sameInboxes_onEvents h _))
  unfold sent
  split <;> rename_i hq <;> rw [hq] at hbits <;> exact hbits

theorem eq_of_sent (hok : (s.sent h n).2 = .ok m) : m = n := by
  unfold sent at hok
  split at hok
  · exact (Except.ok.inj hok).symm
  · cases hok

/-! ## What a call that sleeps will add -/

namespace SendCall

/-- The frames that are queued when the send ends well. -/
def frames : SendCall → Interface.Direction → Nat → List Buffer
  | .loop _ _ _ _ => noFrames
  | .link _ index frame _ => framesAt .tx index [frame]

/-- The packets that a connection of this system may get when the send ends well. -/
def packets : SendCall → List Buffer
  | .loop _ _ packet _ => [packet]
  | .link _ _ _ _ => []

/-- The number of payload bytes that is reported. -/
def size : SendCall → Nat
  | .loop _ _ _ size => size
  | .link _ _ _ size => size

/-- The call is the one for a packet that is ready to go. -/
def Carries (h : Handle) (size : Nat) : Outbound → SendCall → Prop
  | .loop packet, call => ∃ receiver, call = .loop h receiver packet size
  | .link index frame _, call => call = .link h index frame size

/-- A piece of this send. -/
abbrev Piece (s : Stack δ) (call : SendCall) :
    Stack δ × Progress SendCall (Except Error Nat) → Prop :=
  s.Advances call call.frames call.packets call.size

end SendCall

/-! ## The pieces -/

/-- What was added is announced to the sender. -/
theorem advances_sent (call : SendCall) (hadds : s.Adds t call.frames call.packets) (h : Handle) :
    call.Piece s ((t.sent h call.size).map id .done) :=
  .through (hadds.quiet (hadds.sound.adds_sent h _)) fun _ => eq_of_sent

/-- A frame was put into a transmit queue, or was refused. -/
theorem Sound.advances_afterTx (hs : s.Sound) {i j : Interface δ}
    {result : Except (Rejected Buffer) Unit} {size : Nat}
    (hi : s.interfaces.byIndex index = some i)
    (hpush : i.Pushes .tx frame (j, .done result)) :
    SendCall.Piece s (.link h index frame size)
      (((s.modifyLink index fun _ => j).afterTx h index size result).map id .done) := by
  cases hpush with
  | refused holding => exact .failed (hs.adds_link_same hi holding)
  | queued holding =>
    have hadds := hs.adds_link hi holding
    have hposted := hadds.quiet (hadds.sound.adds_post (.tx index))
    exact advances_sent (.link h index frame size) hposted h

/-- The beginning of a send, with the packet that it makes. -/
theorem Sound.advances_beginSendTo (hs : s.Sound) {o : Outbound}
    (hout : s.outbound h data dst = .ok o) :
    ∃ call, SendCall.Carries h data.length o call ∧
      call.Piece s (s.beginSendTo h data dst) := by
  unfold beginSendTo
  rw [hout]
  cases o with
  | loop packet =>
    dsimp only
    have hfind := hs.adds_addressee none packet
    split <;> rename_i hq <;> rw [hq] at hfind
    · -- nobody takes it, and it has been sent nevertheless
      refine ⟨.loop h h packet data.length, ⟨h, rfl⟩, ?_⟩
      exact advances_sent (.loop h h packet data.length) (hfind.weaken _) h
    · next t receiver =>
      refine ⟨.loop h receiver packet data.length, ⟨receiver, rfl⟩, ?_⟩
      have hpool := hfind.sound.pool
      have hpush := hfind.trans
        (hfind.sound.adds_onPool (·.beginPush receiver packet) (hpool.beginPush _ _))
      split <;> rename_i hb
      · rw [hb] at hpush
        exact advances_sent (.loop h receiver packet data.length) hpush h
      · have hsame := hfind.quiet (hfind.sound.adds_onPool (·.beginPush receiver packet)
          (hpool.beginPush_asleep (congrArg Prod.snd hb)))
        rw [hb] at hsame
        exact .asleep hsame
  | link index frame timeout =>
    dsimp only
    refine ⟨.link h index frame data.length, rfl, ?_⟩
    cases hi : s.interfaces.byIndex index with
    | none =>
      rw [s.onLink_none hi]
      exact .failed hs.adds
    | some i =>
      have hpush := (hs.link hi).beginPush .tx frame timeout.waits
      rw [s.onLink_eq hi]
      generalize i.beginPush .tx frame timeout.waits = o at hpush ⊢
      obtain ⟨j, result | frame'⟩ := o
      · exact hs.advances_afterTx hi hpush
      · cases hpush with
        | asleep holding => exact .asleep (hs.adds_link_same hi holding)

theorem Sound.advances_wakeSend (hs : s.Sound) (call : SendCall) :
    call.Piece s (s.wakeSend call) := by
  cases call with
  | loop h receiver packet size =>
    unfold wakeSend
    dsimp only
    have hpush := hs.adds_onPool (·.wake (.push receiver packet)) (hs.pool.wake_push _ _)
    split <;> rename_i hb
    · rw [hb] at hpush
      exact advances_sent (.loop h receiver packet size) hpush h
    · have hsame := hs.adds_onPool (·.wake (.push receiver packet))
        (hs.pool.wake_push_asleep (congrArg Prod.snd hb))
      rw [hb] at hsame
      exact .asleep hsame
  | link h index frame size =>
    unfold wakeSend
    dsimp only
    cases hi : s.interfaces.byIndex index with
    | none =>
      rw [s.onLink_none hi]
      exact .asleep hs.adds
    | some i =>
      have hpush := (hs.link hi).wakePush .tx frame
      rw [s.onLink_eq hi]
      generalize i.wakePush .tx frame = o at hpush ⊢
      obtain ⟨j, result | frame'⟩ := o
      · exact hs.advances_afterTx hi hpush
      · cases hpush with
        | asleep holding => exact .asleep (hs.adds_link_same hi holding)

theorem Sound.advances_expireSend (hs : s.Sound) (call : SendCall) :
    call.Piece s ((s.expireSend call).map id .done) := by
  cases call with
  | loop h receiver packet size =>
    have hpush := hs.adds_onPool (·.expire (.push receiver packet)) (hs.pool.expire_push _ _)
    exact advances_sent (.loop h receiver packet size) hpush h
  | link h index frame size =>
    unfold expireSend
    dsimp only
    cases hi : s.interfaces.byIndex index with
    | none =>
      rw [s.onLink_none hi]
      exact .failed hs.adds
    | some i =>
      rw [s.onLink_eq hi]
      exact hs.advances_afterTx hi ((hs.link hi).expirePush .tx frame)

theorem Sound.keeps_beginSendTo (hs : s.Sound) (h : Handle) (data : List UInt8) (dst : Peer) :
    s.Keeps (s.beginSendTo h data dst).1 := by
  cases hout : s.outbound h data dst with
  | error e =>
    rw [beginSendTo, hout]
    exact hs.keeps
  | ok o =>
    obtain ⟨call, -, ha⟩ := hs.advances_beginSendTo hout
    exact ha.keeps

/-! ## Alone with the stack -/

/-- What somebody who is alone sends to the own address is dispatched. -/
theorem sendTo_loop (hout : s.outbound h data dst = .ok (.loop packet)) :
    s.sendTo h data dst = (s.dispatch none packet).sent h data.length := by
  unfold sendTo beginSendTo dispatch
  rw [hout]
  dsimp only
  cases hq : s.addressee none packet with
  | mk t taker =>
    cases taker with
    | none => rfl
    | some receiver =>
      dsimp only
      have hqueue := Pool.rxPush_eq t.pool receiver packet
      unfold onPool
      dsimp only
      cases hr : t.pool.rxPush receiver packet with
      | mk q result =>
        cases hb : t.pool.beginPush receiver packet with
        | mk q' progress =>
          rw [hr, hb] at hqueue
          dsimp only at hqueue
          subst hqueue
          -- whether it finds room or not, nobody counts a drop
          cases progress <;> cases result <;> rfl

end Netstack.Stack
