import Netstack.Proofs.Pool.Deliveries
import Netstack.Proofs.Stack.Inputs
import Netstack.Proofs.Stack.Payloads

/-
What a send that fails has sent.

Whatever can be wrong with a packet is found out before anything changes, and a frame that finds
no room is not queued. But after the packet is on its way it is announced on the event group of
the sender, and a sender that has none is told that the send has failed. A closed connection that
gave up its event group still has its options, so this can happen: the packet was dispatched or
queued, and the send fails with `destroyed`. How a send goes up to the announcement is one case
analysis (`Sending`), and what the announcement makes of it another.
-/

set_option autoImplicit false

namespace Netstack.Stack

variable {δ : Type} {s t : Stack δ} {h : Handle} {data : List UInt8} {dst : Peer}
  {packet frame : Buffer} {header : Header} {index size : Nat} {timeout : Timeout}
  {i j : Interface δ} {r : Except Error Nat} {o : Outbound}

/-- A packet that was made here has a header, and is as long as its header says. -/
theorem wellFormed?_of_used (hfits : header.validate = .ok ())
    (hlen : header.payloadLen.toNat = data.length) (hused : packet.used = header.bytes ++ data) :
    wellFormed? packet = some header := by
  have hwhole : packet.used.length ≤ packet.length := List.length_take_le _ _
  rw [hused, List.length_append, Header.length_bytes] at hwhole
  rw [wellFormed?, Buffer.parseHeader_of_used hfits hused, Option.filter_some, if_pos]
  rw [decide_eq_true_eq, hlen]
  omega

/-- Dispatching a packet that is for this system brings it to whoever takes it. -/
theorem dispatch_none_eq (hwhole : wellFormed? packet = some header)
    (hhere : header.dstAddr = s.addr) :
    s.dispatch none packet =
      { s with pool := s.pool.deliver header.dstPort ⟨header.srcAddr, header.srcPort⟩ packet } := by
  have haddressed : s.isAddressed header = true := by
    rw [isAddressed, hhere, beq_self_eq_true, Bool.true_or]
  unfold dispatch addressee Pool.deliver onPool learn
  rw [hwhole]
  dsimp only
  rw [haddressed, Bool.not_true, if_neg Bool.false_ne_true]
  cases s.pool.resolveInbound header.dstPort ⟨header.srcAddr, header.srcPort⟩ with
  | mk q answer =>
    obtain e | taker := answer
    · rfl
    obtain - | c := taker
    · rfl
    cases hr : q.rxPush c packet with
    | mk q' result =>
      dsimp only
      rw [hr]
      cases result <;> rfl

/-! ## Announcing what was sent -/

/-- A sender that has its event group is told. -/
theorem sent_of_hears (hears : s.pool.hearing h = some true) (size : Nat) :
    ∃ q, s.sent h size = ({ s with pool := q }, .ok size) := by
  have hok := Pool.events_isOk_iff.2 hears
  unfold sent onPool Pool.onEvents
  dsimp only
  cases hev : s.pool.events h with
  | error e =>
    rw [hev] at hok
    cases hok
  | ok group => exact ⟨_, rfl⟩

/-- One that gave it up is told that it has failed. -/
theorem sent_of_deaf (hno : s.pool.hearing h = some false) (size : Nat) :
    s.sent h size = (s, .error .destroyed) := by
  unfold sent onPool Pool.onEvents
  dsimp only
  rw [Pool.events_of_deaf hno]

/-! ## What becomes of a packet -/

/-- Nothing was sent: no connection has got a packet or a child, no frame has come to wait on an
interface, and the core has the events that it had. -/
structure Untouched (s t : Stack δ) : Prop where
  pool : s.pool.Undelivered t.pool
  frames : t.frames = s.frames
  events : t.events = s.events

theorem Untouched.refl (s : Stack δ) : s.Untouched s := ⟨.refl _, rfl, rfl⟩

theorem untouched_pool_iff {q : Pool} : s.Untouched { s with pool := q } ↔ s.pool.Undelivered q :=
  ⟨fun h => h.pool, fun h => ⟨h, rfl, rfl⟩⟩

/-- What becomes of a packet that is ready to go, when nobody else is at work. -/
inductive Sending (s : Stack δ) (h : Handle) (size : Nat) :
    Outbound → Stack δ × Except Error Nat → Prop
  /-- it is for this system, and is dispatched -/
  | dispatched {packet : Buffer} :
      Sending s h size (.loop packet) ((s.dispatch none packet).sent h size)
  /-- there is no room for it -/
  | refused {index : Nat} {frame : Buffer} {timeout : Timeout} {t : Stack δ} {e : Error}
      (full : ¬ s.HasRoom .tx index) (pool : t.pool = s.pool) (frames : t.frames = s.frames)
      (events : t.events = s.events) : Sending s h size (.link index frame timeout) (t, .error e)
  /-- it waits on its interface -/
  | queued {index : Nat} {frame : Buffer} {timeout : Timeout} {t : Stack δ}
      (room : s.HasRoom .tx index) (pool : t.pool = s.pool)
      (frames : t.frames = fun d k => s.frames d k ++ framesAt .tx index [frame] d k) :
      Sending s h size (.link index frame timeout) (t.sent h size)

/-- An interface that is put back with the frames that it had. -/
theorem Sound.frames_link_same (hs : s.Sound) (hi : s.interfaces.byIndex index = some i)
    (hj : i.Holding j .tx (i.frames .tx)) :
    (s.modifyLink index fun _ => j).frames = s.frames := by
  funext d k
  rw [(hs.adds_link_same hi hj).frames]
  exact List.append_nil _

/-- The push of a frame has ended. -/
theorem Sound.sending_afterTx (hs : s.Sound) (hi : s.interfaces.byIndex index = some i)
    {result : Except (Rejected Buffer) Unit} (hpush : i.Pushes .tx frame (j, .done result))
    (hroom : result = .ok () ↔ (i.queue .tx).HasRoom) :
    s.Sending h size (.link index frame timeout)
      ((s.modifyLink index fun _ => j).afterTx h index size result) := by
  rw [← hasRoom_iff hi] at hroom
  cases hpush with
  | refused holding =>
    exact .refused (fun hr => nomatch hroom.2 hr) rfl (hs.frames_link_same hi holding) rfl
  | queued holding =>
    refine .queued (hroom.1 rfl) rfl ?_
    funext d k
    exact (hs.adds_link hi holding).frames d k

theorem byIndex_of_linkTo (hlink : s.linkTo dst.addr = .ok i) :
    s.interfaces.byIndex i.index = some i := by
  unfold linkTo at hlink
  split at hlink
  · next i' hi' =>
    obtain rfl := Except.ok.inj hlink
    obtain ⟨link, -, hfound⟩ := Option.bind_eq_some_iff.1 hi'
    rw [Registry.index_of_byIndex hfound]
    exact hfound
  · cases hlink

theorem Sound.sending_link (hs : s.Sound) (hi : s.interfaces.byIndex index = some i)
    (hout : s.outbound h data dst = .ok (.link index frame timeout)) :
    s.Sending h data.length (.link index frame timeout) (s.sendTo h data dst) := by
  have hpush := (hs.link hi).beginPush .tx frame timeout.waits
  unfold sendTo beginSendTo
  rw [hout]
  dsimp only
  rw [s.onLink_eq hi]
  generalize hbegin : i.beginPush .tx frame timeout.waits = begun at hpush ⊢
  obtain ⟨j, result | frame'⟩ := begun
  · exact hs.sending_afterTx hi hpush (Interface.ok_iff_of_beginPush hbegin)
  · -- whoever is alone waits for room in vain
    obtain ⟨rfl, hfull, hstill, hwaits, -⟩ := (hs.link hi).parked_of_beginPush hbegin
    have hthere := byIndex_put hi hwaits
    have hsame := hs.frames_link_same hi hwaits
    have hsound : (s.modifyLink index fun _ => j).Sound :=
      (hs.keeps_link hi hwaits.same hwaits.sound).sound
    have hlast : Sending _ h data.length (.link index frame' timeout) _ :=
      hsound.sending_afterTx hthere (hwaits.sound.expirePush .tx frame')
        (Interface.ok_iff_of_expirePush j .tx frame')
    dsimp only
    unfold expireSend
    dsimp only
    rw [Stack.onLink_eq _ hthere]
    dsimp only
    generalize Stack.afterTx _ _ _ _ _ = ended at hlast ⊢
    cases hlast with
    | refused _ pool frames events =>
      exact .refused ((hasRoom_iff hi).not.2 hfull) pool (frames.trans hsame) events
    | queued room => exact absurd ((hasRoom_iff hthere).1 room) hstill

/-- However a packet is sent that is ready to go, it is one of the three. -/
theorem Sound.sending_sendTo (hs : s.Sound) (hout : s.outbound h data dst = .ok o) :
    s.Sending h data.length o (s.sendTo h data dst) := by
  obtain ⟨-, -, options, -, ⟨-, packet, rfl, -⟩ | ⟨-, i, frame, rfl, hlink, -⟩⟩ :=
    outbound_cases hout
  · rw [sendTo_loop hout]
    exact .dispatched
  · exact hs.sending_link (byIndex_of_linkTo hlink) hout

/-! ## What a send has sent -/

/-- Somebody takes a packet for this system, or there is room for a frame. -/
def Admits (s : Stack δ) (options : Options) (dst : Peer) : Outbound → Prop
  | .loop _ => s.pool.Lands dst.port ⟨s.addr, Port.wirePort options.lport⟩
  | .link index _ _ => s.HasRoom .tx index

/-- The packet of a send can be made, and gets through to where it is sent. -/
def GetsThrough (s : Stack δ) (h : Handle) (data : List UInt8) (dst : Peer) : Prop :=
  ∃ o options, s.outbound h data dst = .ok o ∧ s.pool.options h = .ok options ∧
    s.Admits options dst o

/-- A send has sent its packet: one for this system was dispatched, once, and any other is the one
frame that came to wait, on the interface of its route. -/
def Sends (s t : Stack δ) (h : Handle) (data : List UInt8) (dst : Peer) : Prop :=
  (dst.addr = s.addr ∧ ∃ packet, s.outbound h data dst = .ok (.loop packet) ∧
    t = ((s.dispatch none packet).sent h data.length).1) ∨
  (dst.addr ≠ s.addr ∧ ∃ i frame timeout, s.linkTo dst.addr = .ok i ∧
    s.outbound h data dst = .ok (.link i.index frame timeout) ∧
    t.frames = fun d k => s.frames d k ++ framesAt .tx i.index [frame] d k)

theorem getsThrough_iff {options : Options} (hout : s.outbound h data dst = .ok o)
    (hoptions : s.pool.options h = .ok options) :
    s.GetsThrough h data dst ↔ s.Admits options dst o := by
  constructor
  · rintro ⟨o', options', hout', hoptions', hadmits⟩
    obtain rfl := Except.ok.inj (hout.symm.trans hout')
    obtain rfl := Except.ok.inj (hoptions.symm.trans hoptions')
    exact hadmits
  · exact fun hadmits => ⟨o, options, hout, hoptions, hadmits⟩

/-- A packet of this system to itself is brought to the connection that it is for. -/
theorem dispatch_outbound {options : Options} (hout : s.outbound h data dst = .ok (.loop packet))
    (hoptions : s.pool.options h = .ok options) : s.dispatch none packet =
      { s with pool := s.pool.deliver dst.port ⟨s.addr, Port.wirePort options.lport⟩ packet } := by
  obtain ⟨hlen, -, options', -, ⟨hself, -⟩ | ⟨-, i, frame, ho, -⟩⟩ := outbound_cases hout
  · obtain ⟨hfits, hused⟩ := used_of_outbound hout hoptions
    have hwell := wellFormed?_of_used hfits (payloadLen_headerTo s options dst hlen) hused
    exact dispatch_none_eq hwell hself
  · cases ho

/-- The packet of a send is on its way, and what is left is to announce it to the sender. -/
structure OnItsWay (s u : Stack δ) (h : Handle) (data : List UInt8) (dst : Peer) : Prop where
  hearing : u.pool.hearing h = some (s.pool.events h).isOk
  sends : s.Sends (u.sent h data.length).1 h data dst
  through : s.GetsThrough h data dst ↔ ¬ s.Untouched u

theorem Sound.onItsWay_loop (hs : s.Sound) (hout : s.outbound h data dst = .ok (.loop packet)) :
    s.OnItsWay (s.dispatch none packet) h data dst := by
  obtain ⟨-, -, options, hoptions, ⟨hself, -⟩ | ⟨-, i, frame, ho, -⟩⟩ := outbound_cases hout
  · have hhears := Pool.hearing_of_options hoptions
    have hlive : s.pool.census.Live h := by
      obtain ⟨slot, hslot, -⟩ := Option.map_eq_some_iff.1 hhears
      exact Pool.live_of_slot? hslot
    have heq := dispatch_outbound hout hoptions
    refine ⟨?_, .inl ⟨hself, packet, hout, rfl⟩, ?_⟩
    · rw [heq]
      exact (Pool.hearing_deliver hlive).trans hhears
    · rw [getsThrough_iff hout hoptions, heq, untouched_pool_iff,
        Pool.undelivered_deliver_iff hs.pool, not_not]
      rfl
  · cases ho

theorem onItsWay_link (hout : s.outbound h data dst = .ok (.link index frame timeout))
    (hroom : s.HasRoom .tx index) (hpool : t.pool = s.pool)
    (hframes : t.frames = fun d k => s.frames d k ++ framesAt .tx index [frame] d k) :
    s.OnItsWay t h data dst := by
  obtain ⟨-, -, options, hoptions, ⟨-, packet, ho, -⟩ | ⟨hother, i, _, ho, hlink, -⟩⟩ :=
    outbound_cases hout
  · cases ho
  · refine ⟨by rw [hpool, Pool.hearing_of_options hoptions], ?_,
      iff_of_true ((getsThrough_iff hout hoptions).2 hroom) fun hu => ?_⟩
    · cases ho
      exact .inr ⟨hother, i, frame, _, hlink, hout, (sameQueues_sent t h _).frames.trans hframes⟩
    · -- one frame more than there was
      have hsame := congrFun (congrFun (hframes.symm.trans hu.frames) .tx) index
      simp [framesAt] at hsame

/-- Either nothing comes of a send and it fails, or the packet goes on its way, and then it is
announced to the sender. -/
theorem Sound.sendTo_cases (hs : s.Sound) (h : Handle) (data : List UInt8) (dst : Peer) :
    (∃ t e, s.sendTo h data dst = (t, .error e) ∧ s.Untouched t ∧ ¬ s.GetsThrough h data dst) ∨
    ∃ u, s.sendTo h data dst = u.sent h data.length ∧ s.OnItsWay u h data dst := by
  cases hout : s.outbound h data dst with
  | error e =>
    refine .inl ⟨s, e, by rw [sendTo, beginSendTo, hout], .refl s, ?_⟩
    rintro ⟨o, -, hok, -⟩
    cases hout.symm.trans hok
  | ok o =>
    have hsending := hs.sending_sendTo hout
    generalize s.sendTo h data dst = ended at hsending ⊢
    cases hsending with
    | dispatched => exact .inr ⟨_, rfl, hs.onItsWay_loop hout⟩
    | refused full pool frames events =>
      obtain ⟨-, -, options, hoptions, -⟩ := outbound_cases hout
      refine .inl ⟨_, _, rfl, ⟨?_, frames, events⟩, ?_⟩
      · rw [pool]
        exact .refl _
      · rw [getsThrough_iff hout hoptions]
        exact full
    | queued room pool frames => exact .inr ⟨_, rfl, onItsWay_link hout room pool frames⟩

variable [LinkDriver δ]

/-- A send that ends well, in any state of the stack, has sent its packet and tells how long the
payload is. One that fails has changed nothing exactly if the packet did not get through or the
sender has its event group. A packet that got through, from a connection that gave up its event
group, is sent, and the send fails with `destroyed` nevertheless. -/
theorem sendTo_all_or_nothing_iff {c : Config} (hs : Reachable c s)
    (hsend : s.sendTo h data dst = (t, r)) :
    let unheard := s.GetsThrough h data dst ∧ (s.pool.events h).isOk = false
    (∀ n, r = .ok n → n = data.length ∧ s.Sends t h data dst) ∧
    ((∀ e, r = .error e → s.Untouched t) ↔ ¬ unheard) ∧
    (unheard → r = .error .destroyed ∧ s.Sends t h data dst ∧ ¬ s.Untouched t) := by
  dsimp only
  obtain ⟨t', e, heq, huntouched, hno⟩ | ⟨u, heq, ⟨hhears, hsends, hthrough⟩⟩ :=
    hs.sound.sendTo_cases h data dst
  · obtain ⟨rfl, rfl⟩ := Prod.mk.inj (hsend.symm.trans heq)
    exact ⟨nofun, iff_of_true (fun _ _ => huntouched) fun h => hno h.1, fun h => absurd h.1 hno⟩
  rw [hsend] at heq
  rw [← heq] at hsends
  cases heard : (s.pool.events h).isOk with
  | true =>
    rw [heard] at hhears
    obtain ⟨q, hsent⟩ := sent_of_hears hhears data.length
    obtain ⟨rfl, rfl⟩ := Prod.mk.inj (heq.trans hsent)
    have hheard : ¬ (s.GetsThrough h data dst ∧ true = false) := fun h => Bool.noConfusion h.2
    exact ⟨fun n hn => ⟨(Except.ok.inj hn).symm, hsends⟩, iff_of_true nofun hheard,
      fun h => absurd h hheard⟩
  | false =>
    rw [heard] at hhears
    obtain ⟨rfl, rfl⟩ := Prod.mk.inj (heq.trans (sent_of_deaf hhears data.length))
    rw [hthrough]
    refine ⟨nofun, ?_, fun hunheard => ⟨rfl, hsends, hunheard.1⟩⟩
    rw [and_iff_left rfl, not_not]
    exact ⟨fun h => h _ rfl, fun h _ _ => h⟩

/-- Where there is room for one frame only, a second send fails, and nothing has changed. -/
theorem sendTo_all_or_nothing_of_full_queue :
    ∃ s₀ : Stack ScriptedLink, new { addr := 0xAE55 } = .ok s₀ ∧
      let s := s₀.perform [.register { name := "radio", txQueueLen := 1 } {},
        .routes ⟨[⟨⟨0, "radio"⟩, 0xAE56, 1⟩]⟩, .pool .alloc, .pool (.bind ⟨0, 0⟩ 7),
        .beginSendTo ⟨0, 0⟩ [1, 2] ⟨0xAE56, 5⟩]
      let t := (s.sendTo ⟨0, 0⟩ [3] ⟨0xAE56, 5⟩).1
      (Reachable { addr := 0xAE55 } s ∧
        s.sendTo ⟨0, 0⟩ [3] ⟨0xAE56, 5⟩ = (t, .error .timeout)) ∧
      (s.frames .tx 0).length = 1 ∧ s.Untouched t := by
  refine ⟨_, rfl, ?_⟩
  intro s t
  have hnew : (new { addr := 0xAE55 } : Except Error (Stack ScriptedLink)) = .ok _ := rfl
  have hs : Reachable { addr := 0xAE55 } s := ⟨_, hnew, run_perform (of_new hnew).1 _⟩
  have hsend : s.sendTo ⟨0, 0⟩ [3] ⟨0xAE56, 5⟩ = (t, .error .timeout) :=
    Prod.ext rfl (by decide +kernel)
  have heard : (s.pool.events ⟨0, 0⟩).isOk = true := by decide +kernel
  obtain ⟨-, hfailed, -⟩ := sendTo_all_or_nothing_iff hs hsend
  refine ⟨⟨hs, hsend⟩, by decide +kernel, hfailed.2 (fun h => ?_) _ rfl⟩
  rw [heard] at h
  exact Bool.noConfusion h.2

/-- A connection that was closed, where a closed connection gives up its event group, sends a
frame to another system, and the send fails. -/
theorem sendTo_queued_though_refused :
    ∃ s₀ : Stack ScriptedLink, new { addr := 0xAE55, releaseOnClose := true } = .ok s₀ ∧
      let s := s₀.perform [.register { name := "radio" } {},
        .routes ⟨[⟨⟨0, "radio"⟩, 0xAE56, 1⟩]⟩, .pool .alloc, .pool (.bind ⟨0, 0⟩ 7),
        .pool (.close ⟨0, 0⟩)]
      let t := (s.sendTo ⟨0, 0⟩ [1, 2] ⟨0xAE56, 5⟩).1
      (s.sendTo ⟨0, 0⟩ [1, 2] ⟨0xAE56, 5⟩).2 = .error .destroyed ∧
      s.frames .tx 0 = [] ∧ s.events.toList = [] ∧
      (t.frames .tx 0).map (·.used.drop headerLen) = [[1, 2]] ∧ t.events.toList = [.tx 0] :=
  ⟨_, rfl, by decide +kernel, by decide +kernel, by decide +kernel, by decide +kernel,
    by decide +kernel⟩

end Netstack.Stack
