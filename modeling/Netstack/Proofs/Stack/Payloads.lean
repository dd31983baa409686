import Netstack.Link.Scripted
import Netstack.Proofs.Stack.Run

/-
From one end to the other: what is received is what was sent.

The sender makes a packet once, and this packet is what is queued, whenever that is. Frames
are bytes, and the receiver makes a buffer of the bytes that come in; from there on the buffer
is moved from queue to queue and never written to. It is read at the very end, and only the
header at its front says where the payload ends, so what a link puts behind the packet is cut
off there.

Each of these stages is said of any reachable state, so others may be at work between two of
them. What the receiver does is also put together, for the case that the core comes next.
-/

set_option autoImplicit false

namespace Netstack.Stack

variable {δ : Type} {s t t' : Stack δ} {h conn : Handle} {packet : Buffer} {header : Header}
  {data pad : List UInt8} {dst : Peer} {index n : Nat} {r : Received}

/-! ## The receiver's end -/

/-- A queued packet that begins with a header and its payload carries this payload, whatever
is behind it. -/
theorem ofPacket_of_used (hfits : header.validate = .ok ())
    (hlen : header.payloadLen.toNat = data.length)
    (hused : packet.used = header.bytes ++ data ++ pad) :
    Received.ofPacket packet = .ok ⟨data, ⟨header.srcAddr, header.srcPort⟩⟩ := by
  rw [List.append_assoc] at hused
  obtain ⟨rest, hpull, hrest⟩ := Buffer.pullHeader_of_used hfits hused
  rw [Received.ofPacket, hpull]
  dsimp only
  rw [hrest, hlen, List.take_left]

/-- A receive on a connection takes this packet. -/
def Pops (s : Stack δ) (conn : Handle) (packet : Buffer) : Prop :=
  ∃ options, s.pool.options conn = .ok options ∧
    (s.pool.rxPop conn options.recvTimeout).2 = .ok packet

theorem receive_of_pops (hpop : s.Pops conn packet) :
    (s.receive conn).2 = Received.ofPacket packet := by
  obtain ⟨options, hoptions, htaken⟩ := hpop
  rw [receive, hoptions]
  show ((s.pool.rxPop conn options.recvTimeout).2).bind Received.ofPacket = _
  rw [htaken]
  rfl

/-- A packet that is taken is the first that waits for the connection. -/
theorem Pops.mem (hpop : s.Pops conn packet) (hs : s.pool.Sound) :
    packet ∈ s.pool.packets conn.index := by
  obtain ⟨options, -, htaken⟩ := hpop
  obtain ⟨rest, hfirst, -⟩ := hs.rxPop htaken
  rw [hfirst]
  exact List.mem_cons_self

/-- A payload is copied to the front of a buffer as far as it fits, and the rest of the buffer
is left alone. -/
theorem into_eq (r : Received) (buffer : List UInt8) :
    r.into buffer = ⟨min r.payload.length buffer.length,
      r.payload.take buffer.length ++ buffer.drop r.payload.length⟩ := by
  unfold Received.into
  dsimp only
  obtain hfits | hlong := Nat.le_total r.payload.length buffer.length
  · rw [Nat.min_eq_left hfits, List.take_of_length_le (Nat.le_refl _),
      List.take_of_length_le hfits, overwrite_front hfits]
  · have hlen : (r.payload.take buffer.length).length = buffer.length := by
      rw [List.length_take, Nat.min_eq_left hlong]
    rw [Nat.min_eq_right hlong, overwrite_front (Nat.le_of_eq hlen), hlen,
      List.drop_of_length_le (Nat.le_refl _), List.drop_of_length_le hlong]

/-! ## The way through the receiver -/

theorem received_eq (hs : s.Sound) (index : Nat) :
    s.interfaces.received index = (s.frames .rx index).length := by
  unfold Registry.received frames
  cases hi : s.interfaces.byIndex index with
  | none => rfl
  | some i => exact (hs.link hi .rx).announced

/-- Frames that are taken off an interface one after the other come to connections as they
are, in their order. -/
theorem Sound.receiveUpTo (hs : s.Sound) (hn : (s.frames .rx index).length = n) :
    (receiveUpTo n s index).frames .rx index = [] ∧
      s.pool.Gains (receiveUpTo n s index).pool (s.frames .rx index) := by
  induction n generalizing s with
  | zero =>
    rw [List.length_eq_zero_iff.1 hn]
    exact ⟨List.length_eq_zero_iff.1 hn, hs.pool.gains_of_sameInboxes (.refl _)⟩
  | succ n ih =>
    obtain ⟨hnone, -⟩ | ⟨frame, rest, t, heq, ht, hkeeps, hrest, hgains⟩ := hs.receive_cases index
    · rw [hnone] at hn
      cases hn
    · rw [heq] at hn ⊢
      obtain ⟨hempty, hmore⟩ := ih hkeeps.sound (by rw [hrest]; exact Nat.succ.inj hn)
      rw [hrest] at hmore
      rw [Stack.receiveUpTo, ht]
      exact ⟨hempty, hgains.trans hmore⟩

/-- What the core takes off an interface comes to connections, or is lost. -/
theorem Sound.processRx (hs : s.Sound) (index : Nat) :
    (s.processRx index).frames .rx index = [] ∧
      s.pool.Gains (s.processRx index).pool (s.frames .rx index) := by
  rw [Stack.processRx]
  exact hs.receiveUpTo (received_eq hs index).symm

/-- A packet that is taken after the core was at work has waited for the connection before, or
on the interface, or is one of the frames that have come in. -/
theorem Adds.mem_of_pops {fs : Interface.Direction → Nat → List Buffer} (hadds : s.Adds t fs [])
    (hpop : (t.processRx index).Pops conn packet) :
    packet ∈ s.pool.packets conn.index ∨ packet ∈ s.frames .rx index ∨ packet ∈ fs .rx index := by
  obtain ⟨-, hgains⟩ := hadds.sound.processRx index
  obtain hwaited | hframe :=
    List.mem_append.1 ((hgains.sublist conn.index).mem (hpop.mem hgains.sound))
  · have hbefore := (hadds.packets.sublist conn.index).mem hwaited
    rw [List.append_nil] at hbefore
    exact .inl hbefore
  · rw [hadds.frames] at hframe
    exact .inr (List.mem_append.1 hframe)

/-! ## How calls end -/

section Ends

variable [LinkDriver δ] {bytes : List UInt8} {i : Interface δ} {result : Except Error Unit}

/-- A frame that is handed over on an interface is queued there, or refused. -/
theorem InputEnds.cases (hends : s.InputEnds index bytes t t' result) (hs : s.Sound)
    (hi : s.interfaces.byIndex index = some i) :
    (t.Adds t' noFrames [] ∧ result ≠ .ok ()) ∨
    ∃ frame : Buffer, frame.used = bytes ∧ t.Adds t' (framesAt .rx index [frame]) [] := by
  cases hframe : frameBuffer index bytes with
  | error e =>
    have hbegin : s.beginInput index bytes = (s, .done (.error e)) := by rw [beginInput, hframe]
    unfold InputEnds at hends
    rw [hbegin] at hends
    cases hends with
    | atOnce ended =>
      cases ended
      exact .inl ⟨hs.adds, by rintro ⟨⟩⟩
    | woken slept => cases slept
    | late slept => cases slept
  | ok frame =>
    -- the interface is there as long as the call sleeps
    have hlater : ∀ u, s.Keeps u → ∃ j, u.interfaces.byIndex index = some j := by
      intro u hkeeps
      obtain ⟨j, hj, -⟩ := hkeeps.links.link index i hi
      exact ⟨j, hj⟩
    obtain ⟨-, ⟨hadds, hfailed⟩ | ⟨hadds, -⟩⟩ := Ends.adds hends hs
      (hs.advances_beginInput hi hframe)
      (fun u hkeeps => by
        obtain ⟨j, hj⟩ := hlater u hkeeps
        exact hkeeps.sound.advances_wakeInput hj frame)
      (fun u hkeeps => by
        obtain ⟨j, hj⟩ := hlater u hkeeps
        exact hkeeps.sound.advances_expireInput hj frame)
    · exact .inl ⟨hadds, hfailed ()⟩
    · exact .inr ⟨frame, used_frameBuffer hframe, hadds⟩

/-- Who is alone with the stack hands over a frame in one of these ways. -/
theorem inputEnds_input (s : Stack δ) (index : Nat) (bytes : List UInt8) :
    ∃ t, s.InputEnds index bytes t (s.input index bytes).1 (s.input index bytes).2 := by
  unfold input
  split
  · next hbegin => exact ⟨_, .atOnce hbegin⟩
  · next hbegin => exact ⟨_, .late hbegin (.refl _) rfl⟩

/-- What was sent well has been queued: a packet for this system at a connection or nowhere,
any other on its interface. -/
theorem SendEnds.of_ok (hends : s.SendEnds h data dst t t' (.ok n)) (hs : s.Sound) :
    n = data.length ∧
      ((∃ packet, s.outbound h data dst = .ok (.loop packet) ∧ t.Adds t' noFrames [packet]) ∨
        ∃ index frame timeout, s.outbound h data dst = .ok (.link index frame timeout) ∧
          t.Adds t' (framesAt .tx index [frame]) []) := by
  cases hout : s.outbound h data dst with
  | error e =>
    have hbegin : s.beginSendTo h data dst = (s, .done (.error e)) := by rw [beginSendTo, hout]
    unfold SendEnds at hends
    rw [hbegin] at hends
    cases hends with
    | atOnce ended => cases ended
    | woken slept => cases slept
    | late slept => cases slept
  | ok o =>
    obtain ⟨call, hcarries, hpiece⟩ := hs.advances_beginSendTo hout
    obtain ⟨-, ⟨-, hfailed⟩ | ⟨hadds, hsize⟩⟩ := Ends.adds hends hs hpiece
      (fun u hkeeps => hkeeps.sound.advances_wakeSend call)
      (fun u hkeeps => hkeeps.sound.advances_expireSend call)
    · exact absurd rfl (hfailed n)
    · rw [hsize n rfl]
      cases o with
      | loop packet =>
        obtain ⟨receiver, rfl⟩ := hcarries
        exact ⟨rfl, .inl ⟨packet, rfl, hadds⟩⟩
      | link index frame timeout =>
        obtain rfl := hcarries
        exact ⟨rfl, .inr ⟨index, frame, timeout, rfl, hadds⟩⟩

/-- Who is alone with the stack sends in one of these ways. -/
theorem sendEnds_sendTo (s : Stack δ) (h : Handle) (data : List UInt8) (dst : Peer) :
    ∃ t, s.SendEnds h data dst t (s.sendTo h data dst).1 (s.sendTo h data dst).2 := by
  unfold sendTo
  split
  · next hbegin => exact ⟨_, .atOnce hbegin⟩
  · next hbegin => exact ⟨_, .late hbegin (.refl _) rfl⟩

end Ends

/-! ## From one end to the other -/

/-- What a connection sends is a header that says from where and to where, and the payload,
and nothing else; the header always finds room. The one packet is dispatched here, or is the
one frame that is queued on the interface of its route, and fits there. A frame that comes in
with these bytes, and any others behind them, is queued as it is, comes to connections as it
is, and the receive that takes it gives the payload and the sender. -/
theorem payload_intact {δ' : Type} [LinkDriver δ] [LinkDriver δ'] {conf conf' : Config}
    {a : Stack δ} {b : Stack δ'} (ha : Reachable conf a) (hb : Reachable conf' b)
    {options : Options} (hlive : a.pool.options h = .ok options)
    (hdata : data.length ≤ payloadMax) (hport : dst.port ≤ portMax) :
    let header := a.headerTo options dst data.length
    let wire := header.bytes ++ data
    let received : Received := ⟨data, ⟨a.addr, Port.wirePort options.lport⟩⟩
    -- the header
    (conf.address = .ok a.addr ∧ header.srcAddr = a.addr ∧
      header.srcPort = Port.wirePort options.lport ∧ header.dstAddr = dst.addr ∧
      header.dstPort = dst.port ∧ header.payloadLen.toNat = data.length) ∧
    (∀ link buffer, a.allocBuffer link data.length = .ok buffer →
      ((buffer.append data).pushHeader header).isOk = true) ∧
    -- sending
    (∀ t t' n, a.SendEnds h data dst t t' (.ok n) → n = data.length ∧
      ∃ frame : Buffer, frame.used = wire ∧
        ((dst.addr = a.addr ∧ t.Adds t' noFrames [frame] ∧
            a.sendTo h data dst = (a.dispatch none frame).sent h data.length) ∨
          (dst.addr ≠ a.addr ∧ ∃ i, a.linkTo dst.addr = .ok i ∧ frame.used.length ≤ i.mtu.toNat ∧
            t.Adds t' (framesAt .tx i.index [frame]) []))) ∧
    -- receiving
    (∀ index, (b.processRx index).frames .rx index = [] ∧
      ∀ k, ((b.processRx index).pool.packets k).Sublist (b.pool.packets k ++ b.frames .rx index)) ∧
    (∀ buffer, received.into buffer =
      ⟨min data.length buffer.length, data.take buffer.length ++ buffer.drop data.length⟩) ∧
    ∀ pad,
      (∀ packet : Buffer, packet.used = wire ++ pad → Received.ofPacket packet = .ok received ∧
        ∀ conn, b.Pops conn packet → (b.receive conn).2 = .ok received) ∧
      ∀ index i, b.interfaces.byIndex index = some i →
        ∀ u u' result, b.InputEnds index (wire ++ pad) u u' result →
          ((u.Adds u' noFrames [] ∧ result ≠ .ok ()) ∨
            ∃ frame : Buffer, frame.used = wire ++ pad ∧
              u.Adds u' (framesAt .rx index [frame]) []) ∧
          -- and if the core comes next
          ∀ conn packet, (u'.processRx index).Pops conn packet →
            packet ∈ u.pool.packets conn.index ∨ packet ∈ u.frames .rx index ∨
              ((u'.processRx index).receive conn).2 = .ok received := by
  intro header wire received
  have hfits : header.validate = .ok () := validate_headerTo a options hdata hport
  have hlen : header.payloadLen.toNat = data.length := payloadLen_headerTo a options dst hdata
  have hread : ∀ pad (packet : Buffer), packet.used = wire ++ pad →
      Received.ofPacket packet = .ok received := fun pad packet => ofPacket_of_used hfits hlen
  refine ⟨⟨ha.address, rfl, rfl, rfl, rfl, hlen⟩, ?_, ?_, ?_, into_eq received,
    fun pad => ⟨?_, ?_⟩⟩
  · exact fun link buffer => pushHeader_isOk ha.headerRoom hfits
  · intro t t' n hends
    obtain ⟨hn, hsent⟩ := hends.of_ok ha.sound
    refine ⟨hn, ?_⟩
    obtain ⟨packet, hout, hadds⟩ | ⟨index, frame, timeout, hout, hadds⟩ := hsent
    · obtain ⟨-, hused⟩ := used_of_outbound hout hlive
      obtain ⟨-, -, o, -, ⟨hself, -⟩ | ⟨-, i, frame, ho, -⟩⟩ := outbound_cases hout
      · exact ⟨packet, hused, .inl ⟨hself, hadds, sendTo_loop hout⟩⟩
      · cases ho
    · obtain ⟨-, hused⟩ := used_of_outbound hout hlive
      obtain ⟨-, -, o, -, ⟨-, packet, ho, -⟩ | ⟨hother, i, frame', ho, hlink, hmtu, -⟩⟩ :=
        outbound_cases hout
      · cases ho
      · cases ho
        refine ⟨frame, hused, .inr ⟨hother, i, hlink, ?_, hadds⟩⟩
        rw [show frame.used = wire from hused, List.length_append, Header.length_bytes]
        exact hmtu
  · intro index
    obtain ⟨hempty, hgains⟩ := hb.sound.processRx index
    exact ⟨hempty, hgains.sublist⟩
  · intro packet hused
    have hpacket := hread pad packet hused
    exact ⟨hpacket, fun conn hpop => (receive_of_pops hpop).trans hpacket⟩
  · intro index i hi u u' result hends
    have hcases := hends.cases hb.sound hi
    refine ⟨hcases, fun conn packet hpop => ?_⟩
    obtain ⟨hadds, -⟩ | ⟨frame, hused, hadds⟩ := hcases
    · obtain hwaited | hframe | hnone := hadds.mem_of_pops hpop
      · exact .inl hwaited
      · exact .inr (.inl hframe)
      · cases hnone
    · obtain hwaited | hframe | hnew := hadds.mem_of_pops hpop
      · exact .inl hwaited
      · exact .inr (.inl hframe)
      · rw [framesAt, if_pos ⟨rfl, rfl⟩, List.mem_singleton] at hnew
        rw [receive_of_pops hpop, hnew]
        exact .inr (.inr (hread pad frame hused))

/-- A frame with two bytes more than were sent brings three bytes of payload to another
system, where a short buffer gets two of them. -/
theorem payload_intact_padded :
    ∃ (a₀ b₀ : Stack ScriptedLink) (i : Interface ScriptedLink),
      new { addr := 0xAE55 } = .ok a₀ ∧ new { addr := 0xAE56 } = .ok b₀ ∧
      Interface.build { name := "radio" } {} = .ok i ∧
      let a := ((((a₀.registerInterface i).1.addRoute ⟨⟨0, "radio"⟩, 0xAE56, 1⟩).1.socket).1.bind
        ⟨0, 0⟩ 7).1
      let b := (((((b₀.registerInterface i).1.addRoute ⟨⟨0, "radio"⟩, 0xAE55, 1⟩).1.socket).1.bind
        ⟨0, 0⟩ 5).1.connect ⟨0, 0⟩ ⟨0xAE55, 7⟩).1
      let options : Options := { lport := 7 }
      let data : List UInt8 := [1, 2, 3]
      let dst : Peer := ⟨0xAE56, 5⟩
      let wire := (a.headerTo options dst 3).bytes ++ data
      let u := (b.input 0 (wire ++ [0, 0])).1.processRx 0
      (Reachable { addr := 0xAE55 } a ∧ Reachable { addr := 0xAE56 } b ∧
        a.pool.options ⟨0, 0⟩ = .ok options ∧ data.length ≤ payloadMax ∧ dst.port ≤ portMax) ∧
      (∃ frame : Buffer, frame.used = wire ∧
        (a.sendTo ⟨0, 0⟩ data dst).2 = .ok 3 ∧
        (a.sendTo ⟨0, 0⟩ data dst).1.frames .tx 0 = [frame]) ∧
      (u.receive ⟨0, 0⟩).2 = .ok ⟨data, ⟨0xAE55, 7⟩⟩ ∧
      Received.into ⟨data, ⟨0xAE55, 7⟩⟩ [9, 9] = ⟨2, [1, 2]⟩ := by
  refine ⟨_, _, _, rfl, rfl, rfl, ?_⟩
  intro a b options data dst wire u
  have hbuild : Interface.build { name := "radio" } ({} : ScriptedLink) = .ok _ := rfl
  have hi := Interface.sound_build hbuild
  have hnewa : (new { addr := 0xAE55 } : Except Error (Stack ScriptedLink)) = .ok _ := rfl
  have hnewb : (new { addr := 0xAE56 } : Except Error (Stack ScriptedLink)) = .ok _ := rfl
  have ha : Reachable { addr := 0xAE55 } a :=
    ⟨_, hnewa, (((Step.register _ hi).run.trans (Step.routes _ _).run).trans
      (Step.pool _ .alloc).run).trans (Step.pool _ (.bind ⟨0, 0⟩ 7)).run⟩
  have hb : Reachable { addr := 0xAE56 } b :=
    ⟨_, hnewb, ((((Step.register _ hi).run.trans (Step.routes _ _).run).trans
      (Step.pool _ .alloc).run).trans (Step.pool _ (.bind ⟨0, 0⟩ 5)).run).trans
      (run_connect _ _ _)⟩
  refine (and_iff_left_of_imp ?_).2 ⟨ha, hb, by decide +kernel, by decide, by decide⟩
  rintro ⟨ha, hb, hlive, hdata, hport⟩
  obtain ⟨-, -, hsend, -, hinto, hpad⟩ := payload_intact ha hb hlive hdata hport
  have hgiven : b.InputEnds 0 (wire ++ [0, 0]) b (b.input 0 (wire ++ [0, 0])).1 (.ok ()) :=
    .atOnce rfl
  obtain ⟨t, hsent⟩ := sendEnds_sendTo a ⟨0, 0⟩ data dst
  have hok : (a.sendTo ⟨0, 0⟩ data dst).2 = .ok 3 := by decide +kernel
  rw [hok] at hsent
  obtain ⟨-, frame, hused, ⟨hself, -⟩ | ⟨-, j, hj, -, hadds⟩⟩ := hsend _ _ _ hsent
  · exact absurd hself (by decide +kernel)
  have hindex : (a.linkTo dst.addr).toOption.map (·.index) = some 0 := by decide +kernel
  rw [hj] at hindex
  have hqueued : (a.sendTo ⟨0, 0⟩ data dst).1.frames .tx 0 = t.frames .tx 0 ++ [frame] := by
    rw [hadds.frames, show j.index = 0 from Option.some.inj hindex]
    rfl
  have hone : ((a.sendTo ⟨0, 0⟩ data dst).1.frames .tx 0).length = 1 := by decide +kernel
  rw [hqueued, List.length_append] at hone
  rw [List.length_eq_zero_iff.1 (Nat.succ.inj hone), List.nil_append] at hqueued
  -- nothing has waited for the connection, and its packet is there
  obtain ⟨packet, hpop⟩ : ∃ packet, u.Pops ⟨0, 0⟩ packet := by
    have hthere : (u.pool.rxPop ⟨0, 0⟩ none).2.isOk = true := by decide +kernel
    cases hpacket : (u.pool.rxPop ⟨0, 0⟩ none).2 with
    | error e =>
      rw [hpacket] at hthere
      cases hthere
    | ok packet =>
      have hoptions : u.pool.options ⟨0, 0⟩ = .ok { lport := 5, raddr := 0xAE55, rport := 7 } := by
        decide +kernel
      exact ⟨packet, _, hoptions, hpacket⟩
  obtain ⟨-, hread⟩ := (hpad [0, 0]).2 0 _ rfl _ _ _ hgiven
  obtain hwaited | hframe | hreceived := hread _ _ hpop
  · rw [show b.pool.packets 0 = [] by decide +kernel] at hwaited
    cases hwaited
  · rw [show b.frames .rx 0 = [] by decide +kernel] at hframe
    cases hframe
  · exact ⟨⟨frame, hused, hok, hqueued⟩, hreceived, hinto [9, 9]⟩

end Netstack.Stack
