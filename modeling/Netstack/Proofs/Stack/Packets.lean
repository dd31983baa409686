import Netstack.Proofs.Packet.Frames
import Netstack.Stack.Calls

/-
What a stack puts on the way.

A packet is made once, before anything changes: the header of the connection that sends, its
payload behind it, and nothing else. Whatever becomes of it later, whether it waits for room
or is queued at once, for this system or for another, is about this one buffer. So all that
is ever asked of its bytes is answered by `outbound_cases` and `used_of_packet`.
-/

set_option autoImplicit false

namespace Netstack.Stack

variable {δ : Type} {s : Stack δ} {h : Handle} {data : List UInt8} {dst : Peer}
  {link : Option (Interface δ)} {header : Header} {b f : Buffer} {n : Nat} {o : Outbound}

/-- The packet that is ready to go. -/
def Outbound.frame : Outbound → Buffer
  | .loop packet => packet
  | .link _ frame _ => frame

/-- A buffer for a payload has the room in front that the configuration asks for. -/
theorem allocBuffer_spans (hb : s.allocBuffer link n = .ok b) :
    ∃ room, s.config.bufferHeaderLen ≤ room ∧
      b.Spans (List.replicate room 0) [] (List.replicate n 0) := by
  unfold allocBuffer at hb
  dsimp only at hb
  generalize hroom : (link.map fun i => max i.minHeaderLen s.config.bufferHeaderLen).getD
    s.config.bufferHeaderLen = room at hb
  obtain ⟨b₀, hnew, hb⟩ := bind_eq_ok_iff.1 hb
  obtain rfl := Except.ok.inj hb
  refine ⟨room, ?_, (Buffer.spans_new hnew).setInterface _⟩
  cases link with
  | none => exact Nat.le_of_eq hroom
  | some i => exact hroom ▸ Nat.le_max_right _ _

/-- The buffer with its payload, ready for the header. -/
theorem append_spans (hb : s.allocBuffer link data.length = .ok b) :
    ∃ room, s.config.bufferHeaderLen ≤ room ∧
      (b.append data).Spans (List.replicate room 0) data [] := by
  obtain ⟨room, hroom, hspans⟩ := allocBuffer_spans hb
  have hlen : (List.replicate data.length (0 : UInt8)).length = data.length :=
    List.length_replicate
  have happend := hspans.append (Nat.le_of_eq hlen.symm)
  rw [List.nil_append, List.drop_of_length_le (Nat.le_of_eq hlen)] at happend
  exact ⟨room, hroom, happend⟩

/-- The length of a payload that is not too long fits its field. -/
theorem payloadLen_headerTo (s : Stack δ) (options : Options) (dst : Peer) (hn : n ≤ payloadMax) :
    (s.headerTo options dst n).payloadLen.toNat = n :=
  UInt16.toNat_ofNat_of_lt' (Nat.lt_of_le_of_lt hn (by decide))

/-- Every field of the header fits, whatever the local port. -/
theorem validate_headerTo (s : Stack δ) (options : Options) (hn : n ≤ payloadMax)
    (hport : dst.port ≤ portMax) : (s.headerTo options dst n).validate = .ok () := by
  have hwire : Port.wirePort options.lport ≤ portMax := by
    unfold Port.wirePort
    split
    · assumption
    · decide
  rw [Header.validate_eq_ok_iff, payloadLen_headerTo s options dst hn]
  exact ⟨hn, Nat.zero_le _, Nat.zero_le _, Nat.zero_le _, hwire, hport⟩

/-- Where the configuration leaves room for a header, one whose fields fit is put there. -/
theorem pushHeader_isOk (hroom : headerLen ≤ s.config.bufferHeaderLen)
    (hfits : header.validate = .ok ()) (hb : s.allocBuffer link data.length = .ok b) :
    ((b.append data).pushHeader header).isOk = true := by
  obtain ⟨room, hle, hspans⟩ := append_spans hb
  obtain ⟨f, hf, -⟩ := hspans.pushHeader hfits (by rw [List.length_replicate]; omega)
  rw [hf]
  rfl

/-- The bytes of a packet are those of its header and its payload. -/
theorem used_of_packet (hf : s.packet link header data = .ok f) :
    header.validate = .ok () ∧ f.used = header.bytes ++ data := by
  unfold packet at hf
  obtain ⟨b, hb, hf⟩ := bind_eq_ok_iff.1 hf
  obtain ⟨room, -, hspans⟩ := append_spans hb
  obtain ⟨hfits, hroom⟩ := hspans.of_pushHeader hf
  obtain ⟨f', hf', -, hspans'⟩ := hspans.pushHeader hfits hroom
  obtain rfl := Except.ok.inj (hf'.symm.trans hf)
  exact ⟨hfits, hspans'.used_eq⟩

/-- A packet that is ready to go: who sends it, to where, and by which interface. -/
theorem outbound_cases (hout : s.outbound h data dst = .ok o) :
    data.length ≤ payloadMax ∧ dst.port ≤ portMax ∧
    ∃ options, s.pool.options h = .ok options ∧
      ((dst.addr = s.addr ∧ ∃ packet, o = .loop packet ∧
          s.packet none (s.headerTo options dst data.length) data = .ok packet) ∨
        (dst.addr ≠ s.addr ∧ ∃ i frame, o = .link i.index frame options.sendTimeout ∧
          s.linkTo dst.addr = .ok i ∧ headerLen + data.length ≤ i.mtu.toNat ∧
          s.packet (some i) (s.headerTo options dst data.length) data = .ok frame)) := by
  unfold outbound at hout
  by_cases hlen : payloadMax < data.length
  · rw [if_pos hlen] at hout
    cases hout
  by_cases hport : portMax < dst.port
  · rw [if_neg hlen, if_pos hport] at hout
    cases hout
  rw [if_neg hlen, if_neg hport] at hout
  refine ⟨Nat.le_of_not_lt hlen, UInt8.not_lt.1 hport, ?_⟩
  obtain ⟨options, hoptions, hout⟩ := bind_eq_ok_iff.1 hout
  refine ⟨options, hoptions, ?_⟩
  dsimp only at hout
  by_cases hself : dst.addr = s.addr
  · rw [if_pos hself] at hout
    obtain ⟨packet, hp, hout⟩ := bind_eq_ok_iff.1 hout
    exact .inl ⟨hself, packet, (Except.ok.inj hout).symm, hp⟩
  · rw [if_neg hself] at hout
    obtain ⟨i, hi, hout⟩ := bind_eq_ok_iff.1 hout
    by_cases hmtu : i.mtu.toNat < headerLen + data.length
    · rw [if_pos hmtu] at hout
      cases hout
    · rw [if_neg hmtu] at hout
      obtain ⟨frame, hp, hout⟩ := bind_eq_ok_iff.1 hout
      exact .inr ⟨hself, i, frame, (Except.ok.inj hout).symm, hi, Nat.le_of_not_lt hmtu, hp⟩

/-- What goes on the way begins with the header of the connection that sends it, and ends
with the payload. -/
theorem used_of_outbound (hout : s.outbound h data dst = .ok o) {options : Options}
    (hoptions : s.pool.options h = .ok options) :
    (s.headerTo options dst data.length).validate = .ok () ∧
      o.frame.used = (s.headerTo options dst data.length).bytes ++ data := by
  obtain ⟨-, -, options', hoptions', ⟨-, packet, rfl, hp⟩ | ⟨-, i, frame, rfl, -, -, hp⟩⟩ :=
    outbound_cases hout
  · obtain rfl := Except.ok.inj (hoptions.symm.trans hoptions')
    exact used_of_packet hp
  · obtain rfl := Except.ok.inj (hoptions.symm.trans hoptions')
    exact used_of_packet hp

end Netstack.Stack
