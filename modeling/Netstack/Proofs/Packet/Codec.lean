import Netstack.Packet.Buffer

/-
Headers and their eight bytes are two forms of the same thing.

A word is two digits to the base 256, and a word that holds several fields is a number
whose digits are the fields, each to the base that its bits allow. Writing puts the digits
together and reading takes them apart, so all that is to be shown is that nothing is lost
in either direction: digits that are in range come back, and what is read from a word is in
range and makes up the word again.

For two bytes this is said by `word_of_wordBytes` and `wordBytes_word`, for the fields of
the last two words by the arithmetic in `decode_bytes` and `bytes_of_decode`; the first two
words are one field each.
-/

set_option autoImplicit false

namespace Netstack.Header

variable {h : Header} {bs : List UInt8}

/-! ## The two bytes of a word -/

theorem word_lt (high low : UInt8) : word high low < 65536 := by
  have hh := high.toNat_lt
  have hl := low.toNat_lt
  simp only [word]
  omega

/-- The bytes of a word are read as the word. -/
theorem word_of_wordBytes {w : Nat} (hw : w < 65536) :
    word (UInt8.ofNat (w / 256)) (UInt8.ofNat (w % 256)) = w := by
  have hhigh : w / 256 < 256 := by omega
  have hlow : w % 256 < 256 := by omega
  rw [word, UInt8.toNat_ofNat_of_lt' hhigh, UInt8.toNat_ofNat_of_lt' hlow]
  omega

/-- What was read as a word is written as the same two bytes. -/
theorem wordBytes_word (high low : UInt8) : wordBytes (word high low) = [high, low] := by
  have hh := high.toNat_lt
  have hl := low.toNat_lt
  have hdiv : word high low / 256 = high.toNat := by simp only [word]; omega
  have hmod : word high low % 256 = low.toNat := by simp only [word]; omega
  rw [wordBytes, hdiv, hmod, UInt8.ofNat_toNat, UInt8.ofNat_toNat]

/-! ## Reading what was written -/

/-- The bytes of a header whose fields fit are read as the header, whatever follows them. -/
theorem decode_bytes (hfits : h.validate = .ok ()) (rest : List UInt8) :
    decode (h.bytes ++ rest) = some (h, rest) := by
  obtain ⟨hlen, hproto, hfrag, hseq, hsrc, hdst⟩ := validate_eq_ok_iff.1 hfits
  obtain ⟨dstAddr, srcAddr, payloadLen, proto, frag, seqnum, srcPort, dstPort⟩ := h
  have hlen : payloadLen.toNat ≤ 1023 := hlen
  have hsrc : srcPort.toNat ≤ 31 := UInt8.le_iff_toNat_le.1 hsrc
  have hdst : dstPort.toNat ≤ 31 := UInt8.le_iff_toNat_le.1 hdst
  dsimp only at hproto hfrag hseq
  simp only [bytes, wordBytes, List.cons_append, List.nil_append, decode]
  rw [word_of_wordBytes dstAddr.toNat_lt, word_of_wordBytes srcAddr.toNat_lt,
    word_of_wordBytes (by omega), word_of_wordBytes (by omega)]
  -- each field is a digit of its word
  have hlenDigit : (payloadLen.toNat * 64 + proto.toNat) / 64 = payloadLen.toNat := by omega
  have hprotoDigit : (payloadLen.toNat * 64 + proto.toNat) % 64 = proto.toNat := by omega
  generalize hports :
    frag.toNat * 8192 + seqnum.toNat * 1024 + srcPort.toNat * 32 + dstPort.toNat = ports
  have hfragDigit : ports / 8192 = frag.toNat := by omega
  have hseqDigit : ports / 1024 % 8 = seqnum.toNat := by omega
  have hsrcDigit : ports / 32 % 32 = srcPort.toNat := by omega
  have hdstDigit : ports % 32 = dstPort.toNat := by omega
  rw [hlenDigit, hprotoDigit, hfragDigit, hseqDigit, hsrcDigit, hdstDigit]
  simp only [UInt16.ofNat_toNat, UInt8.ofNat_toNat]

/-! ## Writing what was read -/

/-- The parts of a byte string that has room for a header. -/
theorem exists_bytes_of_length_le (hlen : headerLen ≤ bs.length) :
    ∃ a b c d e f g i rest, bs = a :: b :: c :: d :: e :: f :: g :: i :: rest := by
  match bs, hlen with
  | a :: b :: c :: d :: e :: f :: g :: i :: rest, _ => exact ⟨a, b, c, d, e, f, g, i, rest, rfl⟩

/-- Eight bytes always make a header whose fields fit, and whose bytes they are. -/
theorem decode_of_length_le (hlen : headerLen ≤ bs.length) :
    ∃ h, decode bs = some (h, bs.drop headerLen) ∧ h.validate = .ok () ∧
      h.bytes = bs.take headerLen := by
  obtain ⟨a, b, c, d, e, f, g, i, rest, rfl⟩ := exists_bytes_of_length_le hlen
  have hlengths := word_lt e f
  have hports := word_lt g i
  -- the fields are below the weights that they are read with
  have hpayload : (UInt16.ofNat (word e f / 64)).toNat = word e f / 64 :=
    UInt16.toNat_ofNat_of_lt' (show word e f / 64 < 65536 by omega)
  have hproto : (UInt8.ofNat (word e f % 64)).toNat = word e f % 64 :=
    UInt8.toNat_ofNat_of_lt' (show word e f % 64 < 256 by omega)
  have hfrag : (UInt8.ofNat (word g i / 8192)).toNat = word g i / 8192 :=
    UInt8.toNat_ofNat_of_lt' (show word g i / 8192 < 256 by omega)
  have hseq : (UInt8.ofNat (word g i / 1024 % 8)).toNat = word g i / 1024 % 8 :=
    UInt8.toNat_ofNat_of_lt' (show word g i / 1024 % 8 < 256 by omega)
  have hsrc : (UInt8.ofNat (word g i / 32 % 32)).toNat = word g i / 32 % 32 :=
    UInt8.toNat_ofNat_of_lt' (show word g i / 32 % 32 < 256 by omega)
  have hdst : (UInt8.ofNat (word g i % 32)).toNat = word g i % 32 :=
    UInt8.toNat_ofNat_of_lt' (show word g i % 32 < 256 by omega)
  refine ⟨_, rfl, ?_, ?_⟩
  · rw [validate_eq_ok_iff, UInt8.le_iff_toNat_le, UInt8.le_iff_toNat_le, hpayload, hproto, hfrag,
      hseq, hsrc, hdst, show portMax.toNat = 31 from rfl, payloadMax]
    omega
  · have haddr (x y : UInt8) : (UInt16.ofNat (word x y)).toNat = word x y :=
      UInt16.toNat_ofNat_of_lt' (word_lt x y)
    -- the digits make up the words again
    have hword2 : word e f / 64 * 64 + word e f % 64 = word e f := by omega
    have hword3 : word g i / 8192 * 8192 + word g i / 1024 % 8 * 1024 + word g i / 32 % 32 * 32 +
        word g i % 32 = word g i := by omega
    simp only [bytes, haddr, hpayload, hproto, hfrag, hseq, hsrc, hdst, hword2, hword3,
      wordBytes_word]
    rfl

/-! ## Encoding into a destination -/

/-- A header is encoded exactly if there is room for it and its fields fit. -/
theorem encode_eq_ok_iff {room : Nat} :
    h.encode room = .ok bs ↔ h.validate = .ok () ∧ headerLen ≤ room ∧ bs = h.bytes := by
  unfold encode
  cases hv : h.validate with
  | error e => simp [bind, Except.bind]
  | ok u =>
    by_cases hroom : headerLen ≤ room
    · simp [bind, Except.bind, pure, Except.pure, hroom, Nat.not_lt_of_le hroom, eq_comm]
    · have hshort : room < headerLen := by omega
      simp [bind, Except.bind, throw, throwThe, MonadExceptOf.throw, hroom, hshort]

theorem toBytes_eq_ok_iff : h.toBytes = .ok bs ↔ h.validate = .ok () ∧ bs = h.bytes := by
  unfold toBytes
  cases hv : h.validate with
  | error e => simp [bind, Except.bind]
  | ok u => simp [bind, Except.bind, pure, Except.pure, eq_comm]

/-- A destination after an attempt to encode a header at its front. -/
def written (h : Header) (destination : List UInt8) : List UInt8 :=
  overwrite destination 0 ((h.encode destination.length).toOption.getD [])

theorem written_of_ok {destination : List UInt8} (hok : h.encode destination.length = .ok bs) :
    h.written destination = bs ++ destination.drop headerLen := by
  obtain ⟨-, hroom, rfl⟩ := encode_eq_ok_iff.1 hok
  have hfits : h.bytes.length ≤ destination.length := by
    rw [length_bytes]
    exact hroom
  rw [written, hok, ← length_bytes h]
  exact overwrite_front hfits

/-- An attempt that fails writes nothing. -/
theorem written_of_error {destination : List UInt8} {e : Error}
    (herror : h.encode destination.length = .error e) : h.written destination = destination := by
  rw [written, herror, overwrite]
  simp [Except.toOption]

/-! ## The codec -/

/-- What is left of a byte string after an attempt to read a header from its front. -/
def unread (bs : List UInt8) : List UInt8 := ((decode bs).map (·.2)).getD bs

/-- Headers whose fields fit, and strings of eight bytes, are the same thing in two forms.
Exactly those headers are encoded where there is room, as eight bytes that are read as the
header; every eight bytes are those of the header that is read from them. Encoding that
fails writes nothing, and reading that fails takes nothing. -/
theorem codec_bijective :
    (∀ (h : Header) (destination : List UInt8),
      ((h.encode destination.length).isOk = true ↔
        headerLen ≤ destination.length ∧ h.payloadLen.toNat ≤ 1023 ∧ h.proto.toNat ≤ 63 ∧
          h.frag.toNat ≤ 7 ∧ h.seqnum.toNat ≤ 7 ∧ h.srcPort.toNat ≤ 31 ∧ h.dstPort.toNat ≤ 31) ∧
      (∀ bs, h.encode destination.length = .ok bs →
        bs.length = 8 ∧ h.written destination = bs ++ destination.drop 8 ∧
          ∀ rest, decode (bs ++ rest) = some (h, rest) ∧ unread (bs ++ rest) = rest) ∧
      (∀ e, h.encode destination.length = .error e → h.written destination = destination)) ∧
    (∀ bs : List UInt8, 8 ≤ bs.length →
      ∃ h, decode bs = some (h, bs.drop 8) ∧ h.validate = .ok () ∧ h.toBytes = .ok (bs.take 8)) ∧
    (∀ bs : List UInt8, bs.length < 8 → decode bs = none ∧ unread bs = bs) := by
  refine ⟨fun h destination => ⟨?_, ?_, fun e => written_of_error⟩, ?_, ?_⟩
  · have hports : (h.srcPort ≤ portMax ↔ h.srcPort.toNat ≤ 31) ∧
        (h.dstPort ≤ portMax ↔ h.dstPort.toNat ≤ 31) :=
      ⟨UInt8.le_iff_toNat_le, UInt8.le_iff_toNat_le⟩
    rw [← hports.1, ← hports.2, ← show payloadMax = 1023 from rfl, ← validate_eq_ok_iff]
    constructor
    · intro hok
      cases he : h.encode destination.length with
      | error e =>
        rw [he] at hok
        cases hok
      | ok bs =>
        obtain ⟨hv, hroom, -⟩ := encode_eq_ok_iff.1 he
        exact ⟨hroom, hv⟩
    · rintro ⟨hroom, hv⟩
      rw [encode_eq_ok_iff.2 ⟨hv, hroom, rfl⟩]
      rfl
  · intro bs hok
    obtain ⟨hv, -, rfl⟩ := encode_eq_ok_iff.1 hok
    refine ⟨length_bytes h, written_of_ok hok, fun rest => ⟨decode_bytes hv rest, ?_⟩⟩
    rw [unread, decode_bytes hv rest]
    rfl
  · intro bs hlen
    obtain ⟨h, hread, hv, hbytes⟩ := decode_of_length_le hlen
    exact ⟨h, hread, hv, toBytes_eq_ok_iff.2 ⟨hv, hbytes.symm⟩⟩
  · intro bs hshort
    have hnone := decode_eq_none_iff.2 hshort
    refine ⟨hnone, ?_⟩
    rw [unread, hnone]
    rfl

/-- Eight bytes with every field of the last two words in use are read, and written again in
front of what was there. -/
theorem codec_bijective_full_words :
    ∃ h, decode [0xAE, 0x55, 0x12, 0x34, 0xFF, 0xC5, 0xEB, 0xE1] = some (h, []) ∧
      h = { dstAddr := 0xAE55, srcAddr := 0x1234, payloadLen := 1023, proto := 5, frag := 7,
            seqnum := 2, srcPort := 31, dstPort := 1 } ∧
      h.written [0, 0, 0, 0, 0, 0, 0, 0, 9] =
        [0xAE, 0x55, 0x12, 0x34, 0xFF, 0xC5, 0xEB, 0xE1, 9] := by
  obtain ⟨hencode, hdecode, -⟩ := codec_bijective
  obtain ⟨h, hread, -, -⟩ :=
    hdecode [0xAE, 0x55, 0x12, 0x34, 0xFF, 0xC5, 0xEB, 0xE1] (by decide)
  have hvalue : decode [0xAE, 0x55, 0x12, 0x34, 0xFF, 0xC5, 0xEB, 0xE1] =
      some ({ dstAddr := 0xAE55, srcAddr := 0x1234, payloadLen := 1023, proto := 5, frag := 7,
              seqnum := 2, srcPort := 31, dstPort := 1 }, []) := by decide
  obtain rfl : _ = h := congrArg Prod.fst (Option.some.inj (hvalue.symm.trans hread))
  obtain ⟨-, hok, -⟩ :=
    hencode { dstAddr := 0xAE55, srcAddr := 0x1234, payloadLen := 1023, proto := 5, frag := 7,
              seqnum := 2, srcPort := 31, dstPort := 1 } [0, 0, 0, 0, 0, 0, 0, 0, 9]
  exact ⟨_, hread, rfl, (hok [0xAE, 0x55, 0x12, 0x34, 0xFF, 0xC5, 0xEB, 0xE1] rfl).2.1⟩

end Netstack.Header
