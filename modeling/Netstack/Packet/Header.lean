import Netstack.Packet.Address

/-
The header of a packet: eight bytes, four sixteen-bit words with the most
significant byte first.

    word 0   destination address
    word 1   source address
    word 2   payload length (10 bits), protocol (6)
    word 3   fragment (3 bits), sequence number (3), source port (5),
             destination port (5)

A word that holds several fields is the sum of the fields, each multiplied by its
weight. Encoding refuses a field that does not fit its bits; nothing else can
fail, and decoding eight bytes always gives a header whose fields fit.
-/

set_option autoImplicit false

namespace Netstack

/-- The length of an encoded header in bytes. -/
def headerLen : Nat := 8

/-- The longest payload that a header can announce. -/
def payloadMax : Nat := 1023

structure Header where
  dstAddr : Address := 0
  srcAddr : Address := 0
  /-- the number of payload bytes behind the header -/
  payloadLen : UInt16 := 0
  proto : UInt8 := 0
  frag : UInt8 := 0
  seqnum : UInt8 := 0
  srcPort : UInt8 := 0
  dstPort : UInt8 := 0
  deriving DecidableEq, Repr, Inhabited

namespace Header

/-- Refuse a field value above `max`. -/
def checkField (field : String) (value max : Nat) : Except Error Unit :=
  if value ≤ max then .ok () else .error (.invalidArgument (.fieldExceeds field value max))

/-- Refuse a port number that a header cannot carry. -/
def checkPort (port : UInt8) : Except Error Unit :=
  if port ≤ portMax then .ok () else .error (.portInvalid port)

/-- Whether every field fits its bits; the first one that does not is reported. -/
def validate (h : Header) : Except Error Unit := do
  checkField "plen" h.payloadLen.toNat payloadMax
  checkField "proto" h.proto.toNat 63
  checkField "frag" h.frag.toNat 7
  checkField "seqnum" h.seqnum.toNat 7
  checkPort h.srcPort
  checkPort h.dstPort

/-! ## When a header fits -/

theorem checkField_eq_ok_iff {field : String} {value max : Nat} :
    checkField field value max = .ok () ↔ value ≤ max := by
  unfold checkField; split <;> simp [*]

theorem checkPort_eq_ok_iff {port : UInt8} : checkPort port = .ok () ↔ port ≤ portMax := by
  unfold checkPort; split <;> simp [*]

private theorem andThen_eq_ok_iff {x y : Except Error Unit} :
    (x >>= fun _ => y) = .ok () ↔ x = .ok () ∧ y = .ok () := by
  cases x with
  | error e => simp [bind, Except.bind]
  | ok u => simp [bind, Except.bind]

theorem validate_eq_ok_iff {h : Header} :
    h.validate = .ok () ↔
      h.payloadLen.toNat ≤ payloadMax ∧ h.proto.toNat ≤ 63 ∧ h.frag.toNat ≤ 7 ∧
        h.seqnum.toNat ≤ 7 ∧ h.srcPort ≤ portMax ∧ h.dstPort ≤ portMax := by
  simp only [validate, andThen_eq_ok_iff, checkField_eq_ok_iff, checkPort_eq_ok_iff]

/-! ## Writing -/

/-- The two bytes of a word. -/
def wordBytes (w : Nat) : List UInt8 :=
  [UInt8.ofNat (w / 256), UInt8.ofNat (w % 256)]

/-- The eight bytes of a header whose fields fit their bits. -/
def bytes (h : Header) : List UInt8 :=
  wordBytes h.dstAddr.toNat ++ wordBytes h.srcAddr.toNat ++
  wordBytes (h.payloadLen.toNat * 64 + h.proto.toNat) ++
  wordBytes (h.frag.toNat * 8192 + h.seqnum.toNat * 1024 + h.srcPort.toNat * 32 + h.dstPort.toNat)

theorem length_bytes (h : Header) : h.bytes.length = headerLen := by
  simp [bytes, wordBytes, headerLen]

/-- The encoded header. -/
def toBytes (h : Header) : Except Error (List UInt8) := do
  h.validate
  return h.bytes

/-- Encode into a destination with `room` bytes left: the bytes written there. A
failure writes nothing. -/
def encode (h : Header) (room : Nat) : Except Error (List UInt8) := do
  h.validate
  if room < headerLen then throw (.invalidArgument .shortDestination)
  return h.bytes

/-! ## Reading -/

/-- The word made of two bytes. -/
def word (high low : UInt8) : Nat :=
  high.toNat * 256 + low.toNat

/-- The header at the front of `bytes` and what follows it; nothing if there are
fewer than eight bytes. -/
def decode : List UInt8 → Option (Header × List UInt8)
  | a :: b :: c :: d :: e :: f :: g :: i :: rest =>
    let lengths := word e f
    let ports := word g i
    some
      ({ dstAddr := UInt16.ofNat (word a b)
         srcAddr := UInt16.ofNat (word c d)
         payloadLen := UInt16.ofNat (lengths / 64)
         proto := UInt8.ofNat (lengths % 64)
         frag := UInt8.ofNat (ports / 8192)
         seqnum := UInt8.ofNat (ports / 1024 % 8)
         srcPort := UInt8.ofNat (ports / 32 % 32)
         dstPort := UInt8.ofNat (ports % 32) }, rest)
  | _ => none

theorem decode_eq_none_iff {bs : List UInt8} : decode bs = none ↔ bs.length < headerLen := by
  unfold decode headerLen
  split
  · simp
  · next hne =>
    simp only [true_iff]
    apply Nat.lt_of_not_le
    intro hle
    match bs, hle, hne with
    | a :: b :: c :: d :: e :: f :: g :: i :: rest, _, hne => exact hne _ _ _ _ _ _ _ _ _ rfl

end Header

end Netstack
