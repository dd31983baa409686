import Netstack.Proofs.Packet.Codec

/-
What is in a buffer.

The storage of a buffer is three spans, one behind the other: the room in front, the used
span and the room behind it (`Spans`). Every operation moves the two borders and writes on
one side of them, so each has one lemma that says what the three spans are afterwards, and
no other property of the storage is needed. A packet is a buffer whose used span is the
bytes of a header and a payload; what else is in the storage does not matter to anybody.
-/

set_option autoImplicit false

namespace Netstack

/-- What is laid over a middle part of the same length takes its place. -/
theorem overwrite_middle {front old back new : List UInt8} (h : new.length = old.length) :
    overwrite (front ++ (old ++ back)) front.length new = front ++ (new ++ back) := by
  rw [overwrite, List.take_left, List.length_append, Nat.add_sub_cancel_left,
    List.take_of_length_le (by rw [List.length_append]; omega), List.append_assoc, h,
    ← List.drop_drop, List.drop_left, List.drop_left]

namespace Buffer

variable {b b' : Buffer} {front used back bytes data : List UInt8} {h : Header}

/-- The storage of a buffer is the room in front, the used span and the room behind. -/
structure Spans (b : Buffer) (front used back : List UInt8) : Prop where
  storage : b.storage = front ++ (used ++ back)
  data : b.data = front.length
  tail : b.tail = front.length + used.length

theorem Spans.length_eq (hb : b.Spans front used back) : b.length = used.length := by
  rw [Buffer.length, hb.data, hb.tail, Nat.add_sub_cancel_left]

theorem Spans.used_eq (hb : b.Spans front used back) : b.used = used := by
  rw [Buffer.used, region, hb.length_eq, hb.storage, hb.data, List.drop_left, List.take_left]

theorem Spans.headroom_eq (hb : b.Spans front used back) : b.headroom = front.length := hb.data

theorem Spans.tailroom_eq (hb : b.Spans front used back) : b.tailroom = back.length := by
  rw [tailroom, hb.storage, hb.tail, List.length_append, List.length_append]
  omega

theorem Spans.setInterface (hb : b.Spans front used back) (iface : Option Nat) :
    (b.setInterface iface).Spans front used back := ⟨hb.storage, hb.data, hb.tail⟩

/-- Bytes of the used span are written where they belong, as many as there were. -/
theorem Spans.write {before old after : List UInt8}
    (hb : b.Spans front (before ++ (old ++ after)) back) (hlen : bytes.length = old.length) :
    (b.write before.length bytes).Spans front (before ++ (bytes ++ after)) back := by
  have hlength := hb.length_eq
  simp only [List.length_append] at hlength
  have hfits : bytes.take (b.length - before.length) = bytes := by
    rw [List.take_of_length_le]
    omega
  refine ⟨?_, hb.data, ?_⟩
  · show overwrite b.storage (b.data + before.length)
      (bytes.take (b.length - before.length)) = _
    rw [hfits, hb.storage, hb.data, ← List.length_append]
    have hmiddle : overwrite ((front ++ before) ++ (old ++ (after ++ back)))
        (front ++ before).length bytes = (front ++ before) ++ (bytes ++ (after ++ back)) :=
      overwrite_middle hlen
    simp only [List.append_assoc] at hmiddle ⊢
    exact hmiddle
  · show b.tail = _
    rw [hb.tail]
    simp only [List.length_append, hlen]

/-! ## What the operations do to the spans -/

/-- A buffer is made exactly if its size can be allocated. -/
theorem new_eq_ok_iff {headroom payload : Nat} :
    new headroom payload = .ok b ↔
      headroom + payload < Memory.limit ∧
        b = { iface := none, storage := List.replicate (headroom + payload) 0, data := headroom
              tail := headroom } := by
  unfold new Memory.sized Memory.reserve
  by_cases hlimit : headroom + payload < Memory.limit
  · have hword : headroom + payload < Memory.wordEnd := Nat.lt_trans hlimit (by decide)
    simp [hlimit, hword, bind, Except.bind, pure, Except.pure, eq_comm]
  · split <;> simp [hlimit, bind, Except.bind]

/-- A new buffer has the room that was asked for, and nothing in it. -/
theorem spans_new {headroom payload : Nat} (hnew : new headroom payload = .ok b) :
    b.Spans (List.replicate headroom 0) [] (List.replicate payload 0) := by
  obtain ⟨-, rfl⟩ := new_eq_ok_iff.1 hnew
  refine ⟨?_, List.length_replicate.symm, List.length_replicate.symm⟩
  rw [List.nil_append, List.replicate_append_replicate]

/-- Bytes of the room behind are appended to the used span. -/
theorem Spans.put {n : Nat} (hb : b.Spans front used back) (hn : n ≤ back.length) :
    ∃ b', b.put n = some (back.take n, b') ∧ b'.iface = b.iface ∧
      b'.Spans front (used ++ back.take n) (back.drop n) := by
  have hregion : b.region b.tail n = back.take n := by
    rw [region, hb.storage, hb.tail, ← List.append_assoc, ← List.length_append, List.drop_left]
  refine ⟨{ b with tail := b.tail + n }, ?_, rfl, ?_, hb.data, ?_⟩
  · rw [Buffer.put, if_pos (by rw [hb.tailroom_eq]; exact hn), hregion]
  · rw [List.append_assoc, List.take_append_drop]
    exact hb.storage
  · show b.tail + n = _
    rw [hb.tail, List.length_append, List.length_take, Nat.min_eq_left hn, Nat.add_assoc]

/-- Bytes of the room in front are prepended to the used span. -/
theorem Spans.push {n : Nat} (hb : b.Spans front used back) (hn : n ≤ front.length) :
    ∃ b', b.push n = some (front.drop (front.length - n), b') ∧ b'.iface = b.iface ∧
      b'.Spans (front.take (front.length - n)) (front.drop (front.length - n) ++ used) back := by
  have htake : (front.take (front.length - n)).length = front.length - n := by
    rw [List.length_take]
    omega
  have hregion : b.region (b.data - n) n = front.drop (front.length - n) := by
    rw [region, hb.storage, hb.data, List.drop_append_of_le_length (Nat.sub_le _ _),
      List.take_append_of_le_length (by rw [List.length_drop]; omega),
      List.take_of_length_le (by rw [List.length_drop]; omega)]
  refine ⟨{ b with data := b.data - n }, ?_, rfl, ?_, ?_, ?_⟩
  · rw [Buffer.push, if_pos (by rw [hb.headroom_eq]; exact hn), hregion]
  · rw [List.append_assoc, ← List.append_assoc (List.take _ _), List.take_append_drop]
    exact hb.storage
  · show b.data - n = _
    rw [hb.data, htake]
  · show b.tail = _
    rw [hb.tail, List.length_append, htake, List.length_drop]
    omega

/-- Bytes that fit are appended behind the used span. -/
theorem Spans.append (hb : b.Spans front used back) (hfits : bytes.length ≤ back.length) :
    (b.append bytes).Spans front (used ++ bytes) (back.drop bytes.length) := by
  have htake : (back.take bytes.length).length = bytes.length := by
    rw [List.length_take]
    omega
  -- the border moves first, and then the bytes are written in front of it
  obtain ⟨b', hput, -, hb'⟩ := hb.put hfits
  rw [← List.append_nil (back.take bytes.length)] at hb'
  have hwrite := hb'.write htake.symm
  rw [List.append_nil] at hwrite
  rw [Buffer.append, hput, hb.length_eq]
  exact hwrite

/-- A header whose fields fit is put in front, if there is room for it. -/
theorem Spans.pushHeader (hb : b.Spans front used back) (hfits : h.validate = .ok ())
    (hroom : headerLen ≤ front.length) :
    ∃ f, b.pushHeader h = .ok f ∧ f.iface = b.iface ∧
      f.Spans (front.take (front.length - headerLen)) (h.bytes ++ used) back := by
  have hdrop : h.bytes.length = (front.drop (front.length - headerLen)).length := by
    rw [Header.length_bytes, List.length_drop]
    omega
  obtain ⟨b', hpush, hiface, hb'⟩ := hb.push hroom
  rw [← List.nil_append (front.drop _ ++ used)] at hb'
  refine ⟨b'.write 0 h.bytes, ?_, hiface, hb'.write hdrop⟩
  refine bind_eq_ok_iff.2 ⟨h.bytes, Header.toBytes_eq_ok_iff.2 ⟨hfits, rfl⟩, ?_⟩
  rw [hpush]
  rfl

/-- A header is only put in front if its fields fit and there is room. -/
theorem Spans.of_pushHeader (hb : b.Spans front used back) (hok : b.pushHeader h = .ok b') :
    h.validate = .ok () ∧ headerLen ≤ front.length := by
  unfold Buffer.pushHeader at hok
  obtain ⟨bytes, hbytes, hok⟩ := bind_eq_ok_iff.1 hok
  refine ⟨(Header.toBytes_eq_ok_iff.1 hbytes).1, ?_⟩
  unfold Buffer.push at hok
  by_cases hroom : headerLen ≤ b.headroom
  · rw [hb.headroom_eq] at hroom
    exact hroom
  · rw [if_neg hroom] at hok
    cases hok

/-- Where a header was put in front, there it is. -/
theorem Spans.pushed (hb : b.Spans front used back) (hok : b.pushHeader h = .ok b') :
    b'.Spans (front.take (front.length - headerLen)) (h.bytes ++ used) back := by
  obtain ⟨hfits, hroom⟩ := hb.of_pushHeader hok
  obtain ⟨f, hf, -, hspans⟩ := hb.pushHeader hfits hroom
  obtain rfl : f = b' := Except.ok.inj (hf.symm.trans hok)
  exact hspans

/-- The buffer of a byte string holds it, with the room in front that was asked for. -/
theorem spans_ofBytes {headroom : Nat} (hof : ofBytes headroom bytes = .ok b) :
    b.Spans (List.replicate headroom 0) bytes [] := by
  unfold ofBytes at hof
  obtain ⟨b₀, hnew, hof⟩ := bind_eq_ok_iff.1 hof
  obtain rfl := Except.ok.inj hof
  have hlen : (List.replicate bytes.length (0 : UInt8)).length = bytes.length :=
    List.length_replicate
  have happend := (spans_new hnew).append (Nat.le_of_eq hlen.symm)
  rw [List.nil_append, List.drop_of_length_le (Nat.le_of_eq hlen)] at happend
  exact happend

/-! ## Packets -/

/-- The header at the front of a used span is the one whose bytes are there. -/
theorem parseHeader_of_used (hfits : h.validate = .ok ()) (hused : b.used = h.bytes ++ data) :
    b.parseHeader = some h := by
  rw [parseHeader, hused, Header.decode_bytes hfits]
  rfl

/-- What is consumed from the front is missing there afterwards. -/
theorem used_pull (b : Buffer) (n : Nat) : (b.pull n).2.used = b.used.drop n := by
  have hlen : (b.used.drop n) = b.used.drop (min n b.length) := by
    by_cases h : n ≤ b.length
    · rw [Nat.min_eq_left h]
    · have hused : b.used.length ≤ b.length := List.length_take_le _ _
      rw [List.drop_of_length_le (by omega), List.drop_of_length_le (by omega)]
  rw [hlen]
  show (b.storage.drop (b.data + min n b.length)).take (b.tail - (b.data + min n b.length)) =
    ((b.storage.drop b.data).take (b.tail - b.data)).drop (min n b.length)
  rw [List.drop_take, List.drop_drop, Nat.sub_add_eq]

/-- A header is taken off the front, and what is left is what was behind it. -/
theorem pullHeader_of_used (hfits : h.validate = .ok ()) (hused : b.used = h.bytes ++ data) :
    ∃ rest, b.pullHeader = some (h, rest) ∧ rest.used = data := by
  refine ⟨(b.pull headerLen).2, ?_, ?_⟩
  · rw [Buffer.pullHeader, parseHeader_of_used hfits hused]
    rfl
  · rw [used_pull, hused, ← Header.length_bytes h, List.drop_left]

end Buffer

end Netstack
