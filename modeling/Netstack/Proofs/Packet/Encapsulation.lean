import Netstack.Proofs.Packet.Arena

/-
To put a header in front of a packet and to take it off again undo each other.

One direction is the codec: what was written in front is the header, so it is read as the header,
and the span behind it was not touched. The other is the arena: a header that was taken off still
lies in front of the span, eight bytes always make a header that can be encoded, and the bytes
of that header are those that lie there. So the buffer that a packet came in can be passed on
after its header was looked at and put back, and nobody can tell the difference.
-/

set_option autoImplicit false

namespace Netstack.Buffer

variable {b b' : Buffer} {front used back : List UInt8} {h : Header} {e : Error}

/-! ## When a header is put in front -/

/-- A header that does not fit its bits is refused before anybody looks at the room. -/
theorem pushHeader_of_invalid (b : Buffer) (hbad : h.validate = .error e) :
    b.pushHeader h = .error e := by
  unfold pushHeader Header.toBytes
  rw [hbad]
  rfl

/-- A header is put in front exactly if its fields fit and there is room for it. -/
theorem Spans.pushHeader_isOk_iff (hb : b.Spans front used back) :
    (b.pushHeader h).isOk = true ↔ h.validate = .ok () ∧ headerLen ≤ b.headroom := by
  rw [hb.headroom_eq]
  constructor
  · intro hok
    cases hpush : b.pushHeader h with
    | error e =>
      rw [hpush] at hok
      cases hok
    | ok b' => exact hb.of_pushHeader hpush
  · rintro ⟨hfits, hroom⟩
    obtain ⟨b', hpush, -⟩ := hb.pushHeader hfits hroom
    rw [hpush]
    rfl

/-- Of two things that can be wrong, the one that is reported. -/
theorem eq_of_pushHeader_eq_error (hpush : b.pushHeader h = .error e) :
    h.validate = .error e ∨
      h.validate = .ok () ∧ b.headroom < headerLen ∧ e = .invalidArgument .shortHeadroom := by
  cases hfits : h.validate with
  | error e' =>
    rw [pushHeader_of_invalid b hfits] at hpush
    exact .inl (congrArg Except.error (Except.error.inj hpush))
  | ok u =>
    unfold pushHeader Header.toBytes at hpush
    rw [hfits] at hpush
    cases hpushed : b.push headerLen with
    | none =>
      rw [hpushed] at hpush
      exact .inr ⟨rfl, push_eq_none_iff.1 hpushed, (Except.error.inj hpush).symm⟩
    | some handed =>
      rw [hpushed] at hpush
      cases hpush

/-! ## Off again -/

/-- The header that was put in front is taken off, and the room is as large as before. -/
theorem Spans.pullHeader_pushHeader (hb : b.Spans front used back)
    (hpush : b.pushHeader h = .ok b') :
    ∃ b'', b'.pullHeader = some (h, b'') ∧ b''.Shows b.headroom b.used b.tailroom := by
  obtain ⟨hfits, hroom⟩ := hb.of_pushHeader hpush
  have hspans := hb.pushed hpush
  have hshows := (hspans.pull headerLen).shows
  rw [← Header.length_bytes h, List.take_left, List.drop_left, List.length_append,
    List.length_take, Header.length_bytes, Nat.min_eq_left (Nat.sub_le _ _),
    Nat.sub_add_cancel hroom, ← hb.headroom_eq, ← hb.used_eq, ← hb.tailroom_eq] at hshows
  refine ⟨(b'.pull headerLen).2, ?_, hshows⟩
  rw [Buffer.pullHeader, parseHeader_of_used hfits hspans.used_eq]
  rfl

/-! ## Back in front -/

/-- Buffers with the same spans are the same, if they are of the same interface. -/
theorem Spans.eq_of_iface_eq (hb : b.Spans front used back) (hb' : b'.Spans front used back)
    (hiface : b'.iface = b.iface) : b' = b := by
  obtain ⟨iface, storage, data, tail⟩ := b
  obtain ⟨iface', storage', data', tail'⟩ := b'
  obtain rfl : iface' = iface := hiface
  obtain rfl : storage' = storage := hb'.storage.trans hb.storage.symm
  obtain rfl : data' = data := hb'.data.trans hb.data.symm
  obtain rfl : tail' = tail := hb'.tail.trans hb.tail.symm
  rfl

/-- Writing what is there changes nothing. -/
theorem Spans.write_used (hb : b.Spans front used back) (n : Nat) :
    b.write 0 (used.take n) = b := by
  have hspans := hb.overwrite 0 (used.take n)
  have hrest : used.drop (used.take n).length = used.drop n := by
    rw [List.length_take]
    by_cases hn : n ≤ used.length
    · rw [Nat.min_eq_left hn]
    · rw [List.drop_of_length_le (by omega), List.drop_of_length_le (by omega)]
  rw [overwrite_front (List.length_take_le' _ _), hrest, List.take_append_drop] at hspans
  exact hb.eq_of_iface_eq hspans rfl

/-- What holds enough bytes begins with a header. After it was taken off it is put back where it
lay. -/
theorem Spans.pushHeader_pullHeader (hb : b.Spans front used back)
    (hlen : headerLen ≤ b.length) :
    ∃ g b', b.parseHeader = some g ∧ b.pullHeader = some (g, b') ∧ b'.pushHeader g = .ok b := by
  have hused : headerLen ≤ b.used.length := by
    rw [hb.used_eq, ← hb.length_eq]
    exact hlen
  obtain ⟨g, hread, hfits, hbytes⟩ := Header.decode_of_length_le hused
  have hparse : b.parseHeader = some g := by
    rw [parseHeader, hread]
    rfl
  refine ⟨g, (b.pull headerLen).2, hparse, ?_, ?_⟩
  · rw [Buffer.pullHeader, hparse]
    rfl
  · have hcount : (b.pull headerLen).1 = headerLen := Nat.min_eq_left hlen
    have hback := b.push_pull headerLen
    rw [hcount] at hback
    refine bind_eq_ok_iff.2 ⟨g.bytes, Header.toBytes_eq_ok_iff.2 ⟨hfits, rfl⟩, ?_⟩
    rw [hback, hbytes, hb.used_eq]
    exact congrArg Except.ok (hb.write_used headerLen)

theorem Reachable.spans (hb : b.Reachable) :
    b.Spans b.before b.used (List.replicate b.tailroom 0) := by
  obtain ⟨headroom, payload, b₀, hnew, uses, rfl⟩ := hb
  exact ((inArena_new hnew).useAll uses).spans

/-- However a buffer was made and used, a header is put in front of it exactly if its fields fit
their bits and there is room for eight bytes; if not, the first of the two is reported that is
amiss, and the buffer stays as it is. A header that was put in front is read and taken off, and the
room and the span are as before. If there are eight bytes, a header is read and taken off, and it
can be put back, after which every byte of the buffer is what it was; if there are fewer,
nothing is read and nothing changes. -/
theorem headers_invert (hb : b.Reachable) (h : Header) :
    ((b.pushHeader h).isOk = true ↔ h.validate = .ok () ∧ 8 ≤ b.headroom) ∧
    (∀ e, b.pushHeader h = .error e → b.use (.pushHeader h) = b ∧
      (h.validate = .error e ∨
        h.validate = .ok () ∧ b.headroom < 8 ∧ e = .invalidArgument .shortHeadroom)) ∧
    (∀ b', b.pushHeader h = .ok b' → b'.parseHeader = some h ∧
      ∃ b'', b'.pullHeader = some (h, b'') ∧ b''.Shows b.headroom b.used b.tailroom) ∧
    (8 ≤ b.length → ∃ g b', b.parseHeader = some g ∧ b.pullHeader = some (g, b') ∧
      b'.pushHeader g = .ok b) ∧
    (b.length < 8 → b.parseHeader = none ∧ b.pullHeader = none ∧ b.use .pullHeader = b) := by
  have hspans := hb.spans
  refine ⟨hspans.pushHeader_isOk_iff, fun e he => ⟨?_, eq_of_pushHeader_eq_error he⟩,
    fun b' hok => ?_, hspans.pushHeader_pullHeader, fun hshort => ?_⟩
  · rw [use, he]
  · have hfits := (hspans.of_pushHeader hok).1
    exact ⟨parseHeader_of_used hfits (hspans.pushed hok).used_eq,
      hspans.pullHeader_pushHeader hok⟩
  · have hparse : b.parseHeader = none := by
      rw [parseHeader, Header.decode_eq_none_iff.2 (hspans.length_eq ▸ hshort)]
      rfl
    have hpull : b.pullHeader = none := by
      rw [pullHeader, hparse]
      rfl
    refine ⟨hparse, hpull, ?_⟩
    rw [use, hpull]

/-- A packet is taken apart, its payload is changed, and its header is put back. -/
theorem headers_invert_of_reply :
    ∃ b₀, ofBytes 0 [0xAE, 0x55, 0x12, 0x34, 0, 0x80, 0, 0x64, 7, 7] = .ok b₀ ∧
      let b := b₀.useAll [.pullHeader, .write 0 [9]]
      let h : Header :=
        { dstAddr := 0xAE55, srcAddr := 0x1234, payloadLen := 2, srcPort := 3, dstPort := 4 }
      b.Reachable ∧ b.used = [9, 7] ∧ b.parseHeader = none ∧
        ∃ b', b.pushHeader h = .ok b' ∧
          b'.used = [0xAE, 0x55, 0x12, 0x34, 0, 0x80, 0, 0x64, 9, 7] ∧
          ∃ b'', b'.pullHeader = some (h, b'') ∧ b''.used = [9, 7] := by
  have hof : ofBytes 0 [0xAE, 0x55, 0x12, 0x34, 0, 0x80, 0, 0x64, 7, 7] = .ok _ := rfl
  refine ⟨_, hof, ?_⟩
  intro b h
  obtain ⟨headroom, payload, b₀, hnew, uses, hb₀⟩ := reachable_ofBytes hof
  have hb : b.Reachable := by
    refine ⟨headroom, payload, b₀, hnew, uses ++ [.pullHeader, .write 0 [9]], ?_⟩
    rw [useAll, List.foldl_append]
    exact congrArg (useAll · [.pullHeader, .write 0 [9]]) hb₀
  obtain ⟨-, -, hpushed, -, hshort⟩ := headers_invert hb h
  have hused : b.used = [9, 7] := by decide
  have hpush : b.pushHeader h = .ok _ := rfl
  obtain ⟨-, b'', hpull, hshows⟩ := hpushed _ hpush
  exact ⟨hb, hused, (hshort (by decide)).1, _, hpush, by decide, b'', hpull,
    hshows.used.trans hused⟩

end Netstack.Buffer
