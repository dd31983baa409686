import Netstack.Proofs.Packet.Frames

/-
A buffer is a span that moves in an arena of a fixed size.

Who uses a buffer moves the two ends of its span and writes between them. No use moves the end
of the span to the front, and none writes behind it, so whatever was done to a buffer before,
the room behind its span is as blank as on the first day (`InArena`), and this is why bytes that
are appended are zero. The room in front is another matter: what was consumed still lies there,
so that the same bytes come back with the room.

What a use does is said once in terms of the three spans of the storage (`Spans.put` to
`Spans.pull`). The invariant, and what each operation gives in a state in which it holds, are
read off from there.
-/

set_option autoImplicit false

namespace Netstack.Buffer

variable {b b' : Buffer} {front used back bytes : List UInt8} {n capacity : Nat} {h : Header}

/-! ## What the operations do to the spans -/

theorem Spans.capacity_eq (hb : b.Spans front used back) :
    b.capacity = front.length + used.length + back.length := by
  rw [Buffer.capacity, hb.storage, List.length_append, List.length_append, Nat.add_assoc]

/-- Bytes are consumed from the front of the span. They stay where they are. -/
theorem Spans.pull (hb : b.Spans front used back) (n : Nat) :
    (b.pull n).2.Spans (front ++ used.take n) (used.drop n) back := by
  have hcount : min n b.length = (used.take n).length := by
    rw [hb.length_eq, List.length_take]
  refine ⟨?_, ?_, ?_⟩
  · rw [List.append_assoc, ← List.append_assoc (used.take n), List.take_append_drop]
    exact hb.storage
  · show b.data + min n b.length = _
    rw [hb.data, hcount, List.length_append]
  · show b.tail = _
    rw [hb.tail, List.length_append, List.length_take, List.length_drop]
    omega

/-- Bytes are laid over the span, and what would lie beyond it is cut off. -/
theorem Spans.overwrite (hb : b.Spans front used back) (start : Nat) (bytes : List UInt8) :
    (b.write start bytes).Spans front (overwrite used start bytes) back := by
  by_cases hstart : start ≤ used.length
  · have hnew : (bytes.take (used.length - start)).length ≤ used.length - start := by
      rw [List.length_take]
      exact Nat.min_le_left _ _
    generalize hcut : bytes.take (used.length - start) = new at hnew
    have hparts : used = used.take start ++
        ((used.drop start).take new.length ++ used.drop (start + new.length)) := by
      rw [← List.drop_drop, List.take_append_drop, List.take_append_drop]
    have hplace : (used.take start).length = start := by
      rw [List.length_take]
      exact Nat.min_eq_left hstart
    have hlen : new.length = ((used.drop start).take new.length).length := by
      rw [List.length_take, List.length_drop]
      exact (Nat.min_eq_left hnew).symm
    have hwrite : b.write start bytes = b.write start new := by
      rw [Buffer.write, Buffer.write, ← hcut, hb.length_eq, List.take_take, Nat.min_self]
    have hrest : used.drop (start + bytes.length) = used.drop (start + new.length) := by
      by_cases hfits : bytes.length ≤ used.length - start
      · rw [← hcut, List.take_of_length_le hfits]
      · have hfull : new.length = used.length - start := by
          rw [← hcut, List.length_take]
          omega
        rw [List.drop_of_length_le (by omega), List.drop_of_length_le (by omega)]
    have hspans := hb
    rw [hparts] at hspans
    have hspans := hspans.write hlen
    rw [hplace, ← hwrite] at hspans
    rw [Netstack.overwrite, hcut, hrest, List.append_assoc]
    exact hspans
  · -- there is nothing of the span at this place
    have hnone : used.length - start = 0 := by omega
    have hsame : Netstack.overwrite used start bytes = used := by
      rw [Netstack.overwrite, hnone, List.take_zero, List.append_nil,
        List.drop_of_length_le (by omega), List.append_nil, List.take_of_length_le (by omega)]
    have hwrite : b.write start bytes = b := by
      rw [Buffer.write, hb.length_eq, hnone, List.take_zero, Netstack.overwrite, List.take_nil,
        List.append_nil, List.length_nil, Nat.add_zero, List.take_append_drop]
    rw [hsame, hwrite]
    exact hb

theorem put_eq_none_iff : b.put n = none ↔ b.tailroom < n := by
  unfold put
  split <;> simp <;> omega

theorem push_eq_none_iff : b.push n = none ↔ b.headroom < n := by
  unfold push
  split <;> simp <;> omega

/-! ## Using a buffer -/

/-- What the owner of a buffer does with it. Appending and prepending give him the region that
he got, and he may write into it until he uses the buffer again: `writes` are the bytes that he
writes there, with their places in the region. -/
inductive Use
  | put (n : Nat) (writes : List (Nat × List UInt8))
  | push (n : Nat) (writes : List (Nat × List UInt8))
  | pull (n : Nat)
  | pushHeader (h : Header)
  | pullHeader
  /-- write into the used span -/
  | write (start : Nat) (bytes : List UInt8)
  | setInterface (iface : Option Nat)

/-- Write into the `n` bytes of the span from `start` on. What would lie beyond them is cut
off. -/
def writeIn (b : Buffer) (start n : Nat) (piece : Nat × List UInt8) : Buffer :=
  b.write (start + piece.1) (piece.2.take (n - piece.1))

/-- A buffer after a use. One that is refused leaves it as it was. -/
def use (b : Buffer) : Use → Buffer
  | .put n writes =>
    match b.put n with
    | some (_, b') => writes.foldl (fun c piece => c.writeIn b.length n piece) b'
    | none => b
  | .push n writes =>
    match b.push n with
    | some (_, b') => writes.foldl (fun c piece => c.writeIn 0 n piece) b'
    | none => b
  | .pull n => (b.pull n).2
  | .pushHeader h =>
    match b.pushHeader h with
    | .ok b' => b'
    | .error _ => b
  | .pullHeader =>
    match b.pullHeader with
    | some (_, b') => b'
    | none => b
  | .write start bytes => b.write start bytes
  | .setInterface iface => b.setInterface iface

/-- A buffer after some uses. -/
def useAll (b : Buffer) (uses : List Use) : Buffer := uses.foldl use b

/-- To append a copy of bytes is to append as many bytes and to write them there. -/
theorem append_eq_use (b : Buffer) (bytes : List UInt8) :
    b.append bytes = b.use (.put bytes.length [(0, bytes)]) := by
  rw [append, use]
  cases b.put bytes.length with
  | none => rfl
  | some handed =>
    obtain ⟨-, b'⟩ := handed
    show b'.write b.length bytes = b'.write (b.length + 0) (bytes.take (bytes.length - 0))
    rw [Nat.add_zero, Nat.sub_zero, List.take_length]

/-- A buffer that somebody made, in whatever way it was used since. -/
def Reachable (b : Buffer) : Prop :=
  ∃ headroom payload b₀, new headroom payload = .ok b₀ ∧ ∃ uses, b = b₀.useAll uses

/-- Also a buffer that is made for given bytes is made empty. -/
theorem reachable_ofBytes {headroom : Nat} (hof : ofBytes headroom bytes = .ok b) :
    b.Reachable := by
  unfold ofBytes at hof
  obtain ⟨b₀, hnew, hof⟩ := bind_eq_ok_iff.1 hof
  obtain rfl := Except.ok.inj hof
  exact ⟨headroom, _, b₀, hnew, [.put bytes.length [(0, bytes)]], b₀.append_eq_use bytes⟩

/-- Writing into a region changes bytes of the span and nothing else. -/
theorem Spans.foldl_writeIn (hb : b.Spans front used back) (start n : Nat)
    (writes : List (Nat × List UInt8)) :
    ∃ used', used'.length = used.length ∧
      (writes.foldl (fun c piece => c.writeIn start n piece) b).Spans front used' back := by
  induction writes generalizing b used with
  | nil => exact ⟨used, rfl, hb⟩
  | cons piece writes ih =>
    obtain ⟨used', hlen, hb'⟩ :=
      ih (hb.overwrite (start + piece.1) (piece.2.take (n - piece.1)))
    exact ⟨used', hlen.trans (length_overwrite _ _ _), hb'⟩

/-! ## What every use keeps -/

/-- The span of a buffer lies in an arena of this size, and what is behind it is blank. -/
def InArena (b : Buffer) (capacity : Nat) : Prop :=
  ∃ front used room, b.Spans front used (List.replicate room 0) ∧
    front.length + used.length + room = capacity

theorem inArena_new {headroom payload : Nat} (hnew : new headroom payload = .ok b) :
    b.InArena (headroom + payload) := by
  refine ⟨_, [], payload, spans_new hnew, ?_⟩
  rw [List.length_replicate, List.length_nil, Nat.add_zero]

theorem InArena.use (hb : b.InArena capacity) (u : Use) : (b.use u).InArena capacity := by
  have hkept := hb
  obtain ⟨front, used, room, hspans, hsize⟩ := hb
  cases u with
  | put n writes =>
    rw [Buffer.use]
    by_cases hn : n ≤ room
    · have hroom : n ≤ (List.replicate room (0 : UInt8)).length := by rwa [List.length_replicate]
      obtain ⟨b', hput, -, hb'⟩ := hspans.put hroom
      rw [List.take_replicate, List.drop_replicate] at hb'
      obtain ⟨used', hlen, hb''⟩ := hb'.foldl_writeIn b.length n writes
      rw [hput]
      refine ⟨front, used', room - n, hb'', ?_⟩
      rw [hlen, List.length_append, List.length_replicate]
      omega
    · rw [put_eq_none_iff.2 (by rw [hspans.tailroom_eq, List.length_replicate]; omega)]
      exact hkept
  | push n writes =>
    rw [Buffer.use]
    by_cases hn : n ≤ front.length
    · obtain ⟨b', hpush, -, hb'⟩ := hspans.push hn
      obtain ⟨used', hlen, hb''⟩ := hb'.foldl_writeIn 0 n writes
      rw [hpush]
      refine ⟨_, used', room, hb'', ?_⟩
      rw [hlen, List.length_append, List.length_take, List.length_drop]
      omega
    · rw [push_eq_none_iff.2 (by rw [hspans.headroom_eq]; omega)]
      exact hkept
  | pull n =>
    refine ⟨_, _, room, hspans.pull n, ?_⟩
    rw [List.length_append, List.length_take, List.length_drop]
    omega
  | pushHeader h =>
    rw [Buffer.use]
    cases hpush : b.pushHeader h with
    | error e => exact hkept
    | ok b' =>
      have hroom := (hspans.of_pushHeader hpush).2
      refine ⟨_, _, room, hspans.pushed hpush, ?_⟩
      rw [List.length_append, List.length_take, Header.length_bytes]
      omega
  | pullHeader =>
    rw [Buffer.use, pullHeader]
    cases b.parseHeader with
    | none => exact hkept
    | some h =>
      refine ⟨_, _, room, hspans.pull headerLen, ?_⟩
      rw [List.length_append, List.length_take, List.length_drop]
      omega
  | write start bytes =>
    refine ⟨front, _, room, hspans.overwrite start bytes, ?_⟩
    rw [length_overwrite]
    exact hsize
  | setInterface iface => exact ⟨front, used, room, hspans.setInterface iface, hsize⟩

theorem InArena.useAll (hb : b.InArena capacity) (uses : List Use) :
    (b.useAll uses).InArena capacity := by
  induction uses generalizing b with
  | nil => exact hb
  | cons u uses ih => exact ih (hb.use u)

/-! ## What the operations give -/

/-- What a buffer shows of itself: how much room there is in front, the bytes of the span, and
how much room there is behind. -/
structure Shows (b : Buffer) (headroom : Nat) (used : List UInt8) (tailroom : Nat) : Prop where
  headroom : b.headroom = headroom
  used : b.used = used
  tailroom : b.tailroom = tailroom

theorem Spans.shows (hb : b.Spans front used back) : b.Shows front.length used back.length :=
  ⟨hb.headroom_eq, hb.used_eq, hb.tailroom_eq⟩

/-- The bytes that lie before the span. -/
def before (b : Buffer) : List UInt8 := b.storage.take b.data

theorem InArena.spans (hb : b.InArena capacity) :
    b.Spans b.before b.used (List.replicate b.tailroom 0) := by
  obtain ⟨front, used, room, hspans, -⟩ := hb
  have hbefore : b.before = front := by
    rw [before, hspans.storage, hspans.data, List.take_left]
  rw [hbefore, hspans.used_eq, hspans.tailroom_eq, List.length_replicate]
  exact hspans

theorem Spans.bounds (hb : b.Spans front used back) :
    b.data ≤ b.tail ∧ b.tail ≤ b.capacity ∧ b.headroom + b.length + b.tailroom = b.capacity := by
  rw [hb.headroom_eq, hb.length_eq, hb.tailroom_eq, hb.capacity_eq, hb.data, hb.tail]
  omega

/-- Nothing is lost by taking bytes back that were consumed. -/
theorem push_pull (b : Buffer) (n : Nat) :
    (b.pull n).2.push (b.pull n).1 = some (b.used.take n, b) := by
  have hregion : b.region b.data (min n b.length) = b.used.take n := by
    rw [used, region, region, List.take_take]
  have hroom : (b.pull n).1 ≤ (b.pull n).2.headroom := Nat.le_add_left _ _
  rw [push, if_pos hroom, ← hregion]
  simp only [pull, Nat.add_sub_cancel, region]

/-- Nothing is lost by consuming bytes that were prepended. -/
theorem Spans.pull_push {region : List UInt8} (hb : b.Spans front used back)
    (hpush : b.push n = some (region, b')) : b'.pull n = (n, b) := by
  have hordered := hb.bounds.1
  unfold Buffer.push at hpush
  split at hpush
  · next hn =>
    obtain ⟨-, rfl⟩ := Prod.mk.inj (Option.some.inj hpush)
    have hn : n ≤ b.data := hn
    have hmin : min n (b.tail - (b.data - n)) = n := by omega
    rw [Buffer.pull, Buffer.length]
    dsimp only
    rw [hmin, Nat.sub_add_cancel hn]
  · cases hpush

theorem freeze_eq_used (b : Buffer) : b.freeze = b.used := List.drop_take

/-- However a buffer was used since it was made, its span lies in an arena of the size that was
asked for, with the rest of the arena as room on its two sides. Bytes are appended exactly if
there is room for them behind, and they are zero whatever was written before; bytes are
prepended exactly if there is room for them in front, and they are those that lie there. What
there is no room for leaves the buffer as it was. Consuming takes as many bytes from the front as
are asked for, or all there are. To consume and to prepend as much undo each other, and what a
buffer is turned into in the end is its span. -/
theorem span_in_arena {headroom payload : Nat} {b₀ : Buffer}
    (hnew : new headroom payload = .ok b₀) (uses : List Use) :
    let b := b₀.useAll uses
    (b.data ≤ b.tail ∧ b.tail ≤ b.capacity ∧ b.capacity < Memory.limit ∧
      b.capacity = headroom + payload ∧ b.headroom + b.length + b.tailroom = b.capacity) ∧
    (∀ n, n ≤ b.tailroom → ∃ b', b.put n = some (List.replicate n 0, b') ∧
      b'.Shows b.headroom (b.used ++ List.replicate n 0) (b.tailroom - n)) ∧
    (∀ n, n ≤ b.headroom → ∃ b', b.push n = some (b.before.drop (b.headroom - n), b') ∧
      b'.Shows (b.headroom - n) (b.before.drop (b.headroom - n) ++ b.used) b.tailroom ∧
      b'.pull n = (n, b)) ∧
    (∀ n writes, (b.tailroom < n → b.put n = none ∧ b.use (.put n writes) = b) ∧
      (b.headroom < n → b.push n = none ∧ b.use (.push n writes) = b)) ∧
    (∀ n, (b.pull n).1 = min n b.length ∧
      (b.pull n).2.Shows (b.headroom + min n b.length) (b.used.drop n) b.tailroom ∧
      (b.pull n).2.push (b.pull n).1 = some (b.used.take n, b)) ∧
    b.freeze = b.used ∧ b.used.length = b.length := by
  intro b
  have harena : b.InArena (headroom + payload) := (inArena_new hnew).useAll uses
  have hb := harena.spans
  have hcapacity : b.capacity = headroom + payload := by
    obtain ⟨front, used, room, hspans, hsize⟩ := harena
    rw [hspans.capacity_eq, List.length_replicate, hsize]
  have hbefore : b.before.length = b.headroom := hb.headroom_eq.symm
  have hlength : b.used.length = b.length := hb.length_eq.symm
  obtain ⟨hordered, hbounded, htotal⟩ := hb.bounds
  refine ⟨⟨hordered, hbounded, ?_, hcapacity, htotal⟩, fun n hn => ?_, fun n hn => ?_,
    fun n writes => ⟨fun hn => ?_, fun hn => ?_⟩, fun n => ⟨rfl, ?_, b.push_pull n⟩,
    b.freeze_eq_used, hlength⟩
  · rw [hcapacity]
    exact (new_eq_ok_iff.1 hnew).1
  · have hroom : n ≤ (List.replicate b.tailroom (0 : UInt8)).length := by
      rwa [List.length_replicate]
    obtain ⟨b', hput, -, hb'⟩ := hb.put hroom
    have hshows := hb'.shows
    rw [List.take_replicate, Nat.min_eq_left hn] at hput hshows
    rw [List.length_drop, List.length_replicate, hbefore] at hshows
    exact ⟨b', hput, hshows⟩
  · obtain ⟨b', hpush, -, hb'⟩ := hb.push (hbefore ▸ hn)
    have hshows := hb'.shows
    rw [hbefore] at hpush hshows
    rw [List.length_take, hbefore, Nat.min_eq_left (Nat.sub_le _ _), List.length_replicate]
      at hshows
    exact ⟨b', hpush, hshows, hb.pull_push hpush⟩
  · have hnone := put_eq_none_iff.2 hn
    refine ⟨hnone, ?_⟩
    rw [use, hnone]
  · have hnone := push_eq_none_iff.2 hn
    refine ⟨hnone, ?_⟩
    rw [use, hnone]
  · have hshows := (hb.pull n).shows
    rw [List.length_append, List.length_take, hbefore, hlength, List.length_replicate] at hshows
    exact hshows

/-- Bytes that were consumed are written over and given up again, and what is appended after
that is zero. Two of the bytes in front of the span were consumed before it. -/
theorem span_in_arena_of_reuse :
    ∃ b₀, new 4 6 = .ok b₀ ∧
      let b := b₀.useAll
        [.put 3 [(0, [1, 2, 3])], .pull 2, .push 1 [(0, [9])], .write 1 [7, 7, 7], .put 4 []]
      b.used = [9, 7] ∧ b.headroom = 5 ∧ b.tailroom = 3 ∧
        (∃ b', b.put 3 = some ([0, 0, 0], b') ∧ b'.used = [9, 7, 0, 0, 0]) ∧ b.put 4 = none ∧
        (∃ b', b.push 2 = some ([0, 1], b') ∧ b'.pull 2 = (2, b)) ∧ (b.pull 3).1 = 2 := by
  refine ⟨_, rfl, ?_⟩
  intro b
  have hnew : new 4 6 = .ok _ := rfl
  obtain ⟨-, hput, hpush, hrefused, hpull, -⟩ := span_in_arena hnew
    [.put 3 [(0, [1, 2, 3])], .pull 2, .push 1 [(0, [9])], .write 1 [7, 7, 7], .put 4 []]
  have hused : b.used = [9, 7] := by decide
  have htailroom : b.tailroom = 3 := by decide
  obtain ⟨b', hb', hshows⟩ := hput 3 (Nat.le_of_eq htailroom.symm)
  obtain ⟨c, hc, -, hback⟩ := hpush 2 (by decide)
  refine ⟨hused, by decide, htailroom, ⟨b', hb', ?_⟩, ((hrefused 4 []).1 (by decide)).1,
    ⟨c, hc, hback⟩, (hpull 3).1⟩
  exact hshows.used.trans (congrArg (· ++ [0, 0, 0]) hused)

end Netstack.Buffer
