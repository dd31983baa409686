import Netstack.Proofs.Link.Frames

/-
Books on what passes an interface.

Whoever works with an interface can write down what happened to which frame: that it was
accepted or refused, that the driver was given it, that it was taken, or that it was discarded
when the interface was taken down. The counters are what can be told from such a book
(`LinkBook.counters`). One more entry moves them as a word is moved that goes round, so an
interface that counts each thing once, when it happens, is always right about its book
(`LinkBook.countAll_eq_counters`).
-/

set_option autoImplicit false

namespace Netstack

open Interface (Direction)

/-- What happens to the frames of an interface. -/
inductive LinkEntry
  /-- a frame was put into a queue -/
  | accepted (d : Direction) (frame : Buffer)
  /-- there was no room for a frame -/
  | refused (d : Direction) (frame : Buffer)
  /-- the driver was given a frame, and this came of it -/
  | sent (frame : Buffer) (result : Except Error Unit)
  /-- a received frame was taken -/
  | taken (frame : Buffer)
  /-- a frame still waited when the interface was taken down -/
  | discarded (d : Direction) (frame : Buffer)
  /-- somebody lost a frame and said so -/
  | lost
  /-- somebody received a frame that is no packet and said so -/
  | invalid

/-- What happened, oldest first. -/
abbrev LinkBook := List LinkEntry

namespace LinkEntry

/-- How the counters move. -/
def count (entry : LinkEntry) (c : LinkCounters) : LinkCounters :=
  match entry with
  | sent frame (.ok ()) =>
    { c with txCount := c.txCount + 1, txBytes := c.txBytes + UInt32.ofNat frame.length }
  | sent _ (.error _) => { c with txError := c.txError + 1 }
  | accepted .rx frame =>
    { c with rxCount := c.rxCount + 1, rxBytes := c.rxBytes + UInt32.ofNat frame.length }
  | refused .rx _ | lost => { c with dropped := c.dropped + 1 }
  | invalid => { c with rxError := c.rxError + 1 }
  | accepted .tx _ | refused .tx _ | taken _ | discarded _ _ => c

/-- What is written down of an answer of the driver. -/
def ofAnswer (answer : Buffer × Except Error Unit) : LinkEntry := .sent answer.1 answer.2

/-- What is written down of a frame that was to be queued. -/
def ofPush (d : Direction) (frame : Buffer) (ok : Bool) : LinkEntry :=
  if ok then .accepted d frame else .refused d frame

end LinkEntry

namespace LinkBook

variable {book new : LinkBook} {d : Direction}

/-- The frames that were put into a queue. -/
def accepted (book : LinkBook) (d : Direction) : List Buffer :=
  book.filterMap fun
    | .accepted d' frame => if d' = d then some frame else none
    | _ => none

/-- The frames that found no room in a queue. -/
def refused (book : LinkBook) (d : Direction) : List Buffer :=
  book.filterMap fun
    | .refused d' frame => if d' = d then some frame else none
    | _ => none

/-- The frames that the driver was given, with what came of each. -/
def sent (book : LinkBook) : List (Buffer × Except Error Unit) :=
  book.filterMap fun
    | .sent frame result => some (frame, result)
    | _ => none

/-- The frames that the driver took. -/
def delivered (book : LinkBook) : List Buffer :=
  book.filterMap fun
    | .sent frame (.ok ()) => some frame
    | _ => none

/-- The frames that the driver failed to take. -/
def failed (book : LinkBook) : List Buffer :=
  book.filterMap fun
    | .sent frame (.error _) => some frame
    | _ => none

/-- The received frames that were taken. -/
def taken (book : LinkBook) : List Buffer :=
  book.filterMap fun
    | .taken frame => some frame
    | _ => none

/-- The frames that waited in a queue when the interface was taken down. -/
def discarded (book : LinkBook) (d : Direction) : List Buffer :=
  book.filterMap fun
    | .discarded d' frame => if d' = d then some frame else none
    | _ => none

/-- The frames that left a queue, whatever for. -/
def gone (book : LinkBook) : Direction → List Buffer
  | .tx => book.filterMap fun
    | .sent frame _ | .discarded .tx frame => some frame
    | _ => none
  | .rx => book.filterMap fun
    | .taken frame | .discarded .rx frame => some frame
    | _ => none

/-- How often somebody said that a frame was lost. -/
def losses (book : LinkBook) : Nat := book.countP fun | .lost => true | _ => false

/-- How often somebody said that a frame was no packet. -/
def invalid (book : LinkBook) : Nat := book.countP fun | .invalid => true | _ => false

/-- Sum of the lengths of frames. -/
def bytes (frames : List Buffer) : Nat := (frames.map (·.length)).sum

/-- What the counters say of all this. They are machine words, and go round. -/
def counters (book : LinkBook) : LinkCounters where
  txCount := .ofNat book.delivered.length
  rxCount := .ofNat (book.accepted .rx).length
  txBytes := .ofNat (bytes book.delivered)
  rxBytes := .ofNat (bytes (book.accepted .rx))
  dropped := .ofNat ((book.refused .rx).length + book.losses)
  txError := .ofNat book.failed.length
  rxError := .ofNat book.invalid

/-- The counters after every entry was counted when it was made. -/
def countAll (book : LinkBook) (c : LinkCounters) : LinkCounters :=
  book.foldl (fun c entry => entry.count c) c

/-! ## One entry more -/

@[simp] theorem accepted_append (book new : LinkBook) (d : Direction) :
    accepted (book ++ new) d = accepted book d ++ accepted new d := List.filterMap_append

@[simp] theorem sent_append (book new : LinkBook) : sent (book ++ new) = sent book ++ sent new :=
  List.filterMap_append

@[simp] theorem gone_append (book new : LinkBook) (d : Direction) :
    gone (book ++ new) d = gone book d ++ gone new d := by
  cases d <;> exact List.filterMap_append

theorem countAll_append (book new : LinkBook) (c : LinkCounters) :
    countAll (book ++ new) c = new.countAll (book.countAll c) := List.foldl_append

theorem bytes_append (xs ys : List Buffer) : bytes (xs ++ ys) = bytes xs + bytes ys := by
  rw [bytes, List.map_append, List.sum_append, bytes, bytes]

theorem counters_snoc (book : LinkBook) (entry : LinkEntry) :
    counters (book ++ [entry]) = entry.count book.counters := by
  have hnone : UInt32.ofNat (bytes []) = 0 := rfl
  have hbytes : ∀ frame : Buffer, bytes [frame] = frame.length := fun _ => rfl
  have hone : UInt32.ofNat 1 = 1 := rfl
  simp only [counters, delivered, failed, accepted, refused, losses, invalid,
    List.filterMap_append, List.countP_append, List.length_append, bytes_append]
  cases entry with
  | accepted d frame => cases d <;> simp [LinkEntry.count, hnone, hbytes, UInt32.ofNat_add, hone]
  | refused d frame =>
    cases d with
    | tx => simp [LinkEntry.count, hnone]
    | rx =>
      simp [LinkEntry.count, hnone, UInt32.ofNat_add, hone, UInt32.add_assoc, UInt32.add_comm 1]
  | sent frame result =>
    cases result <;> simp [LinkEntry.count, hnone, hbytes, UInt32.ofNat_add, hone]
  | taken frame => simp [LinkEntry.count, hnone]
  | discarded d frame => simp [LinkEntry.count, hnone]
  | lost => simp [LinkEntry.count, hnone, UInt32.ofNat_add, hone, UInt32.add_assoc]
  | invalid => simp [LinkEntry.count, hnone, UInt32.ofNat_add, hone]

/-- Who counts every entry when it is made has counted what is in the book. -/
theorem countAll_eq_counters (book : LinkBook) : book.countAll {} = book.counters := by
  induction book using List.reverseRecOn with
  | nil => rfl
  | append_singleton book entry ih =>
    rw [countAll_append, ih, counters_snoc]
    rfl

/-! ## Frames of which the same is written down -/

theorem countAll_discarded (d : Direction) (frames : List Buffer) (c : LinkCounters) :
    countAll (frames.map (.discarded d)) c = c := by
  induction frames with
  | nil => rfl
  | cons frame rest ih => exact ih

theorem countAll_taken (frame? : Option Buffer) (c : LinkCounters) :
    countAll (frame?.map .taken).toList c = c := by
  cases frame? <;> rfl

@[simp] theorem accepted_map_discarded (d d' : Direction) (frames : List Buffer) :
    accepted (frames.map (.discarded d)) d' = [] := by
  induction frames with
  | nil => rfl
  | cons frame rest ih => exact ih

@[simp] theorem gone_map_discarded (d d' : Direction) (frames : List Buffer) :
    gone (frames.map (.discarded d)) d' = if d' = d then frames else [] := by
  induction frames with
  | nil => cases d <;> cases d' <;> rfl
  | cons frame rest ih => cases d <;> cases d' <;> first | exact ih | exact congrArg (frame :: ·) ih

@[simp] theorem sent_map_discarded (d : Direction) (frames : List Buffer) :
    sent (frames.map (.discarded d)) = [] := by
  induction frames with
  | nil => rfl
  | cons frame rest ih => exact ih

@[simp] theorem accepted_map_ofAnswer (answers : List (Buffer × Except Error Unit))
    (d : Direction) : accepted (answers.map .ofAnswer) d = [] := by
  induction answers with
  | nil => rfl
  | cons answer rest ih => exact ih

@[simp] theorem gone_map_ofAnswer (answers : List (Buffer × Except Error Unit)) (d : Direction) :
    gone (answers.map .ofAnswer) d = if d = .tx then answers.map (·.1) else [] := by
  induction answers with
  | nil => cases d <;> rfl
  | cons answer rest ih =>
    cases d with
    | tx => exact congrArg (answer.1 :: ·) ih
    | rx => exact ih

@[simp] theorem sent_map_ofAnswer (answers : List (Buffer × Except Error Unit)) :
    sent (answers.map .ofAnswer) = answers := by
  induction answers with
  | nil => rfl
  | cons answer rest ih => exact congrArg (answer :: ·) ih

/-! ## Nothing gets lost in the books -/

/-- Each entry that is counted on the left is counted once on the right. -/
theorem length_filterMap_split {α β γ : Type} {f : LinkEntry → Option α} {g : LinkEntry → Option β}
    {h : LinkEntry → Option γ}
    (hsplit : ∀ entry,
      (f entry).isSome.toNat = (g entry).isSome.toNat + (h entry).isSome.toNat)
    (book : LinkBook) :
    (book.filterMap f).length = (book.filterMap g).length + (book.filterMap h).length := by
  have hcons : ∀ {τ : Type} (pick : LinkEntry → Option τ) (entry : LinkEntry) (rest : LinkBook),
      ((entry :: rest).filterMap pick).length =
        (pick entry).isSome.toNat + (rest.filterMap pick).length := by
    intro τ pick entry rest
    cases hpick : pick entry with
    | none =>
      rw [List.filterMap_cons_none hpick, Option.isSome_none, Bool.toNat_false, Nat.zero_add]
    | some x =>
      rw [List.filterMap_cons_some hpick, Option.isSome_some, Bool.toNat_true, List.length_cons,
        Nat.add_comm]
  induction book with
  | nil => rfl
  | cons entry rest ih =>
    rw [hcons, hcons, hcons, hsplit, ih]
    omega

/-- The driver takes a frame or fails to. -/
theorem length_sent (book : LinkBook) :
    book.sent.length = book.delivered.length + book.failed.length := by
  refine length_filterMap_split (fun entry => ?_) book
  cases entry with
  | sent frame result => cases result <;> rfl
  | _ => rfl

/-- A frame to be sent left its queue for the driver or was discarded. -/
theorem length_gone_tx (book : LinkBook) :
    (book.gone .tx).length = book.sent.length + (book.discarded .tx).length := by
  refine length_filterMap_split (fun entry => ?_) book
  cases entry with
  | discarded d frame => cases d <;> rfl
  | _ => rfl

/-- A received frame left its queue for somebody who took it or was discarded. -/
theorem length_gone_rx (book : LinkBook) :
    (book.gone .rx).length = book.taken.length + (book.discarded .rx).length := by
  refine length_filterMap_split (fun entry => ?_) book
  cases entry with
  | discarded d frame => cases d <;> rfl
  | _ => rfl

end LinkBook

end Netstack
