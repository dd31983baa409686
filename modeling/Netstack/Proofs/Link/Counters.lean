import Netstack.Proofs.Link.Books
import Netstack.Proofs.Link.Recording

/-
Counters that balance.

Somebody alone works with an interface, one call after the other (`Interface.Use`), and keeps a
book of what the calls answered (`Interface.book`). One call changes the frames that wait as its
entries say and counts each entry once (`Interface.Sound.moves_use`, `Interface.counters_use`),
so after any number of calls every frame that was accepted is either in the book as gone or still
waits, and the counters are those of the book (`Interface.counters_balance`). What the book
says of the driver is true of it: the entries of a flush are the callbacks that the driver got.
-/

set_option autoImplicit false

namespace Netstack

variable {δ ε : Type} [LinkDriver δ] [LinkDriver ε]

/-- Give frames to a driver, one after the other: what it says of each. -/
def handOver (driver : δ) : List Buffer → δ × List (Buffer × Except Error Unit)
  | [] => (driver, [])
  | frame :: rest =>
    let (driver, result) := LinkDriver.transmit driver frame.used
    let (driver, answers) := handOver driver rest
    (driver, (frame, result) :: answers)

/-- Nothing is left out, given twice or out of turn. -/
theorem map_fst_handOver (driver : δ) (frames : List Buffer) :
    (handOver driver frames).2.map (·.1) = frames := by
  induction frames generalizing driver with
  | nil => rfl
  | cons frame rest ih => exact congrArg (frame :: ·) (ih _)

theorem handOver_map {f : δ → ε} (hf : DriverMap f) (driver : δ) (frames : List Buffer) :
    handOver (f driver) frames = (handOver driver frames).map f id := by
  induction frames generalizing driver with
  | nil => rfl
  | cons frame rest ih =>
    unfold handOver
    rw [hf.transmit]
    dsimp only [Prod.map]
    rw [ih]
    rfl

/-- The callback that was answered. -/
def Callback.ofAnswer (answer : Buffer × Except Error Unit) : Callback :=
  .transmit answer.1.used answer.2

/-- A driver gets the frames by one callback each, and no others. -/
theorem handOver_recorded (l : Recorded δ) (frames : List Buffer) :
    handOver l frames =
      let (driver, answers) := handOver l.driver frames
      (⟨driver, l.record ++ answers.map Callback.ofAnswer⟩, answers) := by
  induction frames generalizing l with
  | nil => exact Prod.ext (congrArg (Recorded.mk l.driver) (List.append_nil _).symm) rfl
  | cons frame rest ih =>
    unfold handOver
    dsimp only
    rw [ih]
    dsimp only
    rw [List.map_cons, List.append_cons l.record]
    rfl

theorem filter_isTransmit_ofAnswer (answers : List (Buffer × Except Error Unit)) :
    (answers.map Callback.ofAnswer).filter Callback.isTransmit = answers.map .ofAnswer :=
  List.filter_eq_self.2 fun _ hmem => by
    obtain ⟨answer, -, rfl⟩ := List.mem_map.1 hmem
    rfl

namespace Interface

/-- A call to an interface. -/
inductive Use
  | bringUp
  | takeDown
  | enqueueTx (frame : Buffer) (timeout : Timeout)
  | flushTx
  | enqueueRx (frame : Buffer) (timeout : Timeout)
  | popRx (timeout : Timeout)
  | takeRx
  | recordDrop
  | recordRxError

/-- The interface after a call. -/
def use (i : Interface δ) : Use → Interface δ
  | .bringUp => i.bringUp.1
  | .takeDown => i.takeDown.1
  | .enqueueTx frame timeout => (i.enqueueTx frame timeout).1
  | .flushTx => i.flushTx.1
  | .enqueueRx frame timeout => (i.enqueueRx frame timeout).1
  | .popRx timeout => (i.popRx timeout).1
  | .takeRx => i.takeRx.1
  | .recordDrop => i.recordDrop
  | .recordRxError => i.recordRxError

/-- The interface after some calls. -/
def useAll (i : Interface δ) (uses : List Use) : Interface δ := uses.foldl use i

/-- What is written down of a call: how it ended, what the driver answered, and the frames that
waited when the interface was taken down. -/
def entries (i : Interface δ) : Use → LinkBook
  | .bringUp => []
  | .takeDown =>
    (Fifo.drain i.tx).2.map (.discarded .tx) ++ (Fifo.drain i.rx).2.map (.discarded .rx)
  | .enqueueTx frame timeout => [.ofPush .tx frame (i.enqueueTx frame timeout).2.isOk]
  | .flushTx => (handOver i.driver (Fifo.drain i.tx).2).2.map .ofAnswer
  | .enqueueRx frame timeout => [.ofPush .rx frame (i.enqueueRx frame timeout).2.isOk]
  | .popRx timeout => ((i.popRx timeout).2.toOption.map .taken).toList
  | .takeRx => (i.takeRx.2.toOption.join.map .taken).toList
  | .recordDrop => [.lost]
  | .recordRxError => [.invalid]

/-- The book of some calls. -/
def book (i : Interface δ) : List Use → LinkBook
  | [] => []
  | u :: uses => i.entries u ++ (i.use u).book uses

variable {i : Interface δ} {d : Direction}

/-! ## Calls as work on the queues -/

omit [LinkDriver δ] in
/-- Alone with the interface, a push is a push on the queue whose end is counted. -/
theorem push_eq (i : Interface δ) (d : Direction) (frame : Buffer) (timeout : Timeout) :
    i.push d frame timeout =
      let (queue, result) := (i.queue d).push frame timeout
      ((i.setQueue queue d).recordPush d frame result, result) := by
  have htwice : ∀ queue queue' : Fifo Buffer,
      (i.setQueue queue d).setQueue queue' d = i.setQueue queue' d := by
    intro queue queue'
    cases d <;> rfl
  unfold push beginPush expirePush Queue.push
  cases ho : (i.queue d).beginPush frame timeout.waits with
  | mk queue progress =>
    cases progress with
    | done result => rfl
    | parked frame' =>
      obtain ⟨-, -, rfl⟩ := Fifo.parked_of_beginPush ho
      dsimp only
      rw [htwice, queue_setQueue_self]

omit [LinkDriver δ] in
theorem Sound.push (hi : i.Sound) (d : Direction) (frame : Buffer) (timeout : Timeout) :
    i.Pushes d frame ((i.push d frame timeout).1, .done (i.push d frame timeout).2) := by
  rw [push_eq]
  obtain ⟨-, hp⟩ | ⟨-, -, q, hp, hq⟩ | ⟨-, -, q, hp, hq⟩ := (hi d).push_cases frame timeout <;>
    rw [hp]
  · exact .refused ((hi.setQueue (hi d)).recordPush _ _)
  · exact .refused ((hi.setQueue hq).recordPush _ _)
  · exact .queued ((hi.setQueue hq).recordPush _ _)

/-- The driver was given frames and answered. -/
def answered (i : Interface δ) (driver : δ) (answers : List (Buffer × Except Error Unit)) :
    Interface δ :=
  { i with
    driver := driver
    counters := LinkBook.countAll (answers.map .ofAnswer) i.counters }

theorem transmit_eq (i : Interface δ) (frame : Buffer) :
    i.transmit frame =
      let (driver, result) := LinkDriver.transmit i.driver frame.used
      (i.answered driver [(frame, result)], result.toBool) := by
  unfold transmit
  generalize LinkDriver.transmit i.driver frame.used = o
  obtain ⟨driver, e | u⟩ := o <;> rfl

/-- One frame more is given to the driver, and counted if the driver takes it. -/
def give (acc : Interface δ × Nat) (frame : Buffer) : Interface δ × Nat :=
  ((acc.1.transmit frame).1, acc.2 + (acc.1.transmit frame).2.toNat)

theorem flushTx_eq_foldl (i : Interface δ) :
    i.flushTx = (Fifo.drain i.tx).2.foldl give ({ i with tx := (Fifo.drain i.tx).1 }, 0) := by
  unfold flushTx
  dsimp only
  congr 1
  funext acc frame
  unfold give
  generalize acc.1.transmit frame = o
  obtain ⟨j, sent | sent⟩ := o <;> rfl

theorem foldl_give (frames : List Buffer) (i : Interface δ) (n : Nat) :
    frames.foldl give (i, n) =
      (i.answered (handOver i.driver frames).1 (handOver i.driver frames).2,
        n + (handOver i.driver frames).2.countP (·.2.toBool)) := by
  induction frames generalizing i n with
  | nil => rfl
  | cons frame rest ih =>
    rw [List.foldl_cons]
    unfold give handOver
    dsimp only
    rw [transmit_eq]
    generalize LinkDriver.transmit i.driver frame.used = o
    obtain ⟨driver, e | u⟩ := o
    · exact ih _ n
    · refine (ih _ (n + 1)).trans (Prod.ext rfl ?_)
      show n + 1 + _ = n + List.countP _ (_ :: _)
      rw [List.countP_cons_of_pos rfl]
      exact Nat.add_right_comm n 1 _

/-- A flush hands every frame over, counts what the driver says of each, and gives the number
of those that it took. -/
theorem flushTx_eq (i : Interface δ) :
    i.flushTx =
      let (driver, answers) := handOver i.driver (Fifo.drain i.tx).2
      (({ i with tx := (Fifo.drain i.tx).1 } : Interface δ).answered driver answers,
        answers.countP (·.2.toBool)) := by
  rw [flushTx_eq_foldl, foldl_give, Nat.zero_add]

/-! ## One call -/

omit [LinkDriver δ] in
/-- A push is counted as its entry says. -/
theorem counters_push (i : Interface δ) (d : Direction) (frame : Buffer) (timeout : Timeout) :
    (i.push d frame timeout).1.counters =
      (LinkEntry.ofPush d frame (i.push d frame timeout).2.isOk).count i.counters := by
  rw [push_eq]
  generalize (i.queue d).push frame timeout = o
  obtain ⟨queue, result⟩ := o
  cases d <;> cases result <;> rfl

/-- Every entry is counted when it is made. -/
theorem counters_use (i : Interface δ) (u : Use) :
    (i.use u).counters = (i.entries u).countAll i.counters := by
  cases u with
  | bringUp =>
    show i.bringUp.1.counters = i.counters
    unfold bringUp
    split <;> rfl
  | takeDown =>
    rw [entries, LinkBook.countAll_append, LinkBook.countAll_discarded,
      LinkBook.countAll_discarded]
    rfl
  | enqueueTx frame timeout => exact i.counters_push .tx frame timeout
  | flushTx =>
    show i.flushTx.1.counters = _
    rw [flushTx_eq]
    rfl
  | enqueueRx frame timeout =>
    refine (i.counters_push .rx frame timeout).trans ?_
    show _ = (LinkEntry.ofPush .rx frame (i.enqueueRx frame timeout).2.isOk).count i.counters
    unfold enqueueRx
    dsimp only
    cases (i.push .rx frame timeout).2 <;> rfl
  | popRx timeout => exact (LinkBook.countAll_taken _ i.counters).symm
  | takeRx => exact (LinkBook.countAll_taken _ i.counters).symm
  | recordDrop => rfl
  | recordRxError => rfl

/-- What a call does to the queues, told by its entries: the frames that waited and those that
were accepted are those that went and those that wait now. -/
structure Moves (i j : Interface δ) (entries : LinkBook) : Prop where
  sound : j.Sound
  balance : ∀ d, i.frames d ++ entries.accepted d = entries.gone d ++ j.frames d

section Undriven

omit [LinkDriver δ]

variable {j : Interface δ} {entries : LinkBook}

theorem Holding.moves {xs : List Buffer} (h : i.Holding j d xs)
    (hhere : i.frames d ++ entries.accepted d = entries.gone d ++ xs)
    (hthere : ∀ d', d' ≠ d → entries.accepted d' = [] ∧ entries.gone d' = []) :
    i.Moves j entries := by
  refine ⟨h.sound, fun d' => ?_⟩
  by_cases hd : d' = d
  · subst hd
    rw [h.here, hhere]
  · rw [h.there d' hd, (hthere d' hd).1, (hthere d' hd).2, List.append_nil, List.nil_append]

/-- The queues are left alone. -/
theorem Sound.moves_nothing (hi : i.Sound) (hq : ∀ d, j.queue d = i.queue d)
    (hentries : ∀ d, entries.accepted d = [] ∧ entries.gone d = []) : i.Moves j entries := by
  refine ⟨hi.of_queues hq, fun d => ?_⟩
  rw [(hentries d).1, (hentries d).2, List.append_nil, List.nil_append, frames, frames, hq]

theorem Sound.moves_push (hi : i.Sound) (d : Direction) (frame : Buffer) (timeout : Timeout) :
    i.Moves (i.push d frame timeout).1
      [.ofPush d frame (i.push d frame timeout).2.isOk] := by
  have hpush := hi.push d frame timeout
  generalize i.push d frame timeout = o at hpush ⊢
  obtain ⟨j, result⟩ := o
  cases hpush with
  | refused holding =>
    refine holding.moves ?_ fun d' _ => ⟨rfl, by cases d' <;> rfl⟩
    cases d <;> exact List.append_nil _
  | queued holding =>
    refine holding.moves ?_ fun d' hd => ⟨?_, by cases d' <;> rfl⟩
    · cases d <;> rfl
    · cases d <;> cases d' <;> first | rfl | exact absurd rfl hd

/-- A received frame is taken, or nothing is. -/
theorem Sound.moves_taken (hi : i.Sound) {frame? : Option Buffer} {rx : Fifo Buffer}
    (h : (frame? = none ∧ rx.Holds (i.frames .rx)) ∨
      ∃ frame rest, frame? = some frame ∧ i.frames .rx = frame :: rest ∧ rx.Holds rest) :
    i.Moves { i with rx := rx } (frame?.map .taken).toList := by
  have hset : ∀ {xs : List Buffer}, rx.Holds xs →
      i.Holding ({ i with rx := rx } : Interface δ) .rx xs := fun hq => hi.setQueue (d := .rx) hq
  have htx : ∀ d, d ≠ Direction.rx → LinkBook.accepted (frame?.map LinkEntry.taken).toList d = [] ∧
      LinkBook.gone (frame?.map LinkEntry.taken).toList d = [] := by
    intro d hd
    cases d with
    | rx => exact absurd rfl hd
    | tx => cases frame? <;> exact ⟨rfl, rfl⟩
  obtain ⟨rfl, hrx⟩ | ⟨frame, rest, rfl, hframes, hrx⟩ := h
  · exact (hset hrx).moves (List.append_nil _) htx
  · refine (hset hrx).moves ?_ htx
    rw [hframes]
    exact List.append_nil _

end Undriven

theorem Sound.moves_use (hi : i.Sound) (u : Use) : i.Moves (i.use u) (i.entries u) := by
  have hdrain : ∀ d, (Fifo.drain (i.queue d)).2 = i.frames d := fun d => (hi d).drain.1
  cases u with
  | bringUp => exact hi.moves_nothing (bringUp_same i).2 fun d => ⟨rfl, by cases d <;> rfl⟩
  | takeDown =>
    refine ⟨hi.takeDown.2, fun d => ?_⟩
    have hnone : (i.use .takeDown).frames d = [] := by
      cases d with
      | tx => exact (hi .tx).drain.2.toList
      | rx => exact (hi .rx).drain.2.toList
    rw [hnone, entries, show i.tx.drain.2 = _ from hdrain .tx,
      show i.rx.drain.2 = _ from hdrain .rx]
    cases d <;> simp
  | enqueueTx frame timeout => exact hi.moves_push .tx frame timeout
  | flushTx =>
    refine hi.flushTx.moves ?_ fun d hd => ?_
    · rw [entries, show i.tx.drain.2 = _ from hdrain .tx]
      simp [map_fst_handOver]
    · rw [entries]
      cases d with
      | tx => exact absurd rfl hd
      | rx => simp
  | enqueueRx frame timeout =>
    have hpush := hi.moves_push .rx frame timeout
    have hok : (i.enqueueRx frame timeout).2.isOk = (i.push .rx frame timeout).2.isOk := by
      unfold enqueueRx
      dsimp only
      cases (i.push .rx frame timeout).2 <;> rfl
    rw [← hok] at hpush
    exact hpush
  | popRx timeout =>
    have hrx : i.rx.Holds (i.frames .rx) := hi .rx
    show i.Moves { i with rx := (i.rx.pop () timeout).1 }
      ((i.rx.pop () timeout).2.toOption.map .taken).toList
    refine hi.moves_taken ?_
    obtain ⟨-, hp⟩ | ⟨-, hn, q, hp, hq⟩ | ⟨frame, rest, q, heq, hp, hq⟩ := hrx.pop_cases timeout
    · rw [hp]
      exact .inl ⟨rfl, hrx⟩
    · rw [hp, hn]
      exact .inl ⟨rfl, hq⟩
    · rw [hp]
      exact .inr ⟨frame, rest, rfl, heq, hq⟩
  | takeRx =>
    have hrx : i.rx.Holds (i.frames .rx) := hi .rx
    show i.Moves { i with rx := (Fifo.take i.rx).1 }
      ((Fifo.take i.rx).2.toOption.join.map .taken).toList
    refine hi.moves_taken ?_
    obtain ⟨-, ht⟩ | ⟨-, -, ht⟩ | ⟨frame, rest, q, heq, ht, hq⟩ := hrx.take_cases
    · rw [ht]
      exact .inl ⟨rfl, hrx⟩
    · rw [ht]
      exact .inl ⟨rfl, hrx⟩
    · rw [ht]
      exact .inr ⟨frame, rest, rfl, heq, hq⟩
  | recordDrop =>
    exact hi.moves_nothing (fun d => by cases d <;> rfl) fun d => ⟨rfl, by cases d <;> rfl⟩
  | recordRxError =>
    exact hi.moves_nothing (fun d => by cases d <;> rfl) fun d => ⟨rfl, by cases d <;> rfl⟩

/-! ## Any number of calls -/

omit [LinkDriver δ] in
theorem Moves.trans {j k : Interface δ} {log log' : LinkBook} (h : i.Moves j log)
    (h' : j.Moves k log') : i.Moves k (log ++ log') := by
  refine ⟨h'.sound, fun d => ?_⟩
  rw [LinkBook.accepted_append, LinkBook.gone_append, ← List.append_assoc, h.balance,
    List.append_assoc, h'.balance, List.append_assoc]

theorem Sound.moves_useAll (hi : i.Sound) (uses : List Use) :
    i.Moves (i.useAll uses) (i.book uses) := by
  induction uses generalizing i with
  | nil => exact hi.moves_nothing (fun _ => rfl) fun d => ⟨rfl, by cases d <;> rfl⟩
  | cons u uses ih =>
    have hstep := hi.moves_use u
    exact hstep.trans (ih hstep.sound)

theorem counters_useAll (i : Interface δ) (uses : List Use) :
    (i.useAll uses).counters = (i.book uses).countAll i.counters := by
  induction uses generalizing i with
  | nil => rfl
  | cons u uses ih =>
    rw [book, LinkBook.countAll_append, ← counters_use]
    exact ih (i.use u)

/-! ## What the driver is called for -/

theorem flushTx_mapDriver {f : δ → ε} (hf : DriverMap f) (i : Interface δ) :
    (i.mapDriver f).flushTx = (i.flushTx.1.mapDriver f, i.flushTx.2) := by
  rw [flushTx_eq, flushTx_eq, show (i.mapDriver f).driver = f i.driver from rfl, handOver_map hf]
  rfl

theorem use_mapDriver {f : δ → ε} (hf : DriverMap f) (i : Interface δ) (u : Use) :
    (i.mapDriver f).use u = (i.use u).mapDriver f := by
  cases u with
  | bringUp => exact congrArg (·.1) (bringUp_mapDriver hf i)
  | takeDown => exact congrArg (·.1) (takeDown_mapDriver hf i)
  | enqueueTx frame timeout => exact congrArg (·.1) (push_mapDriver f i .tx frame timeout)
  | flushTx => exact congrArg (·.1) (flushTx_mapDriver hf i)
  | enqueueRx frame timeout => exact congrArg (·.1) (push_mapDriver f i .rx frame timeout)
  | popRx timeout => rfl
  | takeRx => rfl
  | recordDrop => rfl
  | recordRxError => rfl

theorem useAll_mapDriver {f : δ → ε} (hf : DriverMap f) (i : Interface δ) (uses : List Use) :
    (i.mapDriver f).useAll uses = (i.useAll uses).mapDriver f :=
  List.foldl_hom (mapDriver f) fun i u => use_mapDriver hf i u

/-- The same is written down of drivers that answer the same. -/
theorem entries_mapDriver {f : δ → ε} (hf : DriverMap f) (i : Interface δ) (u : Use) :
    (i.mapDriver f).entries u = i.entries u := by
  cases u with
  | enqueueTx frame timeout =>
    have hpush := congrArg (·.2) (push_mapDriver f i .tx frame timeout)
    exact congrArg (fun result => [LinkEntry.ofPush .tx frame (Except.isOk result)]) hpush
  | flushTx =>
    exact congrArg (fun o => List.map LinkEntry.ofAnswer o.2)
      (handOver_map hf i.driver (Fifo.drain i.tx).2)
  | enqueueRx frame timeout =>
    have hpush := congrArg (·.2) (push_mapDriver f i .rx frame timeout)
    exact congrArg (fun result => [LinkEntry.ofPush .rx frame
      (Except.isOk (Except.mapError Rejected.error result))]) hpush
  | _ => rfl

theorem book_mapDriver {f : δ → ε} (hf : DriverMap f) (i : Interface δ) (uses : List Use) :
    (i.mapDriver f).book uses = i.book uses := by
  induction uses generalizing i with
  | nil => rfl
  | cons u uses ih => rw [book, entries_mapDriver hf, use_mapDriver hf, ih, book]

omit [LinkDriver δ] in
theorem driver_push (i : Interface δ) (d : Direction) (frame : Buffer) (timeout : Timeout) :
    (i.push d frame timeout).1.driver = i.driver := by
  rw [push_eq]
  generalize (i.queue d).push frame timeout = o
  obtain ⟨queue, result⟩ := o
  cases d <;> cases result <;> rfl

theorem driver_bringUp (i : Interface δ) :
    i.bringUp.1.driver = (LinkDriver.bringUp i.driver).1 := by
  unfold bringUp
  split <;> rename_i hup <;> rw [hup]

theorem driver_flushTx (i : Interface δ) :
    i.flushTx.1.driver = (handOver i.driver (Fifo.drain i.tx).2).1 := by
  rw [flushTx_eq]
  rfl

/-- The driver is given the frames that are written down as sent, and no others. -/
theorem transmits_use (i : Interface (Recorded δ)) (u : Use) :
    (i.use u).driver.transmits =
      i.driver.transmits ++ (i.entries u).sent.map Callback.ofAnswer := by
  -- most calls leave the driver alone, or call it for something else, and send nothing
  have hquiet : ∀ {l : Recorded δ} {book : LinkBook} (others : List Callback),
      l.record = i.driver.record ++ others → others.filter Callback.isTransmit = [] →
      book.sent = [] →
      l.transmits = i.driver.transmits ++ book.sent.map Callback.ofAnswer := by
    intro l book others hrecord hothers hbook
    unfold Recorded.transmits
    rw [hrecord, List.filter_append, hothers, hbook]
    rfl
  have hsame : ∀ {l : Recorded δ} {book : LinkBook}, l = i.driver → book.sent = [] →
      l.transmits = i.driver.transmits ++ book.sent.map Callback.ofAnswer := by
    rintro l book rfl hbook
    exact hquiet [] (List.append_nil _).symm rfl hbook
  have hpush : ∀ (d : Direction) (frame : Buffer) (ok : Bool),
      LinkBook.sent [.ofPush d frame ok] = [] := by
    intro d frame ok
    cases ok <;> rfl
  have htaken : ∀ frame? : Option Buffer,
      LinkBook.sent (frame?.map LinkEntry.taken).toList = [] := by
    intro frame?
    cases frame? <;> rfl
  cases u with
  | bringUp =>
    refine hquiet [.bringUp (LinkDriver.bringUp i.driver.driver).2] ?_ rfl rfl
    exact congrArg Recorded.record (driver_bringUp i)
  | takeDown =>
    refine hquiet [.takeDown (LinkDriver.takeDown i.driver.driver).2] rfl rfl ?_
    rw [entries, LinkBook.sent_append, LinkBook.sent_map_discarded, LinkBook.sent_map_discarded]
    rfl
  | enqueueTx frame timeout => exact hsame (driver_push i .tx frame timeout) (hpush _ _ _)
  | flushTx =>
    show i.flushTx.1.driver.transmits = _
    rw [driver_flushTx, entries, handOver_recorded, LinkBook.sent_map_ofAnswer]
    unfold Recorded.transmits
    rw [List.filter_append, filter_isTransmit_ofAnswer]
  | enqueueRx frame timeout => exact hsame (driver_push i .rx frame timeout) (hpush _ _ _)
  | popRx timeout => exact hsame rfl (htaken _)
  | takeRx => exact hsame rfl (htaken _)
  | recordDrop => exact hsame rfl rfl
  | recordRxError => exact hsame rfl rfl

theorem transmits_useAll (i : Interface (Recorded δ)) (uses : List Use) :
    (i.useAll uses).driver.transmits =
      i.driver.transmits ++ (i.book uses).sent.map Callback.ofAnswer := by
  induction uses generalizing i with
  | nil => exact (List.append_nil _).symm
  | cons u uses ih =>
    rw [book, LinkBook.sent_append, List.map_append, ← List.append_assoc, ← transmits_use]
    exact ih (i.use u)

/-! ## The balance -/

/-- What a flush does: the driver is called once for each frame that waits, in their order, and
for nothing else. No frame waits any more, and the flush gives the number of those that the driver
took. -/
structure Flushes (i : Interface δ) (answers : List (Buffer × Except Error Unit)) : Prop where
  each : answers.map (·.1) = i.frames .tx
  calls : i.recording.flushTx.1.driver.record = answers.map .ofAnswer
  unnoticed : i.recording.flushTx.1.unrecorded = i.flushTx.1
  emptied : i.flushTx.1.frames .tx = []
  number : i.flushTx.2 = answers.countP (·.2.toBool)

/-- The frames that wait and the counters agree with the book. Counters are machine words, so
they agree as far as words can. -/
structure Balanced (i : Interface δ) (book : LinkBook) : Prop where
  waiting : ∀ d, book.accepted d = book.gone d ++ i.frames d
  tx : i.counters.txCount + i.counters.txError + .ofNat (i.frames .tx).length +
    .ofNat (book.discarded .tx).length = .ofNat (book.accepted .tx).length
  txCount : i.counters.txCount = .ofNat book.delivered.length
  txError : i.counters.txError = .ofNat book.failed.length
  rx : i.counters.rxCount = .ofNat book.taken.length + .ofNat (i.frames .rx).length +
    .ofNat (book.discarded .rx).length
  txBytes : i.counters.txBytes = .ofNat (LinkBook.bytes book.delivered)
  rxBytes : i.counters.rxBytes = .ofNat (LinkBook.bytes (book.accepted .rx))
  dropped : i.counters.dropped = .ofNat (book.refused .rx).length + .ofNat book.losses
  rxError : i.counters.rxError = .ofNat book.invalid

theorem Sound.flushes (hi : i.Sound) :
    i.Flushes (handOver i.driver (Fifo.drain i.tx).2).2 where
  each := (map_fst_handOver _ _).trans (hi .tx).drain.1
  calls := by
    rw [driver_flushTx, handOver_recorded]
    rfl
  unnoticed := by
    have hflush := flushTx_mapDriver driverMap_driver i.recording
    exact (congrArg (·.1) hflush).symm
  emptied := hi.flushTx.here
  number := by
    rw [flushTx_eq]

omit [LinkDriver δ] in
theorem balanced_of_counters {book : LinkBook}
    (hwaiting : ∀ d, book.accepted d = book.gone d ++ i.frames d)
    (hcounters : i.counters = book.counters) : i.Balanced book := by
  have hlength : ∀ d, (book.accepted d).length = (book.gone d).length + (i.frames d).length := by
    intro d
    rw [hwaiting, List.length_append]
  have htx := hlength .tx
  have hrx := hlength .rx
  rw [LinkBook.length_gone_tx, LinkBook.length_sent] at htx
  rw [LinkBook.length_gone_rx] at hrx
  refine ⟨hwaiting, ?_, ?_, ?_, ?_, ?_, ?_, ?_, ?_⟩ <;> rw [hcounters] <;>
    simp only [LinkBook.counters, ← UInt32.ofNat_add]
  · rw [htx]
    congr 1
    omega
  · rw [hrx]
    congr 1
    omega

/-- However an interface is used by one call after another, whatever its driver does: a flush
hands over every frame that waits, and the counters balance with what was accepted, sent, taken,
discarded and lost. What the book of the calls says of the driver is what the driver was called
for. -/
theorem counters_balance {spec : InterfaceSpec} {driver : δ} {i₀ : Interface δ}
    (hbuild : build spec driver = .ok i₀) (uses : List Use) :
    (∃ answers, (i₀.useAll uses).Flushes answers) ∧
      (i₀.useAll uses).Balanced (i₀.book uses) ∧
      (i₀.recording.useAll uses).driver.transmits = (i₀.book uses).sent.map .ofAnswer ∧
      (i₀.recording.useAll uses).unrecorded = i₀.useAll uses := by
  have hsound := sound_build hbuild
  have hmoves := hsound.moves_useAll uses
  refine ⟨⟨_, hmoves.sound.flushes⟩, balanced_of_counters ?_ ?_, ?_, ?_⟩
  · intro d
    have hbalance := hmoves.balance d
    rwa [frames_build hbuild, List.nil_append] at hbalance
  · rw [counters_useAll, counters_build hbuild, LinkBook.countAll_eq_counters]
  · have hbook := book_mapDriver driverMap_driver i₀.recording uses
    rw [transmits_useAll, ← hbook]
    rfl
  · exact (useAll_mapDriver driverMap_driver i₀.recording uses).symm

end Interface

/-- A link that fails to take every other frame. -/
structure FlakyLink where
  failing : Bool := false

instance : LinkDriver FlakyLink where
  transmit l _ := (⟨!l.failing⟩, if l.failing then .error .timeout else .ok ())

namespace Interface

/-- Of three frames the driver fails to take the one in the middle, and a fourth finds no room.
Of two frames that come later, one is discarded and one still waits. A received frame is taken,
one finds no room, and one is discarded. -/
theorem counters_balance_of_flaky_link :
    ∃ i₀ : Interface FlakyLink,
      build { name := "radio", txQueueLen := 3, rxQueueLen := 1 } {} = .ok i₀ ∧
      let frame (n : Nat) : Buffer := ⟨none, List.replicate n 7, 0, n⟩
      let uses : List Use :=
        [.bringUp, .enqueueTx (frame 1) none, .enqueueTx (frame 2) none, .enqueueTx (frame 3) none,
          .enqueueTx (frame 9) none, .flushTx, .enqueueRx (frame 4) none, .takeRx,
          .enqueueRx (frame 5) none, .enqueueRx (frame 6) none, .enqueueTx (frame 8) none,
          .takeDown, .recordDrop, .enqueueTx (frame 1) none]
      let i := i₀.useAll uses
      i.Balanced (i₀.book uses) ∧
        i.counters = { txCount := 2, txError := 1, txBytes := 4, rxCount := 2, rxBytes := 9
                       dropped := 2 } ∧
        (i₀.recording.useAll uses).driver.transmits = (i₀.book uses).sent.map .ofAnswer ∧
        (i₀.book uses).sent.map (fun answer => (answer.1.used, answer.2.isOk)) =
          [([7], true), ([7, 7], false), ([7, 7, 7], true)] ∧
        ((i₀.book uses).discarded .tx).length = 1 ∧ (i.frames .tx).length = 1 := by
  have hbuild : (build { name := "radio", txQueueLen := 3, rxQueueLen := 1 } {} :
    Except Error (Interface FlakyLink)) = .ok _ := rfl
  refine ⟨_, hbuild, ?_⟩
  intro frame uses i
  obtain ⟨-, hbalanced, hcalls, -⟩ := counters_balance hbuild uses
  exact ⟨hbalanced, by decide +kernel, hcalls, by decide +kernel, by decide +kernel,
    by decide +kernel⟩

end Interface

end Netstack
