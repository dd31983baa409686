import Netstack.Proofs.Stack.CoreRun

/-
What becomes of a frame that a driver hands over.

Two bounded queues are worked on, one after the other: the receive queue of the interface and
the events of the core. A frame for which there is no buffer or no room is left out, and only
the counter of the interface says so. A frame that finds room waits and is counted as received,
and then the core is told. If the core is so far behind that it cannot be told, the call fails,
and the frame waits all the same: this is the one case in which a failed call has not left the
frame out (`Intake.untold`), so whoever hands it over again has it received twice.

The four cases are found for each piece in which the call can end, since others may be at work
before the last one (`EndsInput`).
-/

set_option autoImplicit false

namespace Netstack

namespace LinkCounters

/-- `n` frames more were lost. -/
def drop (n : UInt32) (c : LinkCounters) : LinkCounters := { c with dropped := c.dropped + n }

/-- One frame more was received, of `size` bytes. -/
def receive (size : Nat) (c : LinkCounters) : LinkCounters :=
  { c with rxCount := c.rxCount + 1, rxBytes := c.rxBytes + UInt32.ofNat size }

theorem drop_zero : drop 0 = id := by
  funext c
  simp [drop]

end LinkCounters

namespace Interface

variable {δ : Type} {i j : Interface δ} {d : Direction} {frame : Buffer}
  {r : Except (Rejected Buffer) Unit}

/-- How the last piece of queueing a received frame ends: there is no room and the frame is
lost, or there is and the frame waits behind the others. Either is counted. -/
inductive Receives (i : Interface δ) (frame : Buffer) :
    Interface δ × Except (Rejected Buffer) Unit → Prop
  | lost {j : Interface δ} {e : Rejected Buffer} (full : ¬ i.rx.HasRoom)
      (holding : i.Holding j .rx (i.frames .rx)) (counted : j.counters = i.recordDrop.counters) :
      Receives i frame (j, .error e)
  | queued {j : Interface δ} (room : i.rx.HasRoom)
      (holding : i.Holding j .rx (i.frames .rx ++ [frame]))
      (counted : j.counters = (i.recordRx frame.length).counters) :
      Receives i frame (j, .ok ())

/-- What a push comes to is counted, whatever queue the interface has then. -/
theorem Pushes.receives {q : Fifo Buffer} (room : r = .ok () ↔ i.rx.HasRoom)
    (hj : j = (i.setQueue q .rx).recordPush .rx frame r)
    (hpush : i.Pushes .rx frame (j, .done r)) : i.Receives frame (j, r) := by
  cases hpush with
  | refused holding =>
    refine .lost (fun h => nomatch room.2 h) holding ?_
    rw [hj]
    rfl
  | queued holding =>
    refine .queued (room.1 rfl) holding ?_
    rw [hj]
    rfl

theorem Sound.receives_beginPush (hi : i.Sound) {waits : Bool}
    (h : i.beginPush .rx frame waits = (j, .done r)) : i.Receives frame (j, r) := by
  have hpush := hi.beginPush .rx frame waits
  rw [h] at hpush
  unfold Interface.beginPush at h
  split at h <;> cases h
  next q hq => exact hpush.receives (Fifo.ok_iff_of_beginPush hq) rfl

theorem Sound.receives_wakePush (hi : i.Sound) (h : i.wakePush .rx frame = (j, .done r)) :
    i.Receives frame (j, r) := by
  have hpush := hi.wakePush .rx frame
  rw [h] at hpush
  unfold Interface.wakePush at h
  split at h <;> cases h
  next q hq => exact hpush.receives (Fifo.ok_iff_of_wakePush hq) rfl

theorem Sound.receives_expirePush (hi : i.Sound) (frame : Buffer) :
    i.Receives frame (i.expirePush .rx frame) :=
  (hi.expirePush .rx frame).receives (Fifo.ok_iff_of_expirePush i.rx frame) rfl

/-- A push that ends at once ends well exactly if there is room. -/
theorem ok_iff_of_beginPush {waits : Bool} (h : i.beginPush d frame waits = (j, .done r)) :
    r = .ok () ↔ (i.queue d).HasRoom := by
  unfold Interface.beginPush at h
  split at h <;> cases h
  next q hq => exact Fifo.ok_iff_of_beginPush hq

theorem ok_iff_of_expirePush (i : Interface δ) (d : Direction) (frame : Buffer) :
    (i.expirePush d frame).2 = .ok () ↔ (i.queue d).HasRoom :=
  Fifo.ok_iff_of_expirePush (i.queue d) frame

/-- Who starts to wait has found no room, and only enters the gate. -/
theorem Sound.parked_of_beginPush (hi : i.Sound) {waits : Bool} {frame' : Buffer}
    (h : i.beginPush d frame waits = (j, .parked frame')) :
    frame' = frame ∧ ¬ (i.queue d).HasRoom ∧ ¬ (j.queue d).HasRoom ∧
      i.Holding j d (i.frames d) ∧ j.counters = i.counters := by
  unfold Interface.beginPush at h
  split at h <;> cases h
  next q hq =>
    obtain ⟨hfull, rfl, hframe⟩ := Fifo.parked_of_beginPush hq
    refine ⟨hframe, hfull, ?_, hi.setQueue ((hi d).mapRoom Gate.enter), ?_⟩
    · cases d <;> exact hfull
    · cases d <;> rfl

end Interface

namespace Stack

open Interface (Direction)

variable {δ : Type} {s t u : Stack δ} {index : Nat} {frame : Buffer} {bytes : List UInt8}
  {i j : Interface δ} {r : Except Error Unit} {es : List CoreEvent} {added : List Buffer}
  {count : LinkCounters → LinkCounters}

/-- What the interface with a number has counted. -/
def counters (s : Stack δ) (index : Nat) : Option LinkCounters :=
  (s.interfaces.byIndex index).map (·.counters)

/-- There is room for one more frame on the interface with this number. -/
def HasRoom (s : Stack δ) (d : Direction) (index : Nat) : Prop :=
  ∃ i, s.interfaces.byIndex index = some i ∧ (i.queue d).HasRoom

theorem hasRoom_iff {d : Direction} (hi : s.interfaces.byIndex index = some i) :
    s.HasRoom d index ↔ (i.queue d).HasRoom := by
  constructor
  · rintro ⟨i', hi', hroom⟩
    obtain rfl := Option.some.inj (hi.symm.trans hi')
    exact hroom
  · exact fun hroom => ⟨i, hi, hroom⟩

/-- An interface that is put back is there. -/
theorem byIndex_put {d : Direction} {xs : List Buffer}
    (hi : s.interfaces.byIndex index = some i) (hj : i.Holding j d xs) :
    (s.modifyLink index fun _ => j).interfaces.byIndex index = some j := by
  have hindex : ∀ i' : Interface δ, i'.index = index → j.index = index := fun _ _ =>
    hj.same.index.trans (Registry.index_of_byIndex hi)
  unfold modifyLink
  dsimp only
  rw [Registry.byIndex_modify hindex, if_pos rfl, hi]
  rfl

/-- The frames `added` came to wait behind those received on one interface, which has counted
as `count` says. Nothing else has changed, but for the events of the core. -/
structure Takes (s t : Stack δ) (index : Nat) (added : List Buffer)
    (count : LinkCounters → LinkCounters) : Prop where
  frames : ∀ d k, t.frames d k = s.frames d k ++ framesAt .rx index added d k
  counters : ∀ k, t.counters k = if k = index then (s.counters k).map count else s.counters k
  pool : t.pool = s.pool
  routes : t.routes = s.routes

theorem takes_nothing (s : Stack δ) (index : Nat) : s.Takes s index [] id := by
  refine ⟨fun d k => ?_, fun k => ?_, rfl, rfl⟩
  · rw [framesAt_nil]
    exact (List.append_nil _).symm
  · rw [Option.map_id_fun, id, ite_self]

/-- First nothing is done that counts, then something. -/
theorem Takes.after (h : u.Takes t index added count) (h₀ : s.Takes u index [] id) :
    s.Takes t index added count := by
  refine ⟨fun d k => ?_, fun k => ?_, h.pool.trans h₀.pool, h.routes.trans h₀.routes⟩
  · rw [h.frames, h₀.frames, framesAt_nil]
    exact congrArg (· ++ framesAt .rx index added d k) (List.append_nil _)
  · rw [h.counters, h₀.counters, Option.map_id_fun, id, ite_self]

theorem Takes.post (h : s.Takes t index added count) (event : CoreEvent) :
    s.Takes (t.post event).1 index added count := ⟨h.frames, h.counters, h.pool, h.routes⟩

/-- Something is queued on an interface, and counted. -/
theorem Sound.takes_link (hs : s.Sound) (hi : s.interfaces.byIndex index = some i)
    (hj : i.Holding j .rx (i.frames .rx ++ added)) (hcount : j.counters = count i.counters) :
    s.Takes (s.modifyLink index fun _ => j) index added count := by
  have hindex : ∀ i' : Interface δ, i'.index = index → j.index = index := fun _ _ =>
    hj.same.index.trans (Registry.index_of_byIndex hi)
  refine ⟨(hs.adds_link hi hj).frames, fun k => ?_, rfl, rfl⟩
  unfold counters modifyLink
  dsimp only
  rw [Registry.byIndex_modify hindex]
  by_cases hk : k = index
  · subst hk
    rw [if_pos rfl, if_pos rfl, hi]
    exact congrArg some hcount
  · rw [if_neg hk, if_neg hk]

/-- A frame that waits was not left out. -/
theorem Takes.not_nothing {count' : LinkCounters → LinkCounters}
    (h : s.Takes t index [frame] count) : ¬ s.Takes t index [] count' := by
  intro h'
  have heq := (h.frames .rx index).symm.trans (h'.frames .rx index)
  simp [framesAt] at heq

theorem length_frameBuffer (made : frameBuffer index bytes = .ok frame) :
    frame.length = bytes.length := by
  unfold frameBuffer at made
  obtain ⟨b, hof, made⟩ := bind_eq_ok_iff.1 made
  obtain rfl := Except.ok.inj made
  exact ((Buffer.spans_ofBytes hof).setInterface _).length_eq

/-- The core is told, or there is no room for another event. -/
theorem post_cases (hes : s.events.Holds es) (event : CoreEvent) :
    (s.events.HasRoom ∧ (s.post event).2 = .ok () ∧
      (s.post event).1.events.toList = es ++ [event]) ∨
    (¬ s.events.HasRoom ∧ (s.post event).2 ≠ .ok () ∧ (s.post event).1.events.toList = es) := by
  rw [hes.hasRoom_iff]
  unfold post
  dsimp only
  obtain ⟨hd, hoffer⟩ | ⟨hd, hfull, hoffer⟩ | ⟨hd, hroom, q, hoffer, hq⟩ :=
    hes.offer_cases event <;> rw [hoffer]
  · exact .inr ⟨fun h => (Bool.eq_false_iff.1 h.1) hd, nofun, hes.toList⟩
  · exact .inr ⟨fun h => Nat.not_lt.2 hfull h.2, nofun, hes.toList⟩
  · exact .inl ⟨⟨hd, hroom⟩, rfl, hq.toList⟩

/-! ## How a frame is taken in -/

/-- What becomes of a frame that is handed over. -/
inductive Intake (s : Stack δ) (index : Nat) (bytes : List UInt8) :
    Stack δ × Except Error Unit → Prop
  /-- there is no buffer for it -/
  | unmade {e : Error} (made : frameBuffer index bytes = .error e) :
      Intake s index bytes (s, .error e)
  /-- there is no room for it -/
  | dropped {frame : Buffer} {t : Stack δ} {e : Error} (made : frameBuffer index bytes = .ok frame)
      (full : ¬ s.HasRoom .rx index) (takes : s.Takes t index [] (.drop 1))
      (events : t.events.toList = s.events.toList) : Intake s index bytes (t, .error e)
  /-- it waits, and the core could not be told -/
  | untold {frame : Buffer} {t : Stack δ} {r : Except Error Unit}
      (made : frameBuffer index bytes = .ok frame)
      (room : s.HasRoom .rx index) (behind : ¬ s.events.HasRoom) (refused : r ≠ .ok ())
      (takes : s.Takes t index [frame] (.receive frame.length))
      (events : t.events.toList = s.events.toList) : Intake s index bytes (t, r)
  /-- it waits, and the core knows -/
  | told {frame : Buffer} {t : Stack δ} (made : frameBuffer index bytes = .ok frame)
      (room : s.HasRoom .rx index) (ready : s.events.HasRoom)
      (takes : s.Takes t index [frame] (.receive frame.length))
      (events : t.events.toList = s.events.toList ++ [.rx index]) :
      Intake s index bytes (t, .ok ())

/-- The push of a received frame has ended, and the core is told if it is queued. -/
theorem Sound.intake_afterInput (hs : s.Sound) (hi : s.interfaces.byIndex index = some i)
    (made : frameBuffer index bytes = .ok frame)
    {result : Except (Rejected Buffer) Unit} (hpush : i.Receives frame (j, result)) :
    s.Intake index bytes ((s.modifyLink index fun _ => j).afterInput index result) := by
  cases hpush with
  | lost full holding counted =>
    refine .dropped made ((hasRoom_iff hi).not.2 full) (hs.takes_link hi ?_ counted) rfl
    rw [List.append_nil]
    exact holding
  | queued room holding counted =>
    have room := (hasRoom_iff (d := .rx) hi).2 room
    have htakes : s.Takes _ index [frame] (.receive frame.length) :=
      (hs.takes_link hi holding counted).post (.rx index)
    obtain ⟨es, hes⟩ := hs.events
    have hposted := post_cases (s := s.modifyLink index fun _ => j) hes (.rx index)
    unfold afterInput
    dsimp only
    generalize (s.modifyLink index fun _ => j).post (.rx index) = posted at htakes hposted ⊢
    obtain ⟨t, answer⟩ := posted
    dsimp only at hposted htakes
    rw [← hes.toList] at hposted
    obtain ⟨ready, rfl, hevents⟩ | ⟨behind, refused, hevents⟩ := hposted
    · exact .told made room ready htakes hevents
    · exact .untold made room behind refused htakes hevents

/-- The last piece of handing a frame over, with what it answers; or all of it, for somebody
who is alone with the stack. Before the last piece others may have been at work, so the piece
may come in any state. -/
inductive EndsInput (s : Stack δ) (index : Nat) (bytes : List UInt8) :
    Stack δ → Except Error Unit → Prop
  | alone {t : Stack δ} {r : Except Error Unit} (ended : s.input index bytes = (t, r)) :
      EndsInput s index bytes t r
  | atOnce {t : Stack δ} {r : Except Error Unit}
      (ended : s.beginInput index bytes = (t, .done r)) : EndsInput s index bytes t r
  | woken {frame : Buffer} {t : Stack δ} {r : Except Error Unit}
      (made : frameBuffer index bytes = .ok frame)
      (ended : s.wakeInput index frame = (t, .done r)) : EndsInput s index bytes t r
  | late {frame : Buffer} {t : Stack δ} {r : Except Error Unit}
      (made : frameBuffer index bytes = .ok frame)
      (ended : s.expireInput index frame = (t, r)) : EndsInput s index bytes t r

section Registered

variable (hs : s.Sound) (hi : s.interfaces.byIndex index = some i)

include hs hi

theorem intake_beginInput (h : s.beginInput index bytes = (t, .done r)) :
    s.Intake index bytes (t, r) := by
  unfold beginInput at h
  cases made : frameBuffer index bytes with
  | error e =>
    rw [made] at h
    cases h
    exact .unmade made
  | ok frame =>
    rw [made] at h
    dsimp only at h
    rw [s.onLink_eq hi] at h
    generalize hpush : i.beginPush .rx frame _ = o at h
    obtain ⟨j, result | _⟩ := o <;> cases h
    exact hs.intake_afterInput hi made ((hs.link hi).receives_beginPush hpush)

theorem intake_wakeInput (made : frameBuffer index bytes = .ok frame)
    (h : s.wakeInput index frame = (t, .done r)) : s.Intake index bytes (t, r) := by
  unfold wakeInput at h
  rw [s.onLink_eq hi] at h
  generalize hpush : i.wakePush .rx frame = o at h
  obtain ⟨j, result | _⟩ := o <;> cases h
  exact hs.intake_afterInput hi made ((hs.link hi).receives_wakePush hpush)

theorem intake_expireInput (made : frameBuffer index bytes = .ok frame) :
    s.Intake index bytes (s.expireInput index frame) := by
  unfold expireInput
  rw [s.onLink_eq hi]
  exact hs.intake_afterInput hi made ((hs.link hi).receives_expirePush frame)

/-- Somebody who is alone with the stack waits for room in vain. -/
theorem intake_input : s.Intake index bytes (s.input index bytes) := by
  unfold input
  split
  · next hbegin => exact intake_beginInput hs hi hbegin
  · next u frame hbegin =>
    unfold beginInput at hbegin
    cases made : frameBuffer index bytes with
    | error e =>
      rw [made] at hbegin
      cases hbegin
    | ok frame₀ =>
      rw [made] at hbegin
      dsimp only at hbegin
      rw [s.onLink_eq hi] at hbegin
      generalize hpush : i.beginPush .rx frame₀ _ = o at hbegin
      obtain ⟨j, _ | _⟩ := o <;> cases hbegin
      -- the interface is there as it was, but for one who waits
      obtain ⟨rfl, hfull, hstill, hwaits, hcount⟩ := (hs.link hi).parked_of_beginPush hpush
      have hthere := byIndex_put hi hwaits
      have hidle : s.Takes (s.modifyLink index fun _ => j) index [] id := by
        refine hs.takes_link hi ?_ hcount
        rw [List.append_nil]
        exact hwaits
      have hsound : (s.modifyLink index fun _ => j).Sound :=
        (hs.keeps_link hi hwaits.same hwaits.sound).sound
      have hlast := hwaits.sound.receives_expirePush frame
      unfold expireInput
      rw [Stack.onLink_eq _ hthere]
      generalize j.expirePush .rx frame = o at hlast ⊢
      cases hlast with
      | lost _ holding counted =>
        rw [← List.append_nil (j.frames .rx)] at holding
        exact .dropped made ((hasRoom_iff hi).not.2 hfull)
          ((hsound.takes_link hthere holding counted).after hidle) rfl
      | queued room => exact absurd room hstill

end Registered

/-- In whatever way it ends that a frame is handed over, it is one of the four. -/
theorem EndsInput.intake (hend : s.EndsInput index bytes t r) (hs : s.Sound)
    (hi : s.interfaces.byIndex index = some i) : s.Intake index bytes (t, r) := by
  cases hend with
  | alone ended =>
    rw [← ended]
    exact intake_input hs hi
  | atOnce ended => exact intake_beginInput hs hi ended
  | woken made ended => exact intake_wakeInput hs hi made ended
  | late made ended =>
    rw [← ended]
    exact intake_expireInput hs hi made

variable [LinkDriver δ]

theorem run_perform (hs : s.Sound) (acts : List (Act δ)) : Run s (s.perform acts) := by
  induction acts generalizing s with
  | nil => exact .refl s
  | cons a acts ih =>
    have hone := run_act hs a
    exact hone.trans (ih (hone.keeps hs).sound)

/-- A frame that is handed over on an interface, in any state of the stack and however the
call ends, is taken in and announced exactly if there is a buffer for it, room behind the
frames received, and room for an event; then it is queued once and counted, and the event
comes behind the others. A call that fails leaves the frame out, and counts it as dropped
unless there was no buffer, exactly if not all that is missing is room for the event: a frame
that the core could not be told of waits and is counted as received, and the call fails
nevertheless. -/
theorem input_all_or_nothing_iff {c : Config} (hs : Reachable c s)
    (hi : s.interfaces.byIndex index = some i) (hend : s.EndsInput index bytes t r) :
    let made := (frameBuffer index bytes).isOk
    let untold := made ∧ i.rx.HasRoom ∧ ¬ s.events.HasRoom
    (r = .ok () ↔ made ∧ i.rx.HasRoom ∧ s.events.HasRoom) ∧
    (r = .ok () → ∃ frame : Buffer, frame.used = bytes ∧
      s.Takes t index [frame] (.receive bytes.length) ∧
      t.events.toList = s.events.toList ++ [.rx index]) ∧
    ((r ≠ .ok () → s.Takes t index [] (.drop (if made then 1 else 0)) ∧
      t.events.toList = s.events.toList) ↔ ¬ untold) ∧
    (untold → r ≠ .ok () ∧ ∃ frame : Buffer, frame.used = bytes ∧
      s.Takes t index [frame] (.receive bytes.length) ∧ t.events.toList = s.events.toList) := by
  have hintake := hend.intake hs.sound hi
  have htaken : ∀ {frame : Buffer}, frameBuffer index bytes = .ok frame →
      s.Takes t index [frame] (.receive frame.length) →
      ∃ frame : Buffer, frame.used = bytes ∧ s.Takes t index [frame] (.receive bytes.length) := by
    intro frame made takes
    rw [length_frameBuffer made] at takes
    exact ⟨frame, used_frameBuffer made, takes⟩
  have hfailed : ∀ e : Error, (.error e : Except Error Unit) ≠ .ok () := by
    rintro e ⟨⟩
  dsimp only
  cases hintake with
  | unmade made =>
    have hnone : ¬ (frameBuffer index bytes).isOk = true := by
      simp [made, Except.isOk, Except.toBool]
    refine ⟨⟨fun h => absurd h (hfailed _), fun h => absurd h.1 hnone⟩,
      fun h => absurd h (hfailed _), ⟨fun _ h => hnone h.1, fun _ _ => ?_⟩,
      fun h => absurd h.1 hnone⟩
    rw [if_neg hnone, LinkCounters.drop_zero]
    exact ⟨s.takes_nothing index, rfl⟩
  | dropped made full takes events =>
    rw [hasRoom_iff hi] at full
    refine ⟨⟨fun h => absurd h (hfailed _), fun h => absurd h.2.1 full⟩,
      fun h => absurd h (hfailed _), ⟨fun _ h => full h.2.1, fun _ _ => ?_⟩,
      fun h => absurd h.2.1 full⟩
    rw [made]
    exact ⟨takes, events⟩
  | untold made room behind refused takes events =>
    rw [hasRoom_iff hi] at room
    obtain ⟨frame, hused, hall⟩ := htaken made takes
    refine ⟨⟨fun h => absurd h refused, fun h => absurd h.2.2 behind⟩,
      fun h => absurd h refused, ⟨fun h => ?_, fun h => ?_⟩, fun _ => ?_⟩
    · exact absurd (h refused).1 hall.not_nothing
    · exact absurd ⟨by rw [made]; rfl, room, behind⟩ h
    · exact ⟨refused, frame, hused, hall, events⟩
  | told made room ready takes events =>
    rw [hasRoom_iff hi] at room
    obtain ⟨frame, hused, hall⟩ := htaken made takes
    refine ⟨⟨fun _ => ⟨by rw [made]; rfl, room, ready⟩, fun _ => rfl⟩,
      fun _ => ⟨frame, hused, hall, events⟩, ⟨fun _ h => h.2.2 ready, fun _ h => absurd rfl h⟩,
      fun h => absurd ready h.2.2⟩

/-- Where there is room for one frame only, the second of two is left out, though the core
could be told of it. -/
theorem input_all_or_nothing_of_full_queue :
    ∃ s₀ : Stack ScriptedLink, new { addr := 0xAE55 } = .ok s₀ ∧
      let s := s₀.perform [.register { name := "radio", rxQueueLen := 1 } {}, .beginInput 0 [1, 2]]
      let t := (s.input 0 [3]).1
      (Reachable { addr := 0xAE55 } s ∧
        (∃ i, s.interfaces.byIndex 0 = some i) ∧ s.EndsInput 0 [3] t (.error .timeout)) ∧
      s.Takes t 0 [] (.drop 1) ∧ s.events.toList = [.rx 0] ∧ t.events.toList = [.rx 0] := by
  refine ⟨_, rfl, ?_⟩
  intro s t
  have hnew : (new { addr := 0xAE55 } : Except Error (Stack ScriptedLink)) = .ok _ := rfl
  have htold : s.events.toList = [.rx 0] := by decide +kernel
  have hs : Reachable { addr := 0xAE55 } s := ⟨_, hnew, run_perform (of_new hnew).1 _⟩
  have hi : s.interfaces.byIndex 0 = some _ := rfl
  have hend : s.EndsInput 0 [3] t (.error .timeout) :=
    .alone (Prod.ext rfl (by decide +kernel))
  obtain ⟨-, -, hleft, -⟩ := input_all_or_nothing_iff hs hi hend
  obtain ⟨hdropped, hevents⟩ := hleft.2 (fun h => absurd h.2.1 (by decide +kernel)) nofun
  exact ⟨⟨hs, ⟨_, hi⟩, hend⟩, hdropped, htold, hevents.trans htold⟩

/-- Where the core takes one event only, the second of two frames waits behind the first and
is counted as received, and handing it over fails. -/
theorem input_queued_though_refused :
    ∃ s₀ : Stack ScriptedLink, new { addr := 0xAE55, coreEventQueueLen := 1 } = .ok s₀ ∧
      let s := s₀.perform [.register { name := "radio" } {}, .beginInput 0 [1, 2]]
      (s.input 0 [3]).2 = .error .queueFull ∧
      (s.frames .rx 0).map (·.used) = [[1, 2]] ∧
      ((s.input 0 [3]).1.frames .rx 0).map (·.used) = [[1, 2], [3]] ∧
      s.counters 0 = some { rxCount := 1, rxBytes := 2 } ∧
      (s.input 0 [3]).1.counters 0 = some { rxCount := 2, rxBytes := 3 } :=
  ⟨_, rfl, by decide +kernel, by decide +kernel, by decide +kernel, by decide +kernel,
    by decide +kernel⟩

end Stack

end Netstack
