import Mathlib.Data.List.Forall2
import Netstack.Link.Registry
import Netstack.Proofs.Queue.Fifo

/-
The frames that wait on interfaces.

An interface has a list of frames for each direction (`Interface.frames`), which is what its
queue stands for as long as the queues are as queues have to be (`Interface.Sound`). Work on
an interface changes at most the list of one direction, and this is all that is said about
it: `Holding` gives the list of that direction afterwards, and a push of a frame comes to one
of three of these (`Pushes`). What an interface is registered with, its number and its mtu
among them, never changes.
-/

set_option autoImplicit false

namespace Netstack

namespace Interface

variable {δ : Type} {i j : Interface δ} {d : Direction} {frame : Buffer} {xs : List Buffer}

/-- The frames that wait in one direction, oldest first. -/
def frames (i : Interface δ) (d : Direction) : List Buffer := (i.queue d).toList

/-- Both queues stand for the frames that wait in them. -/
def Sound (i : Interface δ) : Prop := ∀ d, (i.queue d).Holds (i.frames d)

/-- The same interface, in whatever state. -/
structure SameLink (i j : Interface δ) : Prop where
  index : j.index = i.index
  name : j.name = i.name
  mtu : j.mtu = i.mtu
  minHeaderLen : j.minHeaderLen = i.minHeaderLen

theorem SameLink.refl (i : Interface δ) : i.SameLink i := ⟨rfl, rfl, rfl, rfl⟩

theorem SameLink.trans {k : Interface δ} (h₁ : i.SameLink j) (h₂ : j.SameLink k) :
    i.SameLink k :=
  ⟨h₂.index.trans h₁.index, h₂.name.trans h₁.name, h₂.mtu.trans h₁.mtu,
    h₂.minHeaderLen.trans h₁.minHeaderLen⟩

/-- After work on one direction of an interface: the frames that wait there now. -/
structure Holding (i j : Interface δ) (d : Direction) (xs : List Buffer) : Prop where
  same : i.SameLink j
  sound : j.Sound
  here : j.frames d = xs
  there : ∀ d', d' ≠ d → j.frames d' = i.frames d'

theorem Sound.of_queues (hi : i.Sound) (hq : ∀ d, j.queue d = i.queue d) : j.Sound := by
  intro d
  rw [frames, hq d]
  exact hi d

theorem queue_setQueue_self (i : Interface δ) (queue : Fifo Buffer) (d : Direction) :
    (i.setQueue queue d).queue d = queue := by
  cases d <;> rfl

theorem queue_setQueue_of_ne {d' : Direction} (h : d' ≠ d) (i : Interface δ)
    (queue : Fifo Buffer) : (i.setQueue queue d).queue d' = i.queue d' := by
  cases d <;> cases d' <;> first | rfl | exact absurd rfl h

theorem sameLink_setQueue (i : Interface δ) (queue : Fifo Buffer) (d : Direction) :
    i.SameLink (i.setQueue queue d) := by
  cases d <;> exact ⟨rfl, rfl, rfl, rfl⟩

/-- Counting what comes of a push touches no queue. -/
theorem recordPush_same (i : Interface δ) (d : Direction) (frame : Buffer)
    (result : Except (Rejected Buffer) Unit) :
    i.SameLink (i.recordPush d frame result) ∧
      ∀ d', (i.recordPush d frame result).queue d' = i.queue d' := by
  unfold recordPush
  split <;> exact ⟨⟨rfl, rfl, rfl, rfl⟩, fun d' => by cases d' <;> rfl⟩

/-- An interface gets another queue in one direction. -/
theorem Sound.setQueue {queue : Fifo Buffer} (hi : i.Sound) (hq : queue.Holds xs) :
    i.Holding (i.setQueue queue d) d xs := by
  have hhere : (i.setQueue queue d).frames d = xs := by
    rw [frames, queue_setQueue_self]
    exact hq.toList
  have hthere : ∀ d', d' ≠ d → (i.setQueue queue d).frames d' = i.frames d' := by
    intro d' hd
    rw [frames, queue_setQueue_of_ne hd, frames]
  refine ⟨sameLink_setQueue i queue d, ?_, hhere, hthere⟩
  intro d'
  by_cases hd : d' = d
  · subst hd
    rw [hhere, queue_setQueue_self]
    exact hq
  · rw [hthere d' hd, queue_setQueue_of_ne hd]
    exact hi d'

theorem Holding.recordPush (h : i.Holding j d xs) (d' : Direction)
    (result : Except (Rejected Buffer) Unit) : i.Holding (j.recordPush d' frame result) d xs := by
  obtain ⟨hsame, hqueue⟩ := recordPush_same j d' frame result
  have hframes : ∀ d'', (j.recordPush d' frame result).frames d'' = j.frames d'' := by
    intro d''
    rw [frames, hqueue, frames]
  refine ⟨h.same.trans hsame, h.sound.of_queues hqueue, ?_, ?_⟩
  · rw [hframes]
    exact h.here
  · intro d'' hd
    rw [hframes]
    exact h.there d'' hd

/-! ## Queueing frames -/

/-- What a push of a frame comes to: it is refused, or sleeps, or has queued the frame. -/
inductive Pushes (i : Interface δ) (d : Direction) (frame : Buffer) :
    Interface δ × Progress Buffer (Except (Rejected Buffer) Unit) → Prop
  | refused {j : Interface δ} {e : Rejected Buffer} (holding : i.Holding j d (i.frames d)) :
      Pushes i d frame (j, .done (.error e))
  | asleep {j : Interface δ} (holding : i.Holding j d (i.frames d)) :
      Pushes i d frame (j, .parked frame)
  | queued {j : Interface δ} (holding : i.Holding j d (i.frames d ++ [frame])) :
      Pushes i d frame (j, .done (.ok ()))

/-- Whatever becomes of a push, the interface stays what it is. -/
theorem Pushes.keeps {o : Interface δ × Progress Buffer (Except (Rejected Buffer) Unit)}
    (hpush : i.Pushes d frame o) : i.SameLink o.1 ∧ o.1.Sound := by
  cases hpush with
  | refused holding => exact ⟨holding.same, holding.sound⟩
  | asleep holding => exact ⟨holding.same, holding.sound⟩
  | queued holding => exact ⟨holding.same, holding.sound⟩

theorem Sound.beginPush (hi : i.Sound) (d : Direction) (frame : Buffer) (waits : Bool) :
    i.Pushes d frame (i.beginPush d frame waits) := by
  unfold Interface.beginPush
  obtain ⟨-, hp⟩ | ⟨-, -, ⟨-, hp⟩ | ⟨-, q, hp, hq, -⟩⟩ | ⟨-, -, q, hp, hq⟩ :=
    (hi d).beginPush_cases frame waits <;> rw [hp]
  · exact .refused ((hi.setQueue (hi d)).recordPush _ _)
  · exact .refused ((hi.setQueue (hi d)).recordPush _ _)
  · exact .asleep (hi.setQueue hq)
  · exact .queued ((hi.setQueue hq).recordPush _ _)

theorem Sound.wakePush (hi : i.Sound) (d : Direction) (frame : Buffer) :
    i.Pushes d frame (i.wakePush d frame) := by
  unfold Interface.wakePush
  obtain ⟨q, hp, hq⟩ | ⟨q, hp, hq⟩ | ⟨q, hp, hq⟩ := (hi d).wakePush_cases frame <;> rw [hp]
  · exact .refused ((hi.setQueue hq).recordPush _ _)
  · exact .asleep (hi.setQueue hq)
  · exact .queued ((hi.setQueue hq).recordPush _ _)

theorem Sound.expirePush (hi : i.Sound) (d : Direction) (frame : Buffer) :
    i.Pushes d frame ((i.expirePush d frame).1, .done (i.expirePush d frame).2) := by
  unfold Interface.expirePush
  obtain ⟨-, q, hp, hq⟩ | ⟨-, -, q, hp, hq⟩ | ⟨-, -, q, hp, hq⟩ :=
    (hi d).expirePush_cases frame <;> rw [hp]
  · exact .refused ((hi.setQueue hq).recordPush _ _)
  · exact .refused ((hi.setQueue hq).recordPush _ _)
  · exact .queued ((hi.setQueue hq).recordPush _ _)

/-- The oldest received frame is taken, if there is one. -/
theorem Sound.takeRx_cases (hi : i.Sound) :
    (i.frames .rx = [] ∧ (∀ f, i.takeRx.2 ≠ .ok (some f)) ∧ i.Holding i.takeRx.1 .rx []) ∨
    ∃ frame rest, i.frames .rx = frame :: rest ∧ i.takeRx.2 = .ok (some frame) ∧
      i.Holding i.takeRx.1 .rx rest := by
  have hset : ∀ {q : Fifo Buffer} {ys : List Buffer}, q.Holds ys →
      i.Holding ({ i with rx := q } : Interface δ) .rx ys := fun hq => hi.setQueue (d := .rx) hq
  have hrx : i.rx.Holds (i.frames .rx) := hi .rx
  unfold takeRx
  obtain ⟨hd, ht⟩ | ⟨-, hn, ht⟩ | ⟨x, ys, q, heq, ht, hq⟩ := hrx.take_cases
  · have hn : i.frames .rx = [] := hrx.destroyed hd
    rw [ht]
    refine .inl ⟨hn, by rintro f ⟨⟩, ?_⟩
    rw [hn] at hrx
    exact hset hrx
  · rw [ht]
    refine .inl ⟨hn, by rintro f ⟨⟩, ?_⟩
    rw [hn] at hrx
    exact hset hrx
  · rw [ht]
    exact .inr ⟨x, ys, heq, rfl, hset hq⟩

/-! ## The driver -/

/-- What is built: an interface that is not registered and is down, with two new queues. -/
theorem eq_of_build {spec : InterfaceSpec} {driver : δ} (h : build spec driver = .ok i) :
    ∃ tx rx, Fifo.new spec.txQueueLen = .ok tx ∧ Fifo.new spec.rxQueueLen = .ok rx ∧
      i = { index := unregistered, name := spec.name, mtu := spec.mtu
            minHeaderLen := spec.minHeaderLen, address := spec.address
            driver := driver, tx := tx, rx := rx } := by
  unfold build at h
  split at h
  · cases h
  · obtain ⟨tx, htx, h⟩ := bind_eq_ok_iff.1 h
    obtain ⟨rx, hrx, h⟩ := bind_eq_ok_iff.1 h
    exact ⟨tx, rx, htx, hrx, (Except.ok.inj h).symm⟩

/-- An interface without frames is built. -/
theorem sound_build {spec : InterfaceSpec} {driver : δ} (h : build spec driver = .ok i) :
    i.Sound := by
  obtain ⟨tx, rx, htx, hrx, rfl⟩ := eq_of_build h
  have hholds : ∀ {n : Nat} {q : Fifo Buffer}, Fifo.new n = .ok q → q.Holds q.toList := by
    intro n q hq
    have hq := Fifo.holds_new hq
    rw [hq.toList]
    exact hq
  intro d
  cases d with
  | tx => exact hholds htx
  | rx => exact hholds hrx

theorem frames_build {spec : InterfaceSpec} {driver : δ} (h : build spec driver = .ok i)
    (d : Direction) : i.frames d = [] := by
  obtain ⟨tx, rx, htx, hrx, rfl⟩ := eq_of_build h
  cases d with
  | tx => exact (Fifo.holds_new htx).toList
  | rx => exact (Fifo.holds_new hrx).toList

theorem counters_build {spec : InterfaceSpec} {driver : δ} (h : build spec driver = .ok i) :
    i.counters = {} := by
  obtain ⟨tx, rx, -, -, rfl⟩ := eq_of_build h
  rfl

theorem index_build {spec : InterfaceSpec} {driver : δ} (h : build spec driver = .ok i) :
    i.index = unregistered := by
  obtain ⟨tx, rx, -, -, rfl⟩ := eq_of_build h
  rfl

variable [LinkDriver δ]

/-- Work of the driver leaves the queues alone. -/
theorem transmit_same (i : Interface δ) (frame : Buffer) :
    i.SameLink (i.transmit frame).1 ∧ ∀ d, (i.transmit frame).1.queue d = i.queue d := by
  unfold transmit recordTx
  dsimp only
  split <;> exact ⟨⟨rfl, rfl, rfl, rfl⟩, fun d => by cases d <;> rfl⟩

theorem bringUp_same (i : Interface δ) :
    i.SameLink i.bringUp.1 ∧ ∀ d, i.bringUp.1.queue d = i.queue d := by
  unfold bringUp
  split <;> exact ⟨⟨rfl, rfl, rfl, rfl⟩, fun d => by cases d <;> rfl⟩

theorem Sound.takeDown (hi : i.Sound) : i.SameLink i.takeDown.1 ∧ i.takeDown.1.Sound := by
  refine ⟨⟨rfl, rfl, rfl, rfl⟩, ?_⟩
  have hdrained : ∀ d, (Fifo.drain (i.queue d)).1.Holds (Fifo.drain (i.queue d)).1.toList := by
    intro d
    have hq := (hi d).drain.2
    rw [hq.toList]
    exact hq
  intro d
  cases d with
  | tx => exact hdrained .tx
  | rx => exact hdrained .rx

/-- Flushing gives every frame to the driver. -/
theorem Sound.flushTx (hi : i.Sound) : i.Holding i.flushTx.1 .tx [] := by
  have hempty : i.Holding ({ i with tx := (Fifo.drain i.tx).1 } : Interface δ) .tx [] :=
    hi.setQueue (d := .tx) (hi .tx).drain.2
  have hsend : ∀ (j : Interface δ) (frame : Buffer), i.Holding j .tx [] →
      i.Holding (j.transmit frame).1 .tx [] := by
    intro j frame hj
    obtain ⟨hsame, hqueue⟩ := transmit_same j frame
    refine ⟨hj.same.trans hsame, hj.sound.of_queues hqueue, ?_, fun d hd => ?_⟩
    · rw [frames, hqueue]
      exact hj.here
    · rw [frames, hqueue]
      exact hj.there d hd
  -- the frames are sent one after the other, and nobody looks at the queue again
  refine List.foldlRecOn _ _ (motive := fun acc : Interface δ × Nat => i.Holding acc.1 .tx [])
    hempty ?_
  intro acc hacc frame _
  have hnext := hsend acc.1 frame hacc
  dsimp only
  split <;> rename_i hq <;> rw [hq] at hnext <;> exact hnext

end Interface

/-! ## Interfaces by their numbers -/

namespace Registry

variable {δ : Type} {r : Registry δ} {index k : Nat} {i : Interface δ}

theorem index_of_byIndex (h : r.byIndex k = some i) : i.index = k := by
  have hfound := List.find?_some h
  rwa [beq_iff_eq] at hfound

theorem mem_of_byIndex (h : r.byIndex k = some i) : i ∈ r.interfaces :=
  List.mem_of_find?_eq_some h

/-- Changing an interface changes what is found under its number. -/
theorem byIndex_modify {f : Interface δ → Interface δ}
    (hf : ∀ i, i.index = index → (f i).index = index) :
    (r.modify index f).byIndex k = if k = index then (r.byIndex k).map f else r.byIndex k := by
  unfold byIndex modify
  dsimp only
  induction r.interfaces with
  | nil => simp
  | cons i rest ih =>
    rw [List.map_cons, List.find?_cons, List.find?_cons]
    by_cases hi : i.index = index
    · rw [if_pos (by rw [beq_iff_eq]; exact hi), hf i hi]
      by_cases hk : k = index
      · subst hk
        rw [hi]
        simp
      · have hne : (index == k) = false := by
          rw [beq_eq_false_iff_ne]
          exact fun h => hk h.symm
        rw [hi, hne, ih]
    · rw [if_neg (by rw [beq_iff_eq]; exact hi)]
      by_cases hk : i.index = k
      · have hne : k ≠ index := fun h => hi (hk.trans h)
        rw [show (i.index == k) = true by rw [beq_iff_eq]; exact hk, if_neg hne]
      · rw [beq_eq_false_iff_ne.2 hk, ih]

/-- There is nothing to change under a number that nobody has. -/
theorem modify_of_none (h : r.byIndex index = none) (f : Interface δ → Interface δ) :
    r.modify index f = r := by
  unfold modify
  have hsame : r.interfaces.map (fun i => if i.index == index then f i else i) =
      r.interfaces.map id := by
    refine List.map_congr_left fun i hi => ?_
    rw [if_neg (by simpa using List.find?_eq_none.1 h i hi)]
    rfl
  rw [hsame, List.map_id]

/-! ## What a registry keeps -/

/-- Every interface that is registered stays so, and all are sound. -/
structure Keeps (r r' : Registry δ) : Prop where
  sound : ∀ j ∈ r'.interfaces, j.Sound
  link : ∀ k i, r.byIndex k = some i → ∃ j, r'.byIndex k = some j ∧ i.SameLink j

variable {r' : Registry δ}

theorem Keeps.refl (hr : ∀ i ∈ r.interfaces, i.Sound) : r.Keeps r :=
  ⟨hr, fun _ i hi => ⟨i, hi, .refl i⟩⟩

theorem Keeps.trans {r'' : Registry δ} (h₁ : r.Keeps r') (h₂ : r'.Keeps r'') : r.Keeps r'' := by
  refine ⟨h₂.sound, fun k i hi => ?_⟩
  obtain ⟨j, hj, hij⟩ := h₁.link k i hi
  obtain ⟨l, hl, hjl⟩ := h₂.link k j hj
  exact ⟨l, hl, hij.trans hjl⟩

/-- The interfaces are changed one by one. -/
theorem keeps_of_forall₂
    (h : List.Forall₂ (fun i j : Interface δ => i.SameLink j ∧ j.Sound) r.interfaces
      r'.interfaces) : r.Keeps r' := by
  obtain ⟨xs, n⟩ := r
  obtain ⟨ys, n'⟩ := r'
  dsimp only at h
  constructor
  · show ∀ j ∈ ys, j.Sound
    induction h with
    | nil => rintro j ⟨⟩
    | cons hxy _ ih => exact List.forall_mem_cons.2 ⟨hxy.2, ih⟩
  · intro k
    unfold byIndex
    dsimp only
    induction h with
    | nil => rintro i ⟨⟩
    | @cons x y xs ys hxy _ ih =>
      intro i hi
      rw [List.find?_cons] at hi ⊢
      rw [hxy.1.index]
      split at hi
      · obtain rfl := Option.some.inj hi
        exact ⟨y, rfl, hxy.1⟩
      · exact ih i hi

/-- Each interface is changed in the same way. -/
theorem keeps_map {f : Interface δ → Interface δ}
    (hf : ∀ i ∈ r.interfaces, i.SameLink (f i) ∧ (f i).Sound) :
    r.Keeps { r with interfaces := r.interfaces.map f } := by
  refine keeps_of_forall₂ ?_
  rw [List.forall₂_map_right_iff, List.forall₂_same]
  exact hf

theorem keeps_modify {f : Interface δ → Interface δ} (hr : ∀ i ∈ r.interfaces, i.Sound)
    (hindex : ∀ i, i.index = index → (f i).index = index)
    (hsame : ∀ i, r.byIndex index = some i → i.SameLink (f i))
    (hsound : ∀ i ∈ r.interfaces, (f i).Sound) : r.Keeps (r.modify index f) := by
  constructor
  · intro j hj
    obtain ⟨i, hi, rfl⟩ := List.mem_map.1 hj
    split
    · exact hsound i hi
    · exact hr i hi
  · intro k i hi
    rw [byIndex_modify hindex]
    by_cases hk : k = index
    · subst hk
      rw [if_pos rfl, hi]
      exact ⟨f i, rfl, hsame i hi⟩
    · rw [if_neg hk]
      exact ⟨i, hi, .refl i⟩

/-- A new interface comes behind the others. -/
theorem keeps_register (hr : ∀ i ∈ r.interfaces, i.Sound) (hi : i.Sound) :
    r.Keeps (r.register i).1 := by
  unfold register
  split
  · exact .refl hr
  · refine ⟨?_, fun k i' hi' => ⟨i', ?_, .refl i'⟩⟩
    · intro j hj
      obtain hj | hj := List.mem_append.1 hj
      · exact hr j hj
      · rw [List.mem_singleton.1 hj]
        exact hi.of_queues fun d => by cases d <;> rfl
    · show List.find? _ (r.interfaces ++ [_]) = some i'
      rw [List.find?_append, show r.interfaces.find? _ = some i' from hi']
      rfl

variable [LinkDriver δ]

theorem keeps_bringUpAll (hr : ∀ i ∈ r.interfaces, i.Sound) : r.Keeps r.bringUpAll.1 := by
  refine keeps_of_forall₂ ?_
  show List.Forall₂ _ r.interfaces (bringUpEach r.interfaces).1
  generalize r.interfaces = xs at hr
  have hup : ∀ i : Interface δ, i.Sound → i.SameLink i.bringUp.1 ∧ i.bringUp.1.Sound :=
    fun i hi => ⟨(Interface.bringUp_same i).1, hi.of_queues (Interface.bringUp_same i).2⟩
  have hrest : ∀ ys : List (Interface δ), (∀ i ∈ ys, i.Sound) →
      List.Forall₂ (fun i j : Interface δ => i.SameLink j ∧ j.Sound) ys ys :=
    fun ys hys => List.forall₂_same.2 fun i hi => ⟨.refl i, hys i hi⟩
  induction xs with
  | nil => exact .nil
  | cons i xs ih =>
    have hi := hup i (hr i List.mem_cons_self)
    have hxs : ∀ j ∈ xs, j.Sound := fun j hj => hr j (List.mem_cons_of_mem i hj)
    unfold bringUpEach
    split <;> rename_i hq <;> rw [hq] at hi
    · -- those behind the one that fails are left alone
      exact .cons hi (hrest xs hxs)
    · exact .cons hi (ih hxs)

theorem keeps_takeDownAll (hr : ∀ i ∈ r.interfaces, i.Sound) : r.Keeps r.takeDownAll :=
  keeps_map fun i hi => (hr i hi).takeDown

theorem keeps_flushTx (hr : ∀ i ∈ r.interfaces, i.Sound) (index : Nat) :
    r.Keeps (r.modify index fun i => i.flushTx.1) := by
  refine keeps_map fun i hi => ?_
  split
  · exact ⟨(hr i hi).flushTx.same, (hr i hi).flushTx.sound⟩
  · exact ⟨.refl i, hr i hi⟩

end Registry

end Netstack
