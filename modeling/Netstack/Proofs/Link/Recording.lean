import Netstack.Proofs.Link.Frames

/-
What a driver is called for.

A driver is a value, and from the value alone nobody can tell what it was called for: one that
keeps nothing in mind looks the same after any number of callbacks. So a driver is put beside a
record of its callbacks, in their order and with what each came to (`Recorded`). An interface
does not notice the record. It works in the same way with any two drivers of which one stands for
the other (`DriverMap`), and a recorded driver stands for the driver itself.
-/

set_option autoImplicit false

namespace Netstack

/-- A callback of a driver, and what it came to. -/
inductive Callback
  | bringUp (result : Except Error Unit)
  | takeDown (result : Except Error Unit)
  | transmit (frame : List UInt8) (result : Except Error Unit)

/-- Whether the driver was given a frame. -/
def Callback.isTransmit : Callback → Bool
  | transmit _ _ => true
  | bringUp _ | takeDown _ => false

/-- A driver, and the callbacks that were made so far, oldest first. -/
structure Recorded (δ : Type) where
  driver : δ
  record : List Callback := []

/-- The callbacks that gave the driver a frame. -/
def Recorded.transmits {δ : Type} (l : Recorded δ) : List Callback :=
  l.record.filter Callback.isTransmit

variable {δ ε : Type} [LinkDriver δ] [LinkDriver ε]

/-- A callback was made: the driver as it is afterwards, and the result. -/
def Recorded.called (l : Recorded δ) (callback : Except Error Unit → Callback)
    (outcome : δ × Except Error Unit) : Recorded δ × Except Error Unit :=
  (⟨outcome.1, l.record ++ [callback outcome.2]⟩, outcome.2)

instance : LinkDriver (Recorded δ) where
  bringUp l := l.called .bringUp (LinkDriver.bringUp l.driver)
  takeDown l := l.called .takeDown (LinkDriver.takeDown l.driver)
  transmit l frame := l.called (.transmit frame) (LinkDriver.transmit l.driver frame)

/-- Drivers of one kind stand for drivers of another kind, and answer as those do. -/
structure DriverMap (f : δ → ε) : Prop where
  bringUp : ∀ l, LinkDriver.bringUp (f l) = (LinkDriver.bringUp l).map f id
  takeDown : ∀ l, LinkDriver.takeDown (f l) = (LinkDriver.takeDown l).map f id
  transmit : ∀ l frame, LinkDriver.transmit (f l) frame = (LinkDriver.transmit l frame).map f id

theorem driverMap_driver : DriverMap fun l : Recorded δ => l.driver :=
  ⟨fun _ => rfl, fun _ => rfl, fun _ _ => rfl⟩

namespace Interface

omit [LinkDriver δ] [LinkDriver ε] in
/-- The same interface with another driver. -/
def mapDriver (f : δ → ε) (i : Interface δ) : Interface ε :=
  { index := i.index, name := i.name, mtu := i.mtu, minHeaderLen := i.minHeaderLen
    address := i.address, up := i.up, driver := f i.driver, tx := i.tx, rx := i.rx
    counters := i.counters }

/-- The interface with the callbacks of its driver recorded from now on. -/
def recording (i : Interface δ) : Interface (Recorded δ) := i.mapDriver (⟨·, []⟩)

/-- The interface without the record. -/
def unrecorded (i : Interface (Recorded δ)) : Interface δ := i.mapDriver (·.driver)

omit [LinkDriver δ] in
theorem unrecorded_recording (i : Interface δ) : i.recording.unrecorded = i := rfl

section Undriven

variable (f : δ → ε) (i : Interface δ)

omit [LinkDriver δ] [LinkDriver ε]

theorem queue_mapDriver (d : Direction) : (i.mapDriver f).queue d = i.queue d := by
  cases d <;> rfl

theorem setQueue_mapDriver (q : Fifo Buffer) (d : Direction) :
    (i.mapDriver f).setQueue q d = (i.setQueue q d).mapDriver f := by
  cases d <;> rfl

theorem recordPush_mapDriver (d : Direction) (frame : Buffer)
    (result : Except (Rejected Buffer) Unit) :
    (i.mapDriver f).recordPush d frame result = (i.recordPush d frame result).mapDriver f := by
  unfold recordPush
  split <;> rfl

/-- Nobody asks the driver when a frame is queued. -/
theorem push_mapDriver (d : Direction) (frame : Buffer) (timeout : Timeout) :
    (i.mapDriver f).push d frame timeout =
      ((i.push d frame timeout).1.mapDriver f, (i.push d frame timeout).2) := by
  unfold push beginPush expirePush
  rw [queue_mapDriver]
  generalize (i.queue d).beginPush frame timeout.waits = o
  obtain ⟨q, result | frame⟩ := o
  · dsimp only
    rw [setQueue_mapDriver, recordPush_mapDriver]
  · dsimp only
    rw [setQueue_mapDriver, queue_mapDriver, setQueue_mapDriver, recordPush_mapDriver]

end Undriven

/-! ## With drivers that answer the same -/

variable {f : δ → ε}

theorem bringUp_mapDriver (hf : DriverMap f) (i : Interface δ) :
    (i.mapDriver f).bringUp = (i.bringUp.1.mapDriver f, i.bringUp.2) := by
  unfold bringUp
  rw [show (i.mapDriver f).driver = f i.driver from rfl, hf.bringUp]
  generalize LinkDriver.bringUp i.driver = o
  obtain ⟨driver, e | u⟩ := o <;> rfl

theorem takeDown_mapDriver (hf : DriverMap f) (i : Interface δ) :
    (i.mapDriver f).takeDown = (i.takeDown.1.mapDriver f, i.takeDown.2) := by
  unfold takeDown
  rw [show (i.mapDriver f).driver = f i.driver from rfl, hf.takeDown]
  rfl

end Interface

end Netstack
