import Mathlib.Data.List.TakeWhile
import Netstack.Proofs.Link.Recording
import Netstack.Proofs.Stack.Inputs

/-
Starts that fail.

A start opens the interfaces one after the other, and can fail at each of them and at the thread
for the core. What a driver was called for is recorded, so that it can be said whether a driver
that was opened was closed again (`Recorded.Released`) and a start that failed left everything as
it was (`Stack.Undone`). It does so exactly if no interface came up before the failure
(`Stack.start_all_or_nothing_iff`): the interfaces that did stay open, with no core that serves
them, and a stack that does not run has nothing to shut down.
-/

set_option autoImplicit false

namespace Netstack

variable {δ ε : Type}

/-- After each time that the driver was opened it was closed again. -/
def Recorded.Released (l : Recorded δ) : Prop :=
  ∀ earlier later, l.record = earlier ++ .bringUp (.ok ()) :: later →
    ∃ result, .takeDown result ∈ later

/-! ## Drivers and records of a whole stack -/

/-- The same interfaces with other drivers. -/
def Registry.mapDriver (f : δ → ε) (r : Registry δ) : Registry ε :=
  { interfaces := r.interfaces.map (·.mapDriver f), nextIndex := r.nextIndex }

/-- The same stack with other drivers. -/
def Stack.mapDriver (f : δ → ε) (s : Stack δ) : Stack ε :=
  { config := s.config, addr := s.addr, pool := s.pool, interfaces := s.interfaces.mapDriver f
    routes := s.routes, events := s.events, running := s.running, draining := s.draining }

/-- The stack with the callbacks of all drivers recorded from now on. -/
def Stack.recording (s : Stack δ) : Stack (Recorded δ) := s.mapDriver (⟨·, []⟩)

/-- The stack without the records. -/
def Stack.unrecorded (s : Stack (Recorded δ)) : Stack δ := s.mapDriver (·.driver)

theorem Stack.unrecorded_recording (s : Stack δ) : s.recording.unrecorded = s := by
  have hall : (s.interfaces.interfaces.map Interface.recording).map Interface.unrecorded =
      s.interfaces.interfaces := by
    rw [List.map_map]
    exact List.map_id _
  exact congrArg (fun interfaces =>
    ({ s with interfaces := { s.interfaces with interfaces := interfaces } } : Stack δ)) hall

variable [LinkDriver δ] [LinkDriver ε]

theorem Registry.bringUpEach_mapDriver {f : δ → ε} (hf : DriverMap f) (xs : List (Interface δ)) :
    bringUpEach (xs.map (·.mapDriver f)) =
      ((bringUpEach xs).1.map (·.mapDriver f), (bringUpEach xs).2) := by
  induction xs with
  | nil => rfl
  | cons i rest ih =>
    rw [List.map_cons]
    unfold bringUpEach
    rw [Interface.bringUp_mapDriver hf]
    generalize i.bringUp = o
    obtain ⟨j, e | u⟩ := o
    · rfl
    · dsimp only
      rw [ih]
      rfl

/-- A start does not notice what drivers keep in mind. -/
theorem Stack.startOn_mapDriver {f : δ → ε} (hf : DriverMap f) (s : Stack δ)
    (thread : Except Error Unit) :
    (s.mapDriver f).startOn thread =
      ((s.startOn thread).1.mapDriver f, (s.startOn thread).2) := by
  have heach := Registry.bringUpEach_mapDriver hf s.interfaces.interfaces
  unfold startOn Registry.bringUpAll
  rw [show (s.mapDriver f).interfaces.interfaces = s.interfaces.interfaces.map (·.mapDriver f)
    from rfl, heach]
  generalize Registry.bringUpEach s.interfaces.interfaces = o
  rw [show (s.mapDriver f).running = s.running from rfl]
  obtain ⟨xs, e | u⟩ := o
  · split <;> rfl
  · split
    · rfl
    · cases thread <;> rfl

/-! ## Opening interfaces -/

namespace Interface

/-- Whether the driver opens when it is asked. -/
def comesUp (i : Interface δ) : Bool := (LinkDriver.bringUp i.driver).2.isOk

theorem comesUp_iff {i : Interface δ} :
    i.comesUp = true ↔ (LinkDriver.bringUp i.driver).2 = .ok () := by
  unfold comesUp
  generalize (LinkDriver.bringUp i.driver).2 = result
  cases result with
  | ok u => exact iff_of_true rfl rfl
  | error e => exact iff_of_false nofun nofun

/-- A driver is called once, and the interface is up if it opens. -/
theorem bringUp_recording (i : Interface δ) :
    i.recording.bringUp =
      ({ i.recording with
         driver := ⟨(LinkDriver.bringUp i.driver).1, [.bringUp (LinkDriver.bringUp i.driver).2]⟩
         up := i.comesUp || i.up }, (LinkDriver.bringUp i.driver).2) := by
  unfold bringUp comesUp
  rw [show LinkDriver.bringUp i.recording.driver =
    Recorded.called ⟨i.driver, []⟩ .bringUp (LinkDriver.bringUp i.driver) from rfl]
  generalize LinkDriver.bringUp i.driver = o
  obtain ⟨driver, e | u⟩ := o <;> rfl

theorem bringUp_of_comesUp {i : Interface δ} (h : i.comesUp = true) :
    i.recording.bringUp.2 = .ok () ∧ i.recording.bringUp.1.up = true ∧
      i.recording.bringUp.1.driver.record = [.bringUp (.ok ())] := by
  rw [bringUp_recording, h, comesUp_iff.1 h]
  exact ⟨rfl, rfl, rfl⟩

theorem bringUp_of_not_comesUp {i : Interface δ} (h : i.comesUp = false) :
    ∃ e, i.recording.bringUp.2 = .error e ∧ i.recording.bringUp.1.up = i.up ∧
      i.recording.bringUp.1.driver.record = [.bringUp (.error e)] := by
  rw [bringUp_recording, h]
  cases hresult : (LinkDriver.bringUp i.driver).2 with
  | ok u =>
    rw [comesUp_iff.2 hresult] at h
    cases h
  | error e => exact ⟨e, rfl, rfl, rfl⟩

end Interface

open Interface in
/-- Every interface comes up, or one fails and nobody asks those behind it. -/
theorem Registry.bringUpEach_cases (xs : List (Interface δ)) :
    (xs.takeWhile comesUp = xs ∧
      bringUpEach (xs.map recording) = (xs.map (·.recording.bringUp.1), .ok ())) ∨
    ∃ opened i later e, xs = opened ++ i :: later ∧ xs.takeWhile comesUp = opened ∧
      i.comesUp = false ∧
      bringUpEach (xs.map recording) =
        (opened.map (·.recording.bringUp.1) ++ i.recording.bringUp.1 :: later.map recording,
          .error e) := by
  induction xs with
  | nil => exact .inl ⟨rfl, rfl⟩
  | cons i rest ih =>
    cases hup : i.comesUp with
    | false =>
      obtain ⟨e, hresult, -, -⟩ := bringUp_of_not_comesUp hup
      refine .inr ⟨[], i, rest, e, rfl, List.takeWhile_cons_of_neg (by simp [hup]), hup, ?_⟩
      rw [List.map_cons, bringUpEach, ← Prod.eta i.recording.bringUp, hresult]
      rfl
    | true =>
      have hstep : bringUpEach ((i :: rest).map recording) =
          (i.recording.bringUp.1 :: (bringUpEach (rest.map recording)).1,
            (bringUpEach (rest.map recording)).2) := by
        rw [List.map_cons, bringUpEach, ← Prod.eta i.recording.bringUp,
          (bringUp_of_comesUp hup).1]
      rw [hstep, List.takeWhile_cons_of_pos hup]
      obtain ⟨hall, heach⟩ | ⟨opened, j, later, e, rfl, hopened, hj, heach⟩ := ih
      · rw [hall, heach]
        exact .inl ⟨rfl, rfl⟩
      · rw [hopened, heach]
        exact .inr ⟨i :: opened, j, later, e, rfl, rfl, hj, rfl⟩

namespace Stack

/-- Interfaces are up as they were before, and the drivers that were opened were closed again. -/
structure Undone (before : List (Interface δ)) (after : List (Interface (Recorded δ))) : Prop where
  flags : after.map (·.up) = before.map (·.up)
  closed : ∀ i ∈ after, i.driver.Released

/-- What a start that fails leaves behind. The stack does not run, so that nothing can be shut
down, and is as before but for its interfaces. Those that came up are up, and nobody closed their
drivers. -/
structure Abandons (s : Stack δ) (opened : List (Interface δ)) (t : Stack (Recorded δ)) : Prop where
  rest : t = { s.recording with interfaces := t.interfaces }
  idle : t.running = false
  stuck : t.shutdown = t
  kept : ∀ i ∈ t.interfaces.all.take opened.length,
    i.up = true ∧ i.driver.record = [.bringUp (.ok ())]
  undone_iff : Undone s.interfaces.all t.interfaces.all ↔ opened = []

variable {s : Stack δ} {opened : List (Interface δ)} {rest : List (Interface (Recorded δ))}

/-- The stack whose interfaces the recorded start has left like this. -/
def left (s : Stack δ) (interfaces : List (Interface (Recorded δ))) : Stack (Recorded δ) :=
  { s.recording with interfaces := { s.recording.interfaces with interfaces := interfaces } }

theorem abandons_left (hidle : s.running = false) (hup : ∀ i ∈ opened, i.comesUp = true)
    (hrest : opened = [] → Undone s.interfaces.all rest) :
    s.Abandons opened (s.left (opened.map (·.recording.bringUp.1) ++ rest)) := by
  refine ⟨rfl, hidle, if_neg (by rw [show (s.left _).running = _ from hidle]; simp), ?_, ?_⟩
  · intro j hj
    have htake : j ∈ (opened.map (·.recording.bringUp.1) ++ rest).take opened.length := hj
    rw [List.take_left' (List.length_map _)] at htake
    obtain ⟨i, hi, rfl⟩ := List.mem_map.1 htake
    exact (Interface.bringUp_of_comesUp (hup i hi)).2
  · constructor
    · intro hundone
      cases opened with
      | nil => rfl
      | cons i others =>
        -- the first driver was opened, and was not called again
        have hmem : i.recording.bringUp.1 ∈
            (s.left ((i :: others).map (·.recording.bringUp.1) ++ rest)).interfaces.all :=
          List.mem_cons_self
        have hrecord := (Interface.bringUp_of_comesUp (hup i List.mem_cons_self)).2.2
        obtain ⟨result, hnone⟩ := hundone.closed _ hmem [] [] hrecord
        cases hnone
    · rintro rfl
      exact hrest rfl

omit [LinkDriver δ] in
/-- Drivers that were not called were not opened. -/
theorem undone_recording (xs : List (Interface δ)) : Undone xs (xs.map Interface.recording) := by
  refine ⟨?_, fun j hj earlier later hrecord => ?_⟩
  · rw [List.map_map]
    rfl
  · obtain ⟨i, -, rfl⟩ := List.mem_map.1 hj
    cases earlier <;> cases hrecord

/-- A start comes to one of three: everything comes up and there is a thread, or there is none, or
an interface does not come up. -/
theorem startOn_cases (hidle : s.running = false) (thread : Except Error Unit) :
    (s.interfaces.all.takeWhile (·.comesUp) = s.interfaces.all ∧ thread = .ok () ∧
      s.recording.startOn thread =
        ({ s.left (s.interfaces.all.map (·.recording.bringUp.1)) with running := true },
          .ok ())) ∨
    (∃ e, s.interfaces.all.takeWhile (·.comesUp) = s.interfaces.all ∧ thread = .error e ∧
      s.recording.startOn thread =
        (s.left (s.interfaces.all.map (·.recording.bringUp.1)), .error e)) ∨
    ∃ (opened later : List (Interface δ)) (i : Interface δ) (e : Error),
      s.interfaces.all = opened ++ i :: later ∧
      s.interfaces.all.takeWhile (·.comesUp) = opened ∧ i.comesUp = false ∧
      s.recording.startOn thread =
        (s.left (opened.map (·.recording.bringUp.1) ++
          i.recording.bringUp.1 :: later.map (·.recording)), .error e) := by
  have hidle' : ¬ s.recording.running = true := by
    rw [show s.recording.running = s.running from rfl, hidle]
    simp
  unfold startOn Registry.bringUpAll
  rw [if_neg hidle',
    show s.recording.interfaces.interfaces = s.interfaces.all.map (·.recording) from rfl]
  obtain ⟨hall, heach⟩ | ⟨opened, i, later, e, hsplit, hopened, hi, heach⟩ :=
    Registry.bringUpEach_cases s.interfaces.all <;> rw [heach]
  · cases thread with
    | ok u => exact .inl ⟨hall, rfl, rfl⟩
    | error e => exact .inr (.inl ⟨e, hall, rfl, rfl⟩)
  · exact .inr (.inr ⟨opened, later, i, e, hsplit, hopened, hi, rfl⟩)

/-- Whether a start succeeds, and what it leaves behind. It succeeds if every interface comes up
and there is a thread. If it fails, everything is undone exactly if no interface came up before. -/
theorem start_all_or_nothing_iff (s : Stack δ) (hidle : s.running = false)
    (thread : Except Error Unit) :
    let result := (s.startOn thread).2
    let t := (s.recording.startOn thread).1
    let opened := s.interfaces.all.takeWhile (·.comesUp)
    t.unrecorded = (s.startOn thread).1 ∧
      (result = .ok () ↔ opened = s.interfaces.all ∧ thread = .ok ()) ∧
      (result = .ok () → t.running = true ∧ ∀ i ∈ t.interfaces.all, i.up = true) ∧
      ∀ e, result = .error e → s.Abandons opened t := by
  intro result t opened
  have hmap := startOn_mapDriver driverMap_driver s.recording thread
  rw [show s.recording.mapDriver (·.driver) = s from s.unrecorded_recording] at hmap
  have hresult : result = (s.recording.startOn thread).2 := congrArg (·.2) hmap
  have hup : ∀ i ∈ opened, i.comesUp = true := fun i hi => List.mem_takeWhile_imp hi
  refine ⟨(congrArg (·.1) hmap).symm, ?_⟩
  have hcases := startOn_cases hidle thread
  rw [show s.interfaces.all.takeWhile (·.comesUp) = opened from rfl] at hcases
  clear_value opened
  obtain ⟨hall, rfl, hstart⟩ | ⟨e, hall, rfl, hstart⟩ |
    ⟨_, later, i, e, hsplit, rfl, hi, hstart⟩ := hcases <;>
    rw [hresult, show t = _ from congrArg (·.1) hstart, hstart]
  · refine ⟨iff_of_true rfl ⟨hall, rfl⟩, fun _ => ⟨rfl, fun j hj => ?_⟩, fun _ => nofun⟩
    obtain ⟨i, hi, rfl⟩ := List.mem_map.1 hj
    rw [← hall] at hi
    exact (Interface.bringUp_of_comesUp (hup i hi)).2.1
  · have hleft : s.Abandons opened (s.left (opened.map (·.recording.bringUp.1) ++ [])) := by
      refine abandons_left hidle hup fun hnil => ?_
      rw [← hall, hnil]
      exact undone_recording []
    rw [List.append_nil, hall] at hleft
    rw [hall]
    exact ⟨iff_of_false nofun fun h => (nomatch h.2), nofun, fun _ _ => hleft⟩
  · refine ⟨iff_of_false nofun fun h => ?_, nofun, fun _ _ => abandons_left hidle hup ?_⟩
    · rw [← h.1] at hsplit
      exact absurd hsplit (by simp)
    · rintro rfl
      obtain ⟨e, -, hflag, hrecord⟩ := Interface.bringUp_of_not_comesUp hi
      have hlater := undone_recording later
      rw [hsplit]
      refine ⟨congrArg₂ List.cons hflag hlater.flags, List.forall_mem_cons.2 ⟨?_, hlater.closed⟩⟩
      intro earlier later' hopened
      rw [hrecord] at hopened
      cases earlier <;> simp at hopened

/-- Where the first of two interfaces fails, nothing was opened that had to be closed. -/
theorem start_all_or_nothing_of_first_failure :
    ∃ s₀ : Stack ScriptedLink, new { addr := 0xAE55 } = .ok s₀ ∧
      let s := s₀.perform
        [.register { name := "uart" } { failures := [(.bringUp, .noRoute 1)] },
          .register { name := "radio" } {}]
      s.running = false ∧ (s.startOn (.ok ())).2 = .error (.noRoute 1) ∧
        Undone s.interfaces.all (s.recording.startOn (.ok ())).1.interfaces.all := by
  refine ⟨_, rfl, ?_⟩
  intro s
  have hidle : s.running = false := by decide +kernel
  have hfails : (s.startOn (.ok ())).2 = .error (.noRoute 1) := by decide +kernel
  obtain ⟨-, -, -, hleft⟩ := start_all_or_nothing_iff s hidle (.ok ())
  exact ⟨hidle, hfails, (hleft _ hfails).undone_iff.2 (List.isEmpty_iff.1 (by decide +kernel))⟩

/-- Where the second of two interfaces fails, the first is up from then on, and shutting the stack
down does not close it. -/
theorem start_leaves_interface_up :
    ∃ s₀ : Stack ScriptedLink, new { addr := 0xAE55 } = .ok s₀ ∧
      let s := s₀.perform
        [.register { name := "radio" } {},
          .register { name := "uart" } { failures := [(.bringUp, .noRoute 1)] }]
      let t := s.start.1
      (s.running = false ∧ s.start.2 = .error (.noRoute 1) ∧
        ¬ Undone s.interfaces.all s.recording.start.1.interfaces.all) ∧
      s.interfaces.all.map (·.up) = [false, false] ∧
      t.interfaces.all.map (·.up) = [true, false] ∧ t.running = false ∧
      t.shutdown.interfaces.all.map (·.driver.calls) = [[.bringUp], [.bringUp]] := by
  refine ⟨_, rfl, ⟨by decide +kernel, by decide +kernel, fun h => ?_⟩, by decide +kernel,
    by decide +kernel, by decide +kernel, by decide +kernel⟩
  exact absurd h.flags (by decide +kernel)

end Stack

end Netstack
