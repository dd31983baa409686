import Netstack.Proofs.Stack.Sends

/-
Runs of a stack: whatever its callers, its drivers and its core do, in any order.

A call that waits is made in pieces, and anybody may come between two of them, so each piece
is a step of its own. So is each frame that the core takes. Who has a queue, an event group
or an interface in his hands may do with it whatever can be done with one. Nothing is asked of
the order of the steps, the table of routes may change in any way at all, and the core's queue
may come to stand for any events. So what a program can bring about is among the runs, and
more: what the pieces of the calls and of the core's work do is said to be runs one by one below
(`run_connect` to `run_expire`).

A step keeps every queue sound, and with it the configuration, the address and the interfaces
of a stack (`Step.keeps`), so a run does.
-/

set_option autoImplicit false

namespace Netstack

namespace Config

variable {c c' : Config}

/-- A stack runs with the sizes that it was asked for, and these are valid. -/
theorem of_normalized (h : c.normalized = .ok c') :
    c'.address = c.address ∧ headerLen ≤ c'.bufferHeaderLen := by
  unfold normalized at h
  obtain ⟨_, hvalid, h⟩ := bind_eq_ok_iff.1 h
  obtain rfl := Except.ok.inj h
  refine ⟨rfl, ?_⟩
  unfold validate at hvalid
  obtain ⟨_, -, hvalid⟩ := bind_eq_ok_iff.1 hvalid
  obtain ⟨_, -, hvalid⟩ := bind_eq_ok_iff.1 hvalid
  obtain ⟨_, -, hvalid⟩ := bind_eq_ok_iff.1 hvalid
  by_contra hshort
  rw [if_pos (Nat.lt_of_not_le hshort)] at hvalid
  cases hvalid

end Config

namespace Stack

variable {δ : Type} {s t t' u : Stack δ} {index : Nat}

/-- A stack without interfaces has queues for its connections only. -/
theorem of_new {c : Config} (hnew : new c = .ok s) :
    s.Sound ∧ c.address = .ok s.addr ∧ headerLen ≤ s.config.bufferHeaderLen := by
  unfold new at hnew
  obtain ⟨config, hconfig, hnew⟩ := bind_eq_ok_iff.1 hnew
  obtain ⟨addr, haddr, hnew⟩ := bind_eq_ok_iff.1 hnew
  obtain ⟨pool, hpool, hnew⟩ := bind_eq_ok_iff.1 hnew
  obtain ⟨events, hevents, hnew⟩ := bind_eq_ok_iff.1 hnew
  obtain rfl := Except.ok.inj hnew
  obtain ⟨hsame, hroom⟩ := Config.of_normalized hconfig
  exact ⟨⟨by rintro i ⟨⟩, Pool.sound_new hpool, _, Fifo.holds_new hevents⟩, hsame ▸ haddr, hroom⟩

theorem Sound.keeps_pool (hs : s.Sound) {q : Pool} (hq : q.Sound) :
    s.Keeps { s with pool := q } := ⟨rfl, rfl, .refl hs.links, hq, hs.events⟩

theorem Sound.keeps_registry (hs : s.Sound) {r : Registry δ} (hr : s.interfaces.Keeps r)
    (running : Bool) (draining : Option Nat) :
    s.Keeps { s with interfaces := r, running := running, draining := draining } :=
  ⟨rfl, rfl, hr, hs.pool, hs.events⟩

theorem Sound.keeps_registerInterface (hs : s.Sound) {i : Interface δ} (hi : i.Sound) :
    s.Keeps (s.registerInterface i).1 := by
  unfold registerInterface
  split
  · exact hs.keeps
  · exact hs.keeps_registry (Registry.keeps_register hs.links hi) _ _

variable [LinkDriver δ]

/-! ## One step -/

/-- What may happen to a stack. -/
inductive Step : Stack δ → Stack δ → Prop
  /-- an operation on the connections -/
  | pool (s : Stack δ) (op : Pool.Op) : Step s { s with pool := (s.pool.atRest.step op).1.pool }
  /-- a call that sleeps on a connection is resumed with a wake-up -/
  | wakePool (s : Stack δ) (call : Pool.Call) : Step s (s.onPool (·.wake call)).1
  /-- the time of such a call is up -/
  | expirePool (s : Stack δ) (call : Pool.Call) : Step s (s.onPool (·.expire call)).1
  /-- somebody works on the receive queue of a connection -/
  | queue (s : Stack δ) {slot : Nat} {queue queue' : Fifo Buffer} {xs : List Buffer}
      (found : s.pool.inbox slot = some queue) (holds : queue'.Holds xs) :
      Step s { s with pool := s.pool.setQueue slot queue' }
  /-- somebody works on the event group of a connection -/
  | bits (s : Stack δ) (slot : Nat) (group : EventGroup) :
      Step s { s with pool := s.pool.setEvents slot group }
  /-- somebody works on an interface -/
  | link (s : Stack δ) {index : Nat} {i j : Interface δ}
      (found : s.interfaces.byIndex index = some i) (same : i.SameLink j) (sound : j.Sound) :
      Step s (s.modifyLink index fun _ => j)
  /-- routes are offered, and dropped -/
  | routes (s : Stack δ) (routes : RouteTable) : Step s { s with routes := routes }
  /-- the core is told of frames, and takes an event -/
  | events (s : Stack δ) {events : Fifo CoreEvent} {es : List CoreEvent} (holds : events.Holds es)
      (draining : Option Nat) : Step s { s with events := events, draining := draining }
  | register (s : Stack δ) {i : Interface δ} (sound : i.Sound) : Step s (s.registerInterface i).1
  | start (s : Stack δ) : Step s s.start.1
  | shutdown (s : Stack δ) : Step s s.shutdown
  | beginSendTo (s : Stack δ) (h : Handle) (data : List UInt8) (dst : Peer) :
      Step s (s.beginSendTo h data dst).1
  | wakeSend (s : Stack δ) (call : SendCall) : Step s (s.wakeSend call).1
  | expireSend (s : Stack δ) (call : SendCall) : Step s (s.expireSend call).1
  | beginInput (s : Stack δ) (index : Nat) (frame : List UInt8) :
      Step s (s.beginInput index frame).1
  | wakeInput (s : Stack δ) (index : Nat) (frame : Buffer) : Step s (s.wakeInput index frame).1
  | expireInput (s : Stack δ) (index : Nat) (frame : Buffer) :
      Step s (s.expireInput index frame).1
  /-- the core dispatches one received frame -/
  | receive {s t : Stack δ} {index : Nat} (taken : s.receive? index = some t) : Step s t
  /-- the core gives what waits on an interface to its driver -/
  | processTx (s : Stack δ) (index : Nat) : Step s (s.processTx index)

theorem Sound.keeps_start (hs : s.Sound) : s.Keeps s.start.1 := by
  have hup := Registry.keeps_bringUpAll hs.links
  unfold start startOn
  split
  · exact hs.keeps
  · split <;> rename_i hq <;> rw [hq] at hup
    · exact hs.keeps_registry hup _ _
    · exact hs.keeps_registry hup _ _

theorem Sound.keeps_shutdown (hs : s.Sound) : s.Keeps s.shutdown := by
  unfold shutdown
  split
  · exact hs.keeps_registry (Registry.keeps_takeDownAll hs.links) _ _
  · exact hs.keeps

/-- A step keeps a stack sound, with all that never changes about it. -/
theorem Step.keeps (hstep : Step s t) (hs : s.Sound) : s.Keeps t := by
  cases hstep with
  | pool op => exact hs.keeps_pool (hs.pool.step op)
  | wakePool call => exact hs.keeps_pool (hs.pool.wake call)
  | expirePool call => exact hs.keeps_pool (hs.pool.expire call)
  | queue found holds => exact hs.keeps_pool (hs.pool.setQueue found holds)
  | bits slot group => exact hs.keeps_pool ((Pool.sameInboxes_setEvents _ _).sound hs.pool)
  | link found same sound => exact hs.keeps_link found same sound
  | routes routes => exact ⟨rfl, rfl, .refl hs.links, hs.pool, hs.events⟩
  | events holds draining => exact ⟨rfl, rfl, .refl hs.links, hs.pool, _, holds⟩
  | register sound => exact hs.keeps_registerInterface sound
  | start => exact hs.keeps_start
  | shutdown => exact hs.keeps_shutdown
  | beginSendTo h data dst => exact hs.keeps_beginSendTo h data dst
  | wakeSend call => exact (hs.advances_wakeSend call).keeps
  | expireSend call => exact (hs.advances_expireSend call).keeps
  | beginInput index frame => exact hs.keeps_beginInput index frame
  | wakeInput index frame => exact hs.keeps_wakeInput index frame
  | expireInput index frame => exact hs.keeps_expireInput index frame
  | receive taken =>
    obtain ⟨-, hnone⟩ | ⟨_, _, t', -, hsome, hkeeps, -⟩ := hs.receive_cases _
    · rw [hnone] at taken
      cases taken
    · obtain rfl := Option.some.inj (hsome.symm.trans taken)
      exact hkeeps
  | processTx index => exact ⟨rfl, rfl, Registry.keeps_flushTx hs.links index, hs.pool, hs.events⟩

/-! ## Any number of steps -/

/-- Some steps, one after the other. -/
def Run (s t : Stack δ) : Prop := Relation.ReflTransGen Step s t

theorem Run.refl (s : Stack δ) : Run s s := Relation.ReflTransGen.refl

theorem Step.run (h : Step s t) : Run s t := Relation.ReflTransGen.single h

theorem Run.trans (h₁ : Run s t) (h₂ : Run t u) : Run s u := Relation.ReflTransGen.trans h₁ h₂

theorem Run.keeps (hrun : Run s t) (hs : s.Sound) : s.Keeps t := by
  induction hrun with
  | refl => exact hs.keeps
  | tail _ step ih => exact ih.trans (step.keeps ih.sound)

/-- A state of a stack that was made with a configuration. -/
def Reachable (c : Config) (s : Stack δ) : Prop := ∃ s₀, new c = .ok s₀ ∧ Run s₀ s

namespace Reachable

variable {c : Config}

theorem sound (h : Reachable c s) : s.Sound := by
  obtain ⟨s₀, hnew, hrun⟩ := h
  exact (hrun.keeps (of_new hnew).1).sound

/-- The address of a stack is the one of its configuration. -/
theorem address (h : Reachable c s) : c.address = .ok s.addr := by
  obtain ⟨s₀, hnew, hrun⟩ := h
  obtain ⟨hsound, haddr, -⟩ := of_new hnew
  rw [haddr, (hrun.keeps hsound).addr]

/-- There is room for a header in front of every payload. -/
theorem headerRoom (h : Reachable c s) : headerLen ≤ s.config.bufferHeaderLen := by
  obtain ⟨s₀, hnew, hrun⟩ := h
  obtain ⟨hsound, -, hroom⟩ := of_new hnew
  rw [(hrun.keeps hsound).config]
  exact hroom

theorem run (h : Reachable c s) (hrun : Run s t) : Reachable c t := by
  obtain ⟨s₀, hnew, hrun₀⟩ := h
  exact ⟨s₀, hnew, hrun₀.trans hrun⟩

end Reachable

/-! ## What calls and the core do piece by piece is a run -/

theorem run_connect (s : Stack δ) (h : Handle) (peer : Peer) : Run s (s.connect h peer).1 := by
  unfold connect
  split
  · exact .refl s
  · exact (Step.pool s (.connect h peer)).run

theorem run_receiveUpTo (n : Nat) (s : Stack δ) (index : Nat) :
    Run s (receiveUpTo n s index) := by
  induction n generalizing s with
  | zero => exact .refl s
  | succ n ih =>
    unfold receiveUpTo
    split
    · next t ht => exact (Step.receive ht).run.trans (ih t)
    · exact .refl s

theorem run_nextEvent (hs : s.Sound) : Run s s.nextEvent.1 := by
  obtain ⟨es, hes⟩ := hs.events
  unfold nextEvent
  obtain ⟨-, he⟩ | ⟨-, -, he⟩ | ⟨event, rest, q, -, he, hq⟩ := hes.take_cases <;> rw [he]
  · exact .refl s
  · exact .refl s
  · exact (Step.events s hq s.draining).run

theorem run_process (s : Stack δ) (event : CoreEvent) : Run s (s.process event) := by
  cases event with
  | rx index => exact run_receiveUpTo _ s index
  | tx index => exact (Step.processTx s index).run

theorem run_serviceAll (s : Stack δ) : Run s s.serviceAll := by
  unfold serviceAll
  generalize s.interfaces.all = links
  induction links generalizing s with
  | nil => exact .refl s
  | cons i links ih =>
    have hone : Run s ((s.processRx i.index).processTx i.index) :=
      (run_receiveUpTo _ s i.index).trans (Step.processTx _ _).run
    exact hone.trans (ih _)

/-- A round of the core is a run. -/
theorem run_coreStep (hs : s.Sound) : Run s s.coreStep := by
  have hnext := run_nextEvent hs
  unfold coreStep
  split <;> rename_i hq <;> rw [hq] at hnext
  · exact hnext.trans (run_process _ _)
  · exact hnext.trans (run_serviceAll _)

/-- So is a single piece of its work. -/
theorem run_advance (hs : s.Sound) (h : s.advance? = some t) : Run s t := by
  unfold advance? at h
  split at h
  · cases h
  · split at h
    · next index hindex =>
      obtain rfl := Option.some.inj h
      cases hr : s.receive? index with
      | none =>
        obtain ⟨es, hes⟩ := hs.events
        exact (Step.events s hes none).run
      | some t => exact (Step.receive hr).run
    · have hnext := run_nextEvent hs
      split at h <;> rename_i hq
      · obtain rfl := Option.some.inj h
        rw [hq] at hnext
        obtain ⟨es, hes⟩ := (hnext.keeps hs).events
        exact hnext.trans (Step.events _ hes _).run
      · obtain rfl := Option.some.inj h
        rw [hq] at hnext
        exact hnext.trans (Step.processTx _ _).run
      · cases h

theorem run_onLink {α : Type} {f : Interface δ → Interface δ × α} (hs : s.Sound)
    (hf : ∀ i : Interface δ, i.Sound → i.SameLink (f i).1 ∧ (f i).1.Sound) (index : Nat) :
    Run s (s.onLink index f).1 := by
  cases hi : s.interfaces.byIndex index with
  | none =>
    rw [s.onLink_none hi]
    exact .refl s
  | some i =>
    rw [s.onLink_eq hi]
    obtain ⟨hsame, hsound⟩ := hf i (hs.link hi)
    exact (Step.link s hi hsame hsound).run

/-- A call that is resumed with a wake-up makes a run, whatever it waits for. -/
theorem run_wake (hs : s.Sound) (call : Call) : Run s (s.wake call).1 := by
  cases call with
  | pool call => exact (Step.wakePool s call).run
  | send call => exact (Step.wakeSend s call).run
  | input index frame => exact (Step.wakeInput s index frame).run
  | frame index d frame =>
    have hrun := run_onLink hs (fun i hi => (hi.wakePush d frame).keeps) index
    unfold wake
    dsimp only
    split <;> rename_i hq <;> rw [hq] at hrun <;> exact hrun

/-- So does one whose time is up. -/
theorem run_expire (hs : s.Sound) (call : Call) : Run s (s.expire call).1 := by
  cases call with
  | pool call => exact (Step.expirePool s call).run
  | send call => exact (Step.expireSend s call).run
  | input index frame => exact (Step.expireInput s index frame).run
  | frame index d frame =>
    have hrun := run_onLink (f := fun i => i.expirePush d frame) hs
      (fun i hi => (hi.expirePush d frame).keeps) index
    unfold expire
    dsimp only
    split <;> rename_i hq <;> rw [hq] at hrun <;> exact hrun

/-! ## How a call ends -/

section Ends

variable {κ ρ : Type} {call : κ} {fs : Interface.Direction → Nat → List Buffer}
  {xs : List Buffer} {value : ρ} {r : Except Error ρ} {h : Handle} {data : List UInt8}
  {dst : Peer} {bytes : List UInt8}

/-- How a call ends that may wait, with the states before and after its last piece: at once,
or, after others were at work, with a wake-up or because its time is up. -/
inductive Ends (wake : Stack δ → κ → Stack δ × Progress κ ρ) (expire : Stack δ → κ → Stack δ × ρ)
    (s : Stack δ) (begun : Stack δ × Progress κ ρ) : Stack δ → Stack δ → ρ → Prop
  | atOnce {t : Stack δ} {r : ρ} (ended : begun = (t, .done r)) : Ends wake expire s begun s t r
  | woken {call : κ} {u t t' : Stack δ} {r : ρ} (slept : begun = (u, .parked call))
      (run : Run u t) (ended : wake t call = (t', .done r)) : Ends wake expire s begun t t' r
  | late {call : κ} {u t t' : Stack δ} {r : ρ} (slept : begun = (u, .parked call))
      (run : Run u t) (ended : expire t call = (t', r)) : Ends wake expire s begun t t' r

/-- A call whose pieces add nothing, or all that the call is for, does so in its last one. -/
theorem Ends.adds {wake : Stack δ → κ → Stack δ × Progress κ (Except Error ρ)}
    {expire : Stack δ → κ → Stack δ × Except Error ρ}
    {begun : Stack δ × Progress κ (Except Error ρ)} (hends : Ends wake expire s begun t t' r)
    (hs : s.Sound) (hbegun : s.Advances call fs xs value begun)
    (hwake : ∀ u, s.Keeps u → u.Advances call fs xs value (wake u call))
    (hexpire : ∀ u, s.Keeps u → u.Advances call fs xs value ((expire u call).map id .done)) :
    s.Keeps t ∧ ((t.Adds t' noFrames [] ∧ ∀ a, r ≠ .ok a) ∨
      (t.Adds t' fs xs ∧ ∀ a, r = .ok a → a = value)) := by
  cases hends with
  | atOnce ended =>
    rw [ended] at hbegun
    exact ⟨hs.keeps, hbegun.done⟩
  | woken slept run ended =>
    rw [slept] at hbegun
    obtain ⟨rfl, hslept⟩ := hbegun.parked
    have hkeeps := hslept.trans (run.keeps hslept.sound)
    have hlast := hwake t hkeeps
    rw [ended] at hlast
    exact ⟨hkeeps, hlast.done⟩
  | late slept run ended =>
    rw [slept] at hbegun
    obtain ⟨rfl, hslept⟩ := hbegun.parked
    have hkeeps := hslept.trans (run.keeps hslept.sound)
    have hlast := hexpire t hkeeps
    rw [ended] at hlast
    exact ⟨hkeeps, hlast.done⟩

/-- How sending ends. -/
def SendEnds (s : Stack δ) (h : Handle) (data : List UInt8) (dst : Peer) :
    Stack δ → Stack δ → Except Error Nat → Prop :=
  Ends wakeSend expireSend s (s.beginSendTo h data dst)

/-- How it ends that a frame is handed over. -/
def InputEnds (s : Stack δ) (index : Nat) (bytes : List UInt8) :
    Stack δ → Stack δ → Except Error Unit → Prop :=
  Ends (·.wakeInput index) (·.expireInput index) s (s.beginInput index bytes)

end Ends

end Stack

end Netstack
