import Netstack.Link.Scripted
import Netstack.Proofs.Stack.Bookkeeping
import Netstack.Proofs.Stack.CoreWork

/-
The core and those it works for, one step after the other.

Callers and drivers queue frames and tell the core, and the core takes an event and does its
work, or looks at every interface if there is none. `entries` says what a step writes down
about it: that a frame was accepted if the push on the interface answered well, that an event
was refused, and for a round of the core the frames that waited where it worked. That the core
has then really dispatched these frames and handed them to the drivers, each of them once and
in this order, is `Works`.

So a run keeps the law of the ledger (`Kept`), and with it no frame is lost, served twice or
left without anybody who knows of it.
-/

set_option autoImplicit false

namespace Netstack

open Interface (Direction)

namespace Stack

variable {δ : Type} {s t : Stack δ} {d : Direction} {index : Nat} {log : Ledger}
  [LinkDriver δ]

/-! ## Steps -/

/-- The work of an event. -/
def workEntries (s : Stack δ) : CoreEvent → Ledger
  | .rx index => Ledger.draining .rx index (s.frames .rx index)
  | .tx index => Ledger.draining .tx index (s.frames .tx index)

/-- A look at one interface after the other. -/
def roundEntries : List (Interface δ) → Stack δ → Ledger
  | [], _ => []
  | i :: rest, s =>
    let u := s.processRx i.index
    s.workEntries (.rx i.index) ++ u.workEntries (.tx i.index) ++
      roundEntries rest (u.processTx i.index)

/-- A round of the core. -/
def coreEntries (s : Stack δ) : Ledger :=
  match s.nextEvent with
  | (s, some event) => s.workEntries event
  | (s, none) => roundEntries s.interfaces.all s

/-- A step of those who use a stack, or of its core. A call that may wait is made in pieces;
who is alone begins it and, if it has to wait, waits in vain. -/
inductive Act (δ : Type)
  | register (spec : InterfaceSpec) (driver : δ)
  | start
  /-- an operation on the connections -/
  | pool (op : Pool.Op)
  | wakePool (call : Pool.Call)
  | expirePool (call : Pool.Call)
  /-- anything becomes of the routes -/
  | routes (routes : RouteTable)
  | post (event : CoreEvent)
  | beginInput (index : Nat) (bytes : List UInt8)
  | wakeInput (index : Nat) (frame : Buffer)
  | expireInput (index : Nat) (frame : Buffer)
  | beginSendTo (h : Handle) (data : List UInt8) (dst : Peer)
  | wakeSend (call : SendCall)
  | expireSend (call : SendCall)
  /-- the core takes an event and does its work, or looks around if there is none -/
  | core

/-- The stack after a step. -/
def act (s : Stack δ) : Act δ → Stack δ
  | .register spec driver =>
    match Interface.build spec driver with
    | .ok i => (s.registerInterface i).1
    | .error _ => s
  | .start => s.start.1
  | .pool op => { s with pool := (s.pool.atRest.step op).1.pool }
  | .wakePool call => (s.onPool (·.wake call)).1
  | .expirePool call => (s.onPool (·.expire call)).1
  | .routes routes => { s with routes := routes }
  | .post event => (s.post event).1
  | .beginInput index bytes => (s.beginInput index bytes).1
  | .wakeInput index frame => (s.wakeInput index frame).1
  | .expireInput index frame => (s.expireInput index frame).1
  | .beginSendTo h data dst => (s.beginSendTo h data dst).1
  | .wakeSend call => (s.wakeSend call).1
  | .expireSend call => (s.expireSend call).1
  | .core => s.coreStep

/-- What a step writes down. -/
def entries (s : Stack δ) : Act δ → Ledger
  | .post event => s.told event
  | .beginInput index bytes =>
    match frameBuffer index bytes with
    | .ok frame =>
      s.pushEntries .rx index frame
        (·.beginPush .rx frame (Timeout.waits (some s.config.queueTimeout)))
    | .error _ => []
  | .wakeInput index frame => s.pushEntries .rx index frame (·.wakePush .rx frame)
  | .expireInput index frame =>
    s.pushEntries .rx index frame fun i => (i.expirePush .rx frame).map id .done
  | .beginSendTo h data dst =>
    match s.outbound h data dst with
    | .ok (.link index frame timeout) =>
      s.pushEntries .tx index frame (·.beginPush .tx frame timeout.waits)
    | _ => []
  | .wakeSend (.link _ index frame _) => s.pushEntries .tx index frame (·.wakePush .tx frame)
  | .expireSend (.link _ index frame _) =>
    s.pushEntries .tx index frame fun i => (i.expirePush .tx frame).map id .done
  | .core => s.coreEntries
  | _ => []

/-- The stack after some steps. -/
def perform (s : Stack δ) (acts : List (Act δ)) : Stack δ := acts.foldl act s

/-- The ledger of some steps. -/
def ledger (s : Stack δ) : List (Act δ) → Ledger
  | [] => []
  | a :: acts => s.entries a ++ (s.act a).ledger acts

theorem perform_snoc (s : Stack δ) (acts : List (Act δ)) (a : Act δ) :
    s.perform (acts ++ [a]) = (s.perform acts).act a := List.foldl_append

theorem ledger_snoc (s : Stack δ) (acts : List (Act δ)) (a : Act δ) :
    s.ledger (acts ++ [a]) = s.ledger acts ++ (s.perform acts).entries a := by
  induction acts generalizing s with
  | nil => exact List.append_nil _
  | cons b acts ih =>
    rw [List.cons_append, ledger, ledger, ih, List.append_assoc]
    rfl

/-! ## A round of the core -/

omit [LinkDriver δ] in
/-- The core takes the oldest event, if there is one. -/
theorem nextEvent_cases {es : List CoreEvent} (hes : s.events.Holds es)
    (hserving : s.events.ring.destroyed = false) :
    (es = [] ∧ s.nextEvent = (s, none)) ∨
    ∃ event rest q, es = event :: rest ∧ s.nextEvent = ({ s with events := q }, some event) ∧
      q.Holds rest ∧ q.ring.destroyed = false := by
  unfold nextEvent
  obtain ⟨hd, -⟩ | ⟨-, hnil, htake⟩ | ⟨event, rest, q, heq, htake, hq⟩ := hes.take_cases
  · rw [hserving] at hd
    cases hd
  · rw [htake]
    exact .inl ⟨hnil, rfl⟩
  · have hd := Fifo.destroyed_take s.events
    rw [htake] at hd ⊢
    exact .inr ⟨event, rest, q, heq, rfl, hq, hd.trans hserving⟩

omit [LinkDriver δ] in
theorem workEntries_of (s : Stack δ) (d : Direction) (index : Nat) :
    s.workEntries (.of d index) = Ledger.draining d index (s.frames d index) := by
  cases d <;> rfl

/-- A queue is drained, and of the events only those that ask for this may go. -/
theorem Kept.drain {es es' : List CoreEvent} (hdrain : Drains s d index t)
    (hserving : t.events.ring.destroyed = false) (hlaw : log.Law s.frames es)
    (hes' : t.events.Holds es') (hkeep : ∀ e ∈ es, e ≠ .of d index → e ∈ es') :
    Kept (log ++ Ledger.draining d index (s.frames d index)) t := by
  refine ⟨hdrain.keeps.sound, hserving, es', hes', ?_⟩
  have hframes : t.frames = fun d' k => if d' = d ∧ k = index then [] else s.frames d' k := by
    funext d' k
    exact hdrain.frames d' k
  rw [hframes]
  exact hlaw.drained d index hkeep

/-- Draining one queue when no event is taken. -/
theorem Kept.drain_idle (hk : Kept log s) (hdrain : Drains s d index t) :
    Kept (log ++ Ledger.draining d index (s.frames d index)) t := by
  obtain ⟨es, hes, hlaw⟩ := hk.law
  have hevents := hdrain.events
  exact .drain hdrain (by rw [hevents]; exact hk.serving) hlaw (by rw [hevents]; exact hes)
    fun e he _ => he

/-- A look at some interfaces, one after the other, drains their queues and no others. -/
theorem Kept.lookAround (links : List (Interface δ)) (hk : Kept log s) :
    let t := links.foldl (fun s i => (s.processRx i.index).processTx i.index) s
    Kept (log ++ roundEntries links s) t ∧ Works s (roundEntries links s) t ∧
      ∀ d k, t.frames d k = if k ∈ links.map (·.index) then [] else s.frames d k := by
  induction links generalizing s log with
  | nil =>
    refine ⟨?_, .done s, fun d k => by simp⟩
    rw [roundEntries, List.append_nil]
    exact hk
  | cons i links ih =>
    have hrx := hk.sound.drains_processRx i.index
    have htx := hrx.keeps.sound.drains_processTx i.index
    have hkept := (hk.drain_idle hrx).drain_idle htx
    obtain ⟨hmore, hworks, hframes⟩ := ih hkept
    refine ⟨?_, ?_, fun d k => ?_⟩
    · rw [roundEntries, List.foldl_cons]
      simpa only [List.append_assoc, workEntries] using hmore
    · rw [roundEntries]
      exact (hrx.works.trans htx.works).trans hworks
    · rw [List.foldl_cons, hframes, htx.frames, hrx.frames]
      by_cases hk : k = i.index
      · subst hk
        cases d <;> simp
      · simp [hk]

/-- A round of the core keeps the law, and does what it writes down. -/
theorem Kept.core (hk : Kept log s) :
    Kept (log ++ s.coreEntries) s.coreStep ∧ Works s.nextEvent.1 s.coreEntries s.coreStep := by
  obtain ⟨es, hes, hlaw⟩ := hk.law
  unfold coreEntries coreStep
  obtain ⟨-, hnext⟩ | ⟨event, rest, q, rfl, hnext, hq, hserving⟩ := nextEvent_cases hes hk.serving
  · -- no event: a look around
    rw [hnext]
    obtain ⟨hkept, hworks, -⟩ := hk.lookAround s.interfaces.all
    exact ⟨hkept, hworks⟩
  · rw [hnext]
    dsimp only
    obtain ⟨d, index, rfl⟩ := event.exists_of
    have htaken : Sound { s with events := q } := ⟨hk.sound.links, hk.sound.pool, _, hq⟩
    have hdrain := htaken.drains_process d index
    rw [workEntries_of]
    have hrest : (process { s with events := q } (.of d index)).events.Holds rest := by
      rw [hdrain.events]
      exact hq
    refine ⟨.drain hdrain ?_ hlaw hrest ?_, hdrain.works⟩
    · rw [hdrain.events]
      exact hserving
    · intro e he hne
      exact (List.mem_cons.1 he).resolve_left hne

/-- After a look around there is nothing left in any queue. -/
theorem Kept.frames_coreStep (hk : Kept log s) (hidle : s.events.toList = []) (d : Direction)
    (k : Nat) : s.coreStep.frames d k = [] := by
  obtain ⟨es, hes, -⟩ := hk.law
  rw [hes.toList] at hidle
  unfold coreStep
  obtain ⟨-, hnext⟩ | ⟨_, _, _, hcons, -⟩ := nextEvent_cases hes hk.serving
  · rw [hnext]
    dsimp only
    obtain ⟨-, -, hframes⟩ := hk.lookAround s.interfaces.all
    rw [serviceAll, hframes]
    split
    · rfl
    · next hk =>
      -- there is no interface with this number
      apply frames_of_none
      refine List.find?_eq_none.2 fun i hi hindex => hk ?_
      exact List.mem_map.2 ⟨i, hi, by simpa using hindex⟩
  · rw [hidle] at hcons
    cases hcons

/-! ## Any step -/

theorem sameQueues_start (s : Stack δ) : SameQueues s s.start.1 := by
  have hup : ∀ (xs : List (Interface δ)) (d : Direction) (k : Nat),
      ((Registry.bringUpEach xs).1.find? fun i => i.index == k).map (·.frames d) =
        (xs.find? fun i => i.index == k).map (·.frames d) := by
    intro xs d k
    induction xs with
    | nil => rfl
    | cons i xs ih =>
      obtain ⟨hsame, hqueue⟩ := Interface.bringUp_same i
      have hfirst : ∀ rest rest' : List (Interface δ),
          (rest'.find? fun i => i.index == k).map (·.frames d) =
            (rest.find? fun i => i.index == k).map (·.frames d) →
          ((i.bringUp.1 :: rest').find? fun i => i.index == k).map (·.frames d) =
            ((i :: rest).find? fun i => i.index == k).map (·.frames d) := by
        intro rest rest' hrest
        rw [List.find?_cons, List.find?_cons, hsame.index]
        split
        · exact congrArg (fun q => some (Fifo.toList q)) (hqueue d)
        · exact hrest
      unfold Registry.bringUpEach
      split <;> rename_i hq <;> have hi := congrArg Prod.fst hq <;> dsimp only at hi <;> rw [← hi]
      · exact hfirst xs xs rfl
      · exact hfirst xs _ ih
  have hframes : ∀ (r : Registry δ), r = s.interfaces.bringUpAll.1 → ∀ d k,
      ((r.byIndex k).map (·.frames d)).getD [] = s.frames d k := by
    rintro r rfl d k
    exact congrArg (·.getD []) (hup s.interfaces.interfaces d k)
  unfold start startOn
  split
  · exact ⟨rfl, rfl⟩
  · split <;> rename_i hq <;> refine ⟨?_, rfl⟩ <;> funext d k <;>
      exact hframes _ (congrArg Prod.fst hq).symm d k

/-- A step is one of those that may happen to a stack, so it keeps what never changes. -/
theorem run_act (hs : s.Sound) (a : Act δ) : Run s (s.act a) := by
  cases a with
  | register spec driver =>
    unfold act
    dsimp only
    split
    · next hbuild => exact (Step.register s (Interface.sound_build hbuild)).run
    · exact .refl s
  | start => exact (Step.start s).run
  | pool op => exact (Step.pool s op).run
  | wakePool call => exact (Step.wakePool s call).run
  | expirePool call => exact (Step.expirePool s call).run
  | routes routes => exact (Step.routes s routes).run
  | post event =>
    obtain ⟨es, hes⟩ := (hs.adds_post event).keeps.events
    exact (Step.events s hes s.draining).run
  | beginInput index bytes => exact (Step.beginInput s index bytes).run
  | wakeInput index frame => exact (Step.wakeInput s index frame).run
  | expireInput index frame => exact (Step.expireInput s index frame).run
  | beginSendTo h data dst => exact (Step.beginSendTo s h data dst).run
  | wakeSend call => exact (Step.wakeSend s call).run
  | expireSend call => exact (Step.expireSend s call).run
  | core => exact run_coreStep hs

theorem Kept.act (hk : Kept log s) (a : Act δ) : Kept (log ++ s.entries a) (s.act a) := by
  have ht : (s.act a).Sound := ((run_act hk.sound a).keeps hk.sound).sound
  have hquiet : SameQueues s (s.act a) → Kept (log ++ []) (s.act a) := by
    intro hsame
    rw [List.append_nil]
    exact hk.same hsame ht
  cases a with
  | register spec driver =>
    refine hquiet ?_
    unfold Stack.act
    dsimp only
    split
    · next hbuild => exact sameQueues_registerInterface (Interface.frames_build hbuild) s
    · exact ⟨rfl, rfl⟩
  | start => exact hquiet s.sameQueues_start
  | pool op => exact hquiet ⟨rfl, rfl⟩
  | wakePool call => exact hquiet ⟨rfl, rfl⟩
  | expirePool call => exact hquiet ⟨rfl, rfl⟩
  | routes routes => exact hquiet ⟨rfl, rfl⟩
  | post event => exact hk.post event
  | beginInput index bytes =>
    unfold entries
    dsimp only
    cases hframe : frameBuffer index bytes with
    | ok frame => exact hk.push (fun i hi => hi.beginPush .rx frame _) ht (pushed_beginInput hframe)
    | error e =>
      refine hquiet ?_
      change SameQueues s (s.beginInput index bytes).1
      rw [beginInput, hframe]
      exact ⟨rfl, rfl⟩
  | wakeInput index frame =>
    exact hk.push (fun i hi => hi.wakePush .rx frame) ht (pushed_wakeInput s index frame)
  | expireInput index frame =>
    exact hk.push (fun i hi => hi.expirePush .rx frame) ht (pushed_expireInput s index frame)
  | beginSendTo h data dst =>
    unfold entries
    dsimp only
    cases hout : s.outbound h data dst with
    | error e =>
      refine hquiet ?_
      change SameQueues s (s.beginSendTo h data dst).1
      rw [beginSendTo, hout]
      exact ⟨rfl, rfl⟩
    | ok o =>
      cases o with
      | loop packet => exact hquiet (sameQueues_beginSendTo_loop hout)
      | link index frame timeout =>
        exact hk.push (fun i hi => hi.beginPush .tx frame _) ht (pushed_beginSendTo hout)
  | wakeSend call =>
    cases call with
    | loop h receiver packet size =>
      exact hquiet (s.sameQueues_wakeSend_loop h receiver packet size)
    | link h index frame size =>
      exact hk.push (fun i hi => hi.wakePush .tx frame) ht (s.pushed_wakeSend h index frame size)
  | expireSend call =>
    cases call with
    | loop h receiver packet size =>
      exact hquiet (s.sameQueues_expireSend_loop h receiver packet size)
    | link h index frame size =>
      exact hk.push (fun i hi => hi.expirePush .tx frame) ht
        (s.pushed_expireSend h index frame size)
  | core => exact hk.core.1

omit [LinkDriver δ] in
/-- A new stack has no frames and no events. -/
theorem kept_new {c : Config} (hnew : new c = .ok s) : Kept [] s := by
  have hsound := (of_new hnew).1
  unfold new at hnew
  obtain ⟨config, -, hnew⟩ := bind_eq_ok_iff.1 hnew
  obtain ⟨addr, -, hnew⟩ := bind_eq_ok_iff.1 hnew
  obtain ⟨pool, -, hnew⟩ := bind_eq_ok_iff.1 hnew
  obtain ⟨events, hevents, hnew⟩ := bind_eq_ok_iff.1 hnew
  obtain rfl := Except.ok.inj hnew
  exact ⟨hsound, Fifo.serving_new hevents, [], Fifo.holds_new hevents, Ledger.law_nil []⟩

theorem kept_perform {c : Config} {s₀ : Stack δ} (hnew : new c = .ok s₀) (acts : List (Act δ)) :
    Kept (s₀.ledger acts) (s₀.perform acts) := by
  induction acts using List.reverseRecOn with
  | nil => exact kept_new hnew
  | append_singleton acts a ih =>
    rw [ledger_snoc, perform_snoc]
    exact ih.act a

/-- Handing over a frame alone with the stack is such steps. -/
theorem exists_perform_input (s : Stack δ) (index : Nat) (bytes : List UInt8) :
    ∃ acts, s.perform acts = (s.input index bytes).1 := by
  unfold input
  split
  · next hbegin => exact ⟨[.beginInput index bytes], congrArg Prod.fst hbegin⟩
  · next u frame hbegin =>
    refine ⟨[.beginInput index bytes, .expireInput index frame], ?_⟩
    change ((s.beginInput index bytes).1.expireInput index frame).1 = _
    rw [hbegin]

/-- So is sending. -/
theorem exists_perform_sendTo (s : Stack δ) (h : Handle) (data : List UInt8) (dst : Peer) :
    ∃ acts, s.perform acts = (s.sendTo h data dst).1 := by
  unfold sendTo
  split
  · next hbegin => exact ⟨[.beginSendTo h data dst], congrArg Prod.fst hbegin⟩
  · next u call hbegin =>
    refine ⟨[.beginSendTo h data dst, .expireSend call], ?_⟩
    change ((s.beginSendTo h data dst).1.expireSend call).1 = _
    rw [hbegin]

/-- In whatever order frames are handed over and sent, events are posted and the core does its
rounds: the frames that a queue of an interface accepted are those that were served, in this
order and each of them once, and behind them those that wait. A queue with frames in it is
known to the core by an event, or an event for it was refused since it was last drained. A
round of the core dispatches what it took out of a receive queue and hands to the driver what
it took out of a transmit queue; and a round without an event leaves every queue empty. -/
theorem frames_served_once {c : Config} {s₀ : Stack δ} (hnew : new c = .ok s₀)
    (acts : List (Act δ)) :
    let s := s₀.perform acts
    let log := s₀.ledger acts
    (∀ d k, log.accepted d k = log.served d k ++ s.frames d k) ∧
    (∀ d k, s.frames d k ≠ [] → .of d k ∈ s.events.toList ∨ log.Missed d k) ∧
    Works s.nextEvent.1 (s.entries .core) (s.act .core) ∧
    (s.events.toList = [] → ∀ d k, (s.act .core).frames d k = []) := by
  intro s log
  have hkept : Kept log s := kept_perform hnew acts
  obtain ⟨es, hes, hlaw⟩ := hkept.law
  rw [hes.toList]
  refine ⟨hlaw.moved, hlaw.awaited, hkept.core.2, fun hidle d k => ?_⟩
  exact hkept.frames_coreStep (hes.toList.trans hidle) d k

/-- Where the core takes one event only, the second of two frames is not told of. Both wait
in their order for the one event. -/
theorem frames_served_once_refused :
    ∃ s₀ : Stack ScriptedLink, new { addr := 0xAE55, coreEventQueueLen := 1 } = .ok s₀ ∧
      let acts : List (Act ScriptedLink) :=
        [.register { name := "radio" } {}, .beginInput 0 [1, 2], .beginInput 0 [3]]
      let s := s₀.perform acts
      let log := s₀.ledger acts
      (s.frames .rx 0).map (·.used) = [[1, 2], [3]] ∧ s.events.toList = [.rx 0] ∧
        log.Missed .rx 0 ∧ log.accepted .rx 0 = log.served .rx 0 ++ s.frames .rx 0 := by
  refine ⟨_, rfl, ?_⟩
  intro acts s log
  have hnew : (new { addr := 0xAE55, coreEventQueueLen := 1 } :
    Except Error (Stack ScriptedLink)) = .ok _ := rfl
  obtain ⟨hmoved, -⟩ := frames_served_once hnew acts
  refine ⟨by decide +kernel, by decide +kernel, ?_, hmoved .rx 0⟩
  refine ⟨log.dropLast, [], ?_, by simp⟩
  decide +kernel

end Stack

end Netstack
