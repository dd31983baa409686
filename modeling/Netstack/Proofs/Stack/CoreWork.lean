import Netstack.Proofs.Stack.Ledger
import Netstack.Proofs.Stack.Payloads

/-
What the core does to the frames that wait.

The work of an event drains one queue of one interface and touches no other (`Drains`). The
frames are served from the front, each of them once: a received frame is dispatched, a frame
to be sent is handed to the driver. `Works` says this of any stretch of work, with the ledger
of what was served.
-/

set_option autoImplicit false

namespace Netstack

open Interface (Direction)

namespace Stack

variable {δ : Type} {s t u : Stack δ} {d : Direction} {index k : Nat} {frame : Buffer}
  {log log' : Ledger}

/-! ## The frames after a piece of work -/

theorem frames_of_none (hi : s.interfaces.byIndex index = none) : s.frames d index = [] := by
  rw [frames, hi]
  rfl

/-- The oldest received frame is taken and dispatched, and no other queue is touched. -/
theorem Sound.receive (hs : s.Sound) (hr : s.receive? index = some t) :
    ∃ i i' frame rest, s.interfaces.byIndex index = some i ∧
      i.takeRx = (i', .ok (some frame)) ∧
      t = (s.modifyLink index fun _ => i').dispatch (some i.id) frame ∧
      s.frames .rx index = frame :: rest ∧
      (∀ d k, t.frames d k = if d = .rx ∧ k = index then rest else s.frames d k) ∧
      s.Keeps t ∧ t.events = s.events := by
  unfold receive? at hr
  cases hi : s.interfaces.byIndex index with
  | none =>
    rw [hi] at hr
    cases hr
  | some i =>
    rw [hi] at hr
    dsimp only at hr
    obtain ⟨-, hnone, -⟩ | ⟨frame, rest, heq, hsome, hj⟩ := (hs.link hi).takeRx_cases
    · split at hr
      · next frame hq =>
        rw [hq] at hnone
        exact absurd rfl (hnone frame)
      · cases hr
    · have htaken : i.takeRx = (i.takeRx.1, .ok (some frame)) := Prod.ext rfl hsome
      rw [htaken] at hr
      have htake := hs.keeps_link hi hj.same hj.sound
      have hadds := htake.sound.adds_dispatch (some i.id) frame
      obtain rfl := Option.some.inj hr
      refine ⟨i, _, frame, rest, rfl, htaken, rfl, by rw [frames_of_byIndex hi, heq],
        fun d k => ?_, htake.trans hadds.keeps, events_dispatch _ _ _⟩
      rw [hadds.frames, frames_modifyLink hi hj.same.index]
      change _ ++ [] = _
      rw [List.append_nil]
      by_cases hk : k = index
      · subst hk
        by_cases hd : d = .rx
        · subst hd
          simp [hj.here]
        · simp [hd, hj.there d hd, frames_of_byIndex hi]
      · simp [hk]

variable [LinkDriver δ]

/-- Between two states of a stack the core has taken frames from the front of queues and done
with each what it waits for. -/
inductive Works : Stack δ → Ledger → Stack δ → Prop
  | done (s : Stack δ) : Works s [] s
  /-- a received frame is dispatched -/
  | dispatch {s t : Stack δ} {log : Ledger} {index : Nat} {i i' : Interface δ} {frame : Buffer}
      (found : s.interfaces.byIndex index = some i) (taken : i.takeRx = (i', .ok (some frame)))
      (more : Works ((s.modifyLink index fun _ => i').dispatch (some i.id) frame) log t) :
      Works s (.served .rx index frame :: log) t
  /-- all frames that wait to be sent are handed to the driver, one after the other -/
  | transmit {s t u : Stack δ} {log : Ledger} {index : Nat} {i j : Interface δ}
      (found : s.interfaces.byIndex index = some i) (put : u.interfaces.byIndex index = some j)
      (taken : i.Holding j .tx [])
      (handed : j.driver = (i.frames .tx).foldl
        (fun driver frame => (LinkDriver.transmit driver frame.used).1) i.driver)
      (others : ∀ k, k ≠ index → u.interfaces.byIndex k = s.interfaces.byIndex k)
      (rest : u = { s with interfaces := u.interfaces })
      (more : Works u log t) : Works s ((i.frames .tx).map (.served .tx index) ++ log) t
  /-- nothing is left in a queue -/
  | drained {s t : Stack δ} {log : Ledger} {d : Direction} {index : Nat}
      (empty : s.frames d index = []) (more : Works s log t) : Works s (.drained d index :: log) t

theorem Works.trans (h : Works s log t) (h' : Works t log' u) : Works s (log ++ log') u := by
  induction h with
  | done => exact h'
  | dispatch found taken _ ih => exact .dispatch found taken (ih h')
  | transmit found put taken handed others rest _ ih =>
    rw [List.append_assoc]
    exact .transmit found put taken handed others rest (ih h')
  | drained empty _ ih => exact .drained empty (ih h')

/-! ## The work of an event -/

/-- What the core does to one queue: it serves the frames that wait there, and nothing else
happens to frames and events. -/
structure Drains (s : Stack δ) (d : Direction) (index : Nat) (t : Stack δ) : Prop where
  keeps : s.Keeps t
  events : t.events = s.events
  frames : ∀ d' k, t.frames d' k = if d' = d ∧ k = index then [] else s.frames d' k
  works : Works s (Ledger.draining d index (s.frames d index)) t

theorem Sound.drains_of_eq_nil (hs : s.Sound) (hnil : s.frames d index = []) :
    Drains s d index s := by
  refine ⟨hs.keeps, rfl, fun d' k => ?_, ?_⟩
  · split
    · next hq =>
      obtain ⟨rfl, rfl⟩ := hq
      exact hnil
    · rfl
  · rw [hnil]
    exact .drained hnil (.done s)

theorem Sound.drains_receiveUpTo {n : Nat} (hs : s.Sound)
    (hn : (s.frames .rx index).length = n) : Drains s .rx index (Stack.receiveUpTo n s index) := by
  -- by induction on the number of frames: each turn takes one
  induction n generalizing s with
  | zero => exact hs.drains_of_eq_nil (List.length_eq_zero_iff.1 hn)
  | succ n ih =>
    unfold Stack.receiveUpTo
    cases hr : s.receive? index with
    | none =>
      obtain ⟨hnil, -⟩ | ⟨_, _, _, -, hsome, -⟩ := hs.receive_cases index
      · rw [hnil] at hn
        cases hn
      · rw [hr] at hsome
        cases hsome
    | some u =>
      obtain ⟨i, i', frame, rest, hi, htaken, rfl, heq, hframes, hkeeps, hevents⟩ :=
        hs.receive hr
      have hrest := hframes .rx index
      rw [if_pos ⟨rfl, rfl⟩] at hrest
      have hmore := ih hkeeps.sound (by rw [hrest]; rw [heq] at hn; exact Nat.succ.inj hn)
      refine ⟨hkeeps.trans hmore.keeps, hmore.events.trans hevents, fun d' k => ?_, ?_⟩
      · rw [hmore.frames, hframes]
        split <;> rfl
      · have hworks := hmore.works
        rw [hrest] at hworks
        rw [heq]
        exact .dispatch hi htaken hworks

theorem Sound.drains_processRx (hs : s.Sound) (index : Nat) :
    Drains s .rx index (s.processRx index) := by
  rw [Stack.processRx]
  exact hs.drains_receiveUpTo (received_eq hs index).symm

/-- The driver is given the frames that waited, in their order. -/
theorem driver_flushTx {i : Interface δ} (hi : i.Sound) :
    i.flushTx.1.driver = (i.frames .tx).foldl
      (fun driver frame => (LinkDriver.transmit driver frame.used).1) i.driver := by
  have hall : (Fifo.drain i.tx).2 = i.frames .tx := (hi .tx).drain.1
  have hone : ∀ (i : Interface δ) (frame : Buffer), (i.transmit frame).1.driver =
      (LinkDriver.transmit i.driver frame.used).1 := by
    intro i frame
    unfold Interface.transmit Interface.recordTx
    dsimp only
    split <;> rfl
  rw [← hall]
  refine (List.foldl_hom (fun acc : Interface δ × Nat => acc.1.driver) fun acc frame => ?_).symm
  rw [← hone]
  dsimp only
  split <;> rename_i hq <;> rw [hq]

theorem sameLink_flushTx (i : Interface δ) : i.SameLink i.flushTx.1 := by
  refine List.foldlRecOn _ _ (motive := fun acc : Interface δ × Nat => i.SameLink acc.1)
    ⟨rfl, rfl, rfl, rfl⟩ ?_
  intro acc hacc frame _
  have hnext := hacc.trans (Interface.transmit_same acc.1 frame).1
  dsimp only
  split <;> rename_i hq <;> rw [hq] at hnext <;> exact hnext

theorem byIndex_processTx (s : Stack δ) (index k : Nat) :
    (s.processTx index).interfaces.byIndex k =
      if k = index then (s.interfaces.byIndex k).map (·.flushTx.1)
      else s.interfaces.byIndex k :=
  Registry.byIndex_modify fun i hi => (sameLink_flushTx i).index.trans hi

theorem Sound.drains_processTx (hs : s.Sound) (index : Nat) :
    Drains s .tx index (s.processTx index) := by
  have hkeeps : s.Keeps (s.processTx index) := (Step.processTx s index).keeps hs
  have hflush := byIndex_processTx s index
  have hframes : ∀ d' k, (s.processTx index).frames d' k =
      if d' = .tx ∧ k = index then [] else s.frames d' k := by
    intro d' k
    unfold frames
    rw [hflush]
    by_cases hk : k = index
    · subst hk
      cases hi : s.interfaces.byIndex k with
      | none => simp
      | some i =>
        have hsent := (hs.link hi).flushTx
        by_cases hd : d' = .tx
        · simp [hd, hsent.here]
        · simp [hd, hsent.there d' hd]
    · simp [hk]
  refine ⟨hkeeps, rfl, hframes, ?_⟩
  cases hi : s.interfaces.byIndex index with
  | none =>
    -- there is no such interface, and nothing is done
    have hsame : s.processTx index = s := by
      unfold processTx modifyLink
      rw [Registry.modify_of_none hi]
    rw [hsame]
    exact (hs.drains_of_eq_nil (frames_of_none hi)).works
  | some i =>
    rw [frames_of_byIndex hi]
    refine .transmit (j := i.flushTx.1) hi ?_ (hs.link hi).flushTx (driver_flushTx (hs.link hi)) ?_
      rfl (.drained ?_ (.done _))
    · rw [hflush, if_pos rfl, hi]
      rfl
    · exact fun k hk => by rw [hflush, if_neg hk]
    · rw [hframes, if_pos ⟨rfl, rfl⟩]

theorem Sound.drains_process (hs : s.Sound) (d : Direction) (index : Nat) :
    Drains s d index (s.process (.of d index)) := by
  cases d with
  | tx => exact hs.drains_processTx index
  | rx => exact hs.drains_processRx index

end Stack

end Netstack
