import Mathlib.Data.List.Nodup
import Netstack.Wait.Gate
import Netstack.Wait.Step

/-
Waiting rooms come to rest.

A waiting room resumes whoever finds a wake-up, round after round, and stops after the first
round in which nobody finished. That is enough where calls wait behind gates: in such a round
everybody who was resumed has taken a wake-up and sleeps again, no gate got a new one, and a
gate never has more wake-ups than callers. So either all wake-ups of a gate were taken, or its
callers were all resumed, and took as many as there were.

`Preserved` says what a room asks of what ties a state to its callers, and `Gated` what it asks
of gates besides. The number of rounds is no matter of the state: each but the last loses a caller.
It is the same with deadlines: whoever is waited for finishes, unless nobody is left whose time
will be up.
-/

set_option autoImplicit false

namespace Netstack

/-! ## Gates and the number of their callers -/

namespace Gate

variable {g : Gate} {n : Nat}

/-- A gate with `n` callers behind it: each sleeps or has a wake-up. -/
structure Has (g : Gate) (n : Nat) : Prop where
  waiting : g.waiting = n
  either : g.asleep + g.woken = n

theorem Has.enter (h : g.Has n) : g.enter.Has (n + 1) := by
  obtain ⟨hwaiting, heither⟩ := h
  refine ⟨congrArg (· + 1) hwaiting, ?_⟩
  simp only [Gate.enter, doze]
  omega

theorem Has.notifyOne (h : g.Has n) : g.notifyOne.Has n := by
  obtain ⟨hwaiting, heither⟩ := h
  unfold Gate.notifyOne
  split
  · refine ⟨hwaiting, ?_⟩
    dsimp only
    omega
  · exact ⟨hwaiting, heither⟩

theorem Has.notifyAll (h : g.Has n) : g.notifyAll.Has n := by
  obtain ⟨hwaiting, heither⟩ := h
  refine ⟨hwaiting, ?_⟩
  simp only [Gate.notifyAll]
  omega

/-- A caller that resumes goes back to sleep or leaves. -/
theorem Has.take (h : g.Has (n + 1)) : g.take.doze.Has (n + 1) ∧ g.take.leave.Has n := by
  obtain ⟨hwaiting, heither⟩ := h
  unfold Gate.take doze leave
  split <;> refine ⟨⟨?_, ?_⟩, ⟨?_, ?_⟩⟩ <;> dsimp only <;> omega

/-- A caller gives up and leaves. -/
theorem Has.expire (h : g.Has (n + 1)) : g.giveUp.leave.Has n := by
  obtain ⟨hwaiting, heither⟩ := h
  unfold Gate.giveUp leave
  split <;> refine ⟨?_, ?_⟩ <;> dsimp only <;> omega

end Gate

namespace WaitingRoom

variable {σ π ρ ω κ : Type} [Blocking σ π ρ] {r : WaitingRoom σ π ρ ω} {w : Waiter π ρ ω}
  {ws again : List (Waiter π ρ ω)}

/-! ## Nobody comes by himself -/

/-- What resuming a caller may come to. -/
inductive Resumed (r : WaitingRoom σ π ρ ω) (again : List (Waiter π ρ ω)) (w : Waiter π ρ ω) :
    WaitingRoom σ π ρ ω × List (Waiter π ρ ω) → Prop
  /-- there is no wake-up for it -/
  | passed (hready : Blocking.ready r.state w.call = false) :
      Resumed r again w ({ r with waiters := r.waiters ++ [w] }, again)
  | done {s : σ} {answer : ρ} (hready : Blocking.ready r.state w.call = true)
      (hwake : Blocking.wake r.state w.call = (s, .done answer)) :
      Resumed r again w
        ({ r with state := s, finished := r.finished ++ [(w.name, w.finish answer)] }, again)
  /-- it has to wait again -/
  | parked {s : σ} {call : π} (hready : Blocking.ready r.state w.call = true)
      (hwake : Blocking.wake r.state w.call = (s, .parked call)) :
      Resumed r again w ({ r with state := s }, again ++ [{ w with call := call }])

theorem resumed (r : WaitingRoom σ π ρ ω) (again : List (Waiter π ρ ω)) (w : Waiter π ρ ω) :
    Resumed r again w (sweep.resume (r, again) w) := by
  unfold sweep.resume
  dsimp only
  split
  · next hready =>
    split
    · next hwake => exact .done hready hwake
    · next hwake => exact .parked hready hwake
  · next hready => exact .passed (Bool.not_eq_true _ ▸ hready)

theorem length_foldl_resume (ws : List (Waiter π ρ ω)) (r : WaitingRoom σ π ρ ω)
    (again : List (Waiter π ρ ω)) :
    (ws.foldl sweep.resume (r, again)).1.waiters.length +
        (ws.foldl sweep.resume (r, again)).2.length ≤
      r.waiters.length + again.length + ws.length := by
  induction ws generalizing r again with
  | nil => exact Nat.le_refl _
  | cons w ws ih =>
    rw [List.foldl_cons]
    have hone := resumed r again w
    generalize sweep.resume (r, again) w = next at hone
    cases hone <;> refine Nat.le_trans (ih _ _) ?_ <;> simp <;> omega

theorem length_sweep (r : WaitingRoom σ π ρ ω) : r.sweep.waiters.length ≤ r.waiters.length := by
  have hle := length_foldl_resume r.waiters { r with waiters := [] } []
  simpa [sweep] using hle

theorem length_turns (n : Nat) (r : WaitingRoom σ π ρ ω) :
    (turns n r).waiters.length ≤ r.waiters.length := by
  induction n generalizing r with
  | zero => exact length_sweep r
  | succ n ih =>
    unfold turns
    dsimp only
    split
    · exact length_sweep r
    · next s _ => exact Nat.le_trans (ih { r.sweep with state := s }) (length_sweep r)

theorem length_settleIn (n : Nat) (r : WaitingRoom σ π ρ ω) :
    (settleIn n r).waiters.length ≤ r.waiters.length := by
  induction n generalizing r with
  | zero => exact Nat.le_refl _
  | succ n ih =>
    unfold settleIn
    dsimp only
    split
    · exact Nat.le_trans (ih _) (length_turns _ r)
    · exact length_turns _ r

theorem length_settle (r : WaitingRoom σ π ρ ω) : r.settle.waiters.length ≤ r.waiters.length :=
  length_settleIn _ r

/-! ## Rest -/

/-- Nobody who waits can be resumed. -/
def AtRest (r : WaitingRoom σ π ρ ω) : Prop :=
  ∀ w ∈ r.waiters, Blocking.ready r.state w.call = false

/-- `Fits` ties a state to the calls that wait on it, in whatever order they came, and whatever a
room does by itself keeps it so. -/
structure Preserved (Fits : σ → List π → Prop) : Prop where
  perm {s : σ} {calls calls' : List π} (h : Fits s calls) (hperm : calls.Perm calls') :
    Fits s calls'
  /-- a call that finishes is gone -/
  done {s s' : σ} {c : π} {calls : List π} {answer : ρ} (h : Fits s (c :: calls))
    (hready : Blocking.ready s c = true) (hwake : Blocking.wake s c = (s', .done answer)) :
    Fits s' calls
  parked {s s' : σ} {c c' : π} {calls : List π} (h : Fits s (c :: calls))
    (hready : Blocking.ready s c = true) (hwake : Blocking.wake s c = (s', .parked c')) :
    Fits s' (c' :: calls)
  expire {s : σ} {c : π} {calls : List π} (h : Fits s (c :: calls)) :
    Fits (Blocking.expire s c).1 calls
  advance {s s' : σ} {calls : List π} (h : Fits s calls) (ha : Blocking.advance s = some s') :
    Fits s' calls
  elapse {s : σ} {calls : List π} (h : Fits s calls) (left : Timeout) :
    Fits (Blocking.elapse s left) calls

/-- Calls that wait behind gates, each behind the one that `gateOf` names. -/
structure Gated [DecidableEq κ] (gateOf : π → κ) (wakeups : σ → κ → Nat)
    (Fits : σ → List π → Prop) : Prop extends Preserved Fits where
  /-- a call can be resumed exactly if there is a wake-up at its gate -/
  ready (s : σ) (c : π) : Blocking.ready s c = true ↔ 0 < wakeups s (gateOf c)
  /-- there are no more wake-ups at a gate than calls behind it -/
  few {s : σ} {calls : List π} (h : Fits s calls) (k : κ) :
    wakeups s k ≤ calls.countP (gateOf · = k)
  /-- a call that has to wait again has taken a wake-up, and no gate has got one -/
  taken {s s' : σ} {c c' : π} {calls : List π} (h : Fits s (c :: calls))
    (hready : Blocking.ready s c = true) (hwake : Blocking.wake s c = (s', .parked c')) (k : κ) :
    wakeups s' k + (if gateOf c = k then 1 else 0) ≤ wakeups s k

/-- The callers in a room fit its state, and no two have one name. -/
structure Orderly (Fits : σ → List π → Prop) (s : σ) (ws : List (Waiter π ρ ω)) : Prop where
  fits : Fits s (ws.map (·.call))
  names : (ws.map (·.name)).Nodup

section Preserved

variable {Fits : σ → List π → Prop} (hp : Preserved Fits)

include hp

theorem Orderly.perm {s : σ} (h : Orderly Fits s ws)
    {ws' : List (Waiter π ρ ω)} (hperm : ws.Perm ws') : Orderly Fits s ws' :=
  ⟨hp.perm h.fits (hperm.map _), (hperm.map _).nodup h.names⟩

omit hp [Blocking σ π ρ] in
/-- The caller that is resumed next, taken out of its row. -/
theorem perm_row (kept again ws : List (Waiter π ρ ω)) (w : Waiter π ρ ω) :
    (kept ++ again ++ w :: ws).Perm (w :: (kept ++ again ++ ws)) := List.perm_middle

/-- Resuming one caller keeps the room orderly. Its row is those that were passed, those that
wait again, and those whose turn is yet to come. -/
theorem Orderly.resume
    (h : Orderly Fits r.state (r.waiters ++ again ++ w :: ws)) :
    Orderly Fits (sweep.resume (r, again) w).1.state
      ((sweep.resume (r, again) w).1.waiters ++ (sweep.resume (r, again) w).2 ++ ws) := by
  have hrow := h.perm hp (perm_row r.waiters again ws w)
  have hone := resumed r again w
  generalize sweep.resume (r, again) w = next at hone
  cases hone with
  | passed hready =>
    refine hrow.perm hp ?_
    dsimp only
    rw [List.append_assoc, List.append_assoc, List.append_assoc]
    exact List.perm_middle.symm
  | done hready hwake =>
    exact ⟨hp.done hrow.fits hready hwake, (List.nodup_cons.mp hrow.names).2⟩
  | @parked s call hready hwake =>
    have hfits := hp.parked hrow.fits hready hwake
    have hagain : Orderly Fits s ({ w with call := call } :: (r.waiters ++ again ++ ws)) :=
      ⟨hfits, hrow.names⟩
    refine hagain.perm hp ?_
    dsimp only
    rw [← List.append_assoc, List.append_assoc (r.waiters ++ again)]
    exact List.perm_middle.symm

theorem Orderly.foldl
    (h : Orderly Fits r.state (r.waiters ++ again ++ ws)) :
    Orderly Fits (ws.foldl sweep.resume (r, again)).1.state
      ((ws.foldl sweep.resume (r, again)).1.waiters ++
        (ws.foldl sweep.resume (r, again)).2) := by
  induction ws generalizing r again with
  | nil => simpa using h
  | cons w ws ih => exact ih (h.resume hp)

theorem Orderly.sweep (h : Orderly Fits r.state r.waiters) :
    Orderly Fits r.sweep.state r.sweep.waiters :=
  have hrow : Orderly Fits r.state ([] ++ [] ++ r.waiters) := by simpa using h
  Orderly.foldl hp (r := { r with waiters := [] }) hrow

theorem Orderly.turns (n : Nat)
    (h : Orderly Fits r.state r.waiters) :
    Orderly Fits (turns n r).state (turns n r).waiters := by
  induction n generalizing r with
  | zero => exact h.sweep hp
  | succ n ih =>
    have hsweep := h.sweep hp
    unfold WaitingRoom.turns
    dsimp only
    split
    · exact hsweep
    · next s ha =>
      exact ih (r := { r.sweep with state := s }) ⟨hp.advance hsweep.fits ha, hsweep.names⟩

theorem Orderly.settleIn (n : Nat)
    (h : Orderly Fits r.state r.waiters) :
    Orderly Fits (settleIn n r).state (settleIn n r).waiters := by
  induction n generalizing r with
  | zero => exact h
  | succ n ih =>
    unfold WaitingRoom.settleIn
    dsimp only
    split
    · exact ih (h.turns hp _)
    · exact h.turns hp _

theorem Orderly.settle (h : Orderly Fits r.state r.waiters) :
    Orderly Fits r.settle.state r.settle.waiters := h.settleIn hp _

end Preserved

section Gated

variable [DecidableEq κ] {gateOf : π → κ} {wakeups : σ → κ → Nat} {Fits : σ → List π → Prop}
  (hg : Gated gateOf wakeups Fits)

include hg

/-- If nobody finishes in a sweep, every wake-up is taken. The induction is on those whose turn
is yet to come: for each wake-up that is left, one of them is behind the gate. -/
theorem wakeups_foldl
    (h : Orderly Fits r.state (r.waiters ++ again ++ ws))
    (hfew : ∀ k, wakeups r.state k ≤ (ws.map (·.call)).countP (gateOf · = k))
    (hnobody : r.waiters.length + again.length + ws.length ≤
      (ws.foldl sweep.resume (r, again)).1.waiters.length +
        (ws.foldl sweep.resume (r, again)).2.length) (k : κ) :
    wakeups (ws.foldl sweep.resume (r, again)).1.state k = 0 := by
  induction ws generalizing r again with
  | nil => exact Nat.le_zero.mp (hfew k)
  | cons w ws ih =>
    have hnext := h.resume hg.toPreserved
    have hlength := length_foldl_resume ws (sweep.resume (r, again) w).1
      (sweep.resume (r, again) w).2
    have hrow := h.perm hg.toPreserved (perm_row r.waiters again ws w)
    rw [List.foldl_cons] at hnobody ⊢
    have hone := resumed r again w
    generalize sweep.resume (r, again) w = next at hone hnext hlength hnobody
    simp only [List.map_cons, List.countP_cons, decide_eq_true_eq] at hfew
    cases hone with
    | passed hready =>
      refine ih hnext (fun k => ?_) ?_
      · -- there is no wake-up at its gate
        have hk := hfew k
        split at hk
        · next heq =>
          have hnone : ¬ 0 < wakeups r.state k := by
            rw [← heq, ← hg.ready, hready]
            exact Bool.false_ne_true
          exact Nat.le_trans (Nat.le_of_not_lt hnone) (Nat.zero_le _)
        · exact hk
      · simp only [List.length_append, List.length_cons, List.length_nil] at hnobody ⊢
        omega
    | done hready hwake =>
      -- one would be missing
      simp only [List.length_cons] at hlength hnobody
      omega
    | parked hready hwake =>
      have htaken := hg.taken hrow.fits hready hwake
      refine ih hnext (fun k => ?_) ?_
      · exact Nat.le_of_add_le_add_right (Nat.le_trans (htaken k) (hfew k))
      · simp only [List.length_append, List.length_cons, List.length_nil] at hnobody ⊢
        omega

theorem wakeups_sweep (h : Orderly Fits r.state r.waiters)
    (hnobody : r.waiters.length ≤ r.sweep.waiters.length) (k : κ) :
    wakeups r.sweep.state k = 0 := by
  have hrow : Orderly Fits r.state ([] ++ [] ++ r.waiters) := by simpa using h
  refine wakeups_foldl hg (r := { r with waiters := [] }) hrow (hg.few h.fits) ?_ k
  simpa [WaitingRoom.sweep] using hnobody

/-- A round in which nobody finishes ends with all wake-ups taken: its last sweep does. -/
theorem wakeups_turns (n : Nat)
    (h : Orderly Fits r.state r.waiters)
    (hnobody : r.waiters.length ≤ (turns n r).waiters.length) (k : κ) :
    wakeups (turns n r).state k = 0 := by
  induction n generalizing r with
  | zero => exact wakeups_sweep hg h hnobody k
  | succ n ih =>
    have hsweep := h.sweep hg.toPreserved
    have hlength := length_sweep r
    unfold WaitingRoom.turns at hnobody ⊢
    dsimp only at hnobody ⊢
    split at hnobody
    · exact wakeups_sweep hg h hnobody k
    · next s ha =>
      exact ih (r := { r.sweep with state := s }) ⟨hg.advance hsweep.fits ha, hsweep.names⟩
        (Nat.le_trans hlength hnobody)

/-- There are enough rounds: each but the last loses a caller. -/
theorem atRest_settleIn {n : Nat}
    (h : Orderly Fits r.state r.waiters) (hn : r.waiters.length < n) : (settleIn n r).AtRest := by
  induction n generalizing r with
  | zero => cases hn
  | succ n ih =>
    unfold WaitingRoom.settleIn
    dsimp only
    split
    · next hfewer =>
      exact ih (h.turns hg.toPreserved _) (Nat.lt_of_lt_of_le hfewer (Nat.le_of_lt_succ hn))
    · next hnobody =>
      intro w _
      rw [← Bool.not_eq_true, hg.ready, wakeups_turns hg _ h (Nat.le_of_not_lt hnobody)]
      exact Nat.lt_irrefl 0

theorem atRest_settle (h : Orderly Fits r.state r.waiters) : r.settle.AtRest :=
  atRest_settleIn hg h (Nat.lt_succ_self _)

end Gated

/-! ## Deadlines -/

omit [Blocking σ π ρ] in
/-- What is picked by a search that keeps the best so far was there. -/
theorem mem_of_foldl_eq_some {t : Nat} {f : Option (Nat × Waiter π ρ ω) → Waiter π ρ ω →
      Option (Nat × Waiter π ρ ω)}
    (hf : ∀ best w, f best w = best ∨ ∃ t, f best w = some (t, w))
    {best : Option (Nat × Waiter π ρ ω)} (h : ws.foldl f best = some (t, w)) :
    w ∈ ws ∨ best = some (t, w) := by
  induction ws generalizing best with
  | nil => exact .inr h
  | cons x ws ih =>
    obtain hmem | hnext := ih h
    · exact .inl (List.mem_cons_of_mem x hmem)
    · obtain hsame | ⟨t', hnew⟩ := hf best x
      · exact .inr (hsame ▸ hnext)
      · obtain ⟨-, rfl⟩ := Prod.mk.inj (Option.some.inj (hnew.symm.trans hnext))
        exact .inl List.mem_cons_self

omit [Blocking σ π ρ] in
/-- Whoever gives up next is one who waits. -/
theorem mem_of_next? {t : Nat} (h : r.next? = some (t, w)) : w ∈ r.waiters := by
  have hpicked : w ∈ r.waiters ∨ none = some (t, w) := by
    refine mem_of_foldl_eq_some (fun best w => ?_) h
    split
    · exact .inr ⟨_, rfl⟩
    · split
      · exact .inr ⟨_, rfl⟩
      · exact .inl rfl
    · exact .inl rfl
  obtain hmem | hnone := hpicked
  · exact hmem
  · cases hnone

/-- One caller fewer waits when the time of one is up. -/
theorem length_giveUp (instant : Nat) (hw : w ∈ r.waiters) :
    (r.giveUp instant w).waiters.length < r.waiters.length := by
  have herase : (r.waiters.eraseP fun x => x.name == w.name).length < r.waiters.length := by
    rw [List.length_eraseP_of_mem hw (beq_self_eq_true w.name)]
    exact Nat.sub_lt (List.length_pos_of_mem hw) Nat.one_pos
  exact Nat.lt_of_le_of_lt (length_settle _) herase

/-- There are enough deadlines: whoever is waited for has finished in the end, unless nobody is
left whose time will be up. -/
theorem awaitIn_ends {n : Nat} (name : String) (hn : r.waiters.length < n) :
    (awaitIn n r name).isFinished name = true ∨ (awaitIn n r name).next? = none := by
  induction n generalizing r with
  | zero => cases hn
  | succ n ih =>
    unfold awaitIn
    dsimp only
    split
    · next hfinished => exact .inl hfinished
    · have hlength := length_settle { r with
        state := Blocking.elapse r.state (r.next?.map fun x => (⟨x.1 - r.now⟩ : Duration)) }
      generalize settle { r with
        state := Blocking.elapse r.state (r.next?.map fun x => (⟨x.1 - r.now⟩ : Duration)) } = t
        at hlength
      split
      · next hfinished => exact .inl hfinished
      · split
        · next hnone => exact .inr hnone
        · next instant w hnext =>
          have hfewer := length_giveUp instant (mem_of_next? hnext)
          have hleft := Nat.le_trans hlength (Nat.le_of_lt_succ hn)
          exact ih (Nat.lt_of_lt_of_le hfewer hleft)

/-- An answer can be collected unless its caller waits for what never comes. -/
theorem collect_eq_none (name : String) (h : (r.collect name).2 = none) :
    (r.collect name).1.next? = none := by
  obtain hfinished | hnone := awaitIn_ends (r := r) name (Nat.lt_succ_self _)
  · obtain ⟨found, hfound, hname⟩ := List.any_eq_true.mp hfinished
    have hlookup := List.lookup_eq_none_iff.mp h found hfound
    exact absurd (beq_iff_eq.mp hname).symm (bne_iff_ne.mp hlookup)
  · exact hnone

/-! ## What is done in a room -/

/-- A call can be begun beside any others: it answers, and leaves them as they are, or it is one
more of them. -/
def Begins (Fits : σ → List π → Prop) (begun : σ → σ × Progress π ρ) : Prop :=
  ∀ s calls, Fits s calls →
    (∃ s' answer, begun s = (s', .done answer) ∧ Fits s' calls) ∨
      ∃ s' call, begun s = (s', .parked call) ∧ Fits s' (call :: calls)

/-- Work leaves those who wait as they are, and a call can be begun beside them. -/
def Keeps (Fits : σ → List π → Prop) : Step σ π ρ ω → Prop
  | .act work => ∀ s calls, Fits s calls → Fits (work s).1 calls
  | .call _ begun _ => Begins Fits begun

/-- What is made of a state in a room: steps are made by tasks with names of their own, and their
answers are collected. -/
inductive Reached (IsStep : Step σ π ρ ω → Prop) (s : σ) : WaitingRoom σ π ρ ω → Prop
  | start : Reached IsStep s { state := s }
  | spawn {r : WaitingRoom σ π ρ ω} (h : Reached IsStep s r) (task : String)
      (hname : ∀ w ∈ r.waiters, w.name ≠ task) {step : Step σ π ρ ω} (hstep : IsStep step) :
      Reached IsStep s (r.spawn task step)
  | collect {r : WaitingRoom σ π ρ ω} (h : Reached IsStep s r) (task : String) :
      Reached IsStep s (r.collect task).1

/-- What is true of every room that settled from an orderly one, and says nothing of the answers
that wait to be collected. -/
structure Settles (Fits : σ → List π → Prop) (Q : WaitingRoom σ π ρ ω → Prop) : Prop where
  orderly {r : WaitingRoom σ π ρ ω} (h : Q r) : Orderly Fits r.state r.waiters
  settle {r : WaitingRoom σ π ρ ω} (h : Orderly Fits r.state r.waiters) : Q r.settle
  answers {r : WaitingRoom σ π ρ ω} (h : Q r) (finished : List (String × ω)) :
    Q { r with finished := finished }

theorem settles_orderly {Fits : σ → List π → Prop} (hp : Preserved Fits) :
    Settles Fits fun r : WaitingRoom σ π ρ ω => Orderly Fits r.state r.waiters :=
  ⟨id, fun h => h.settle hp, fun h _ => ⟨h.fits, h.names⟩⟩

theorem settles_atRest [DecidableEq κ] {gateOf : π → κ} {wakeups : σ → κ → Nat}
    {Fits : σ → List π → Prop} (hg : Gated gateOf wakeups Fits) :
    Settles Fits fun r : WaitingRoom σ π ρ ω => Orderly Fits r.state r.waiters ∧ r.AtRest :=
  ⟨fun h => h.1, fun h => ⟨h.settle hg.toPreserved, atRest_settle hg h⟩,
    fun h _ => ⟨⟨h.1.fits, h.1.names⟩, h.2⟩⟩

/-- Who is taken out by name is the only one who has it. -/
theorem perm_eraseP {ws : List (Waiter π ρ ω)} (hnames : (ws.map (·.name)).Nodup) (hw : w ∈ ws) :
    ws.Perm (w :: ws.eraseP fun x => x.name == w.name) := by
  obtain ⟨x, pre, post, -, hx, hws, herase⟩ :=
    List.exists_of_eraseP (p := fun x => x.name == w.name) hw (beq_self_eq_true _)
  have hmem : x ∈ ws := hws ▸ List.mem_append_right pre List.mem_cons_self
  obtain rfl : x = w := List.inj_on_of_nodup_map hnames hmem hw (beq_iff_eq.mp hx)
  rw [herase, hws]
  exact List.perm_middle

section Settles

variable {Fits : σ → List π → Prop} {Q : WaitingRoom σ π ρ ω → Prop} {s : σ} {name : String}
  {timeout : Timeout} {begun : σ → σ × Progress π ρ} {finish : ρ → ω} {step : Step σ π ρ ω}
  {IsStep : Step σ π ρ ω → Prop} (hp : Preserved Fits) (hQ : Settles Fits Q)

include hp hQ

theorem Settles.enter (h : Q r) (hname : ∀ w ∈ r.waiters, w.name ≠ name)
    (hbegun : Begins Fits begun) : Q (r.enter name timeout begun finish) := by
  obtain ⟨hfits, hnames⟩ := hQ.orderly h
  unfold WaitingRoom.enter
  obtain ⟨s, answer, hdone, hs⟩ | ⟨s, call, hparked, hs⟩ := hbegun r.state _ hfits
  · rw [hdone]
    exact hQ.settle ⟨hs, hnames⟩
  · rw [hparked]
    refine hQ.settle (Orderly.perm hp ?_ (List.perm_append_singleton _ _).symm)
    refine ⟨hs, List.nodup_cons.mpr ⟨?_, hnames⟩⟩
    rw [List.mem_map]
    rintro ⟨w, hw, heq⟩
    exact hname w hw heq

theorem Settles.spawn (h : Q r) (hname : ∀ w ∈ r.waiters, w.name ≠ name)
    (hstep : Keeps Fits step) : Q (r.spawn name step) := by
  cases step with
  | act work =>
    have ho := hQ.orderly h
    have hworked : Q (WaitingRoom.settle { r with state := (work r.state).1 }) :=
      hQ.settle ⟨hstep _ _ ho.fits, ho.names⟩
    exact hQ.answers hworked _
  | call timeout begun finish => exact hQ.enter hp h hname hstep

theorem Settles.giveUp (h : Q r) (instant : Nat) (hw : w ∈ r.waiters) :
    Q (r.giveUp instant w) := by
  have hrow := (hQ.orderly h).perm hp (perm_eraseP (hQ.orderly h).names hw)
  exact hQ.settle ⟨hp.expire hrow.fits, (List.nodup_cons.mp hrow.names).2⟩

theorem Settles.awaitIn (n : Nat) (name : String) (h : Q r) : Q (awaitIn n r name) := by
  induction n generalizing r with
  | zero => exact h
  | succ n ih =>
    unfold WaitingRoom.awaitIn
    dsimp only
    split
    · exact h
    · have ho := hQ.orderly h
      have hsettled : Q (WaitingRoom.settle { r with
          state := Blocking.elapse r.state (r.next?.map fun x => (⟨x.1 - r.now⟩ : Duration)) }) :=
        hQ.settle ⟨hp.elapse ho.fits _, ho.names⟩
      split
      · exact hsettled
      · split
        · exact hsettled
        · next hnext => exact ih (hQ.giveUp hp hsettled _ (mem_of_next? hnext))

theorem Settles.collect (name : String) (h : Q r) : Q (r.collect name).1 :=
  hQ.answers (hQ.awaitIn hp (r.waiters.length + 1) name h) _

/-- What is true at the start, and of every room that settled, is true whatever is done. -/
theorem Settles.reached (hsteps : ∀ step, IsStep step → Keeps Fits step) (hs : Q { state := s })
    (h : Reached IsStep s r) : Q r := by
  induction h with
  | start => exact hs
  | spawn _ _ hname hstep ih => exact hQ.spawn hp ih hname (hsteps _ hstep)
  | collect _ name ih => exact hQ.collect hp name ih

end Settles

section Reached

variable {Fits : σ → List π → Prop} {s : σ} {IsStep : Step σ π ρ ω → Prop}

/-- Whatever is done in a room, its state fits those who wait. -/
theorem Reached.fits (hp : Preserved Fits) (hsteps : ∀ step, IsStep step → Keeps Fits step)
    (hs : Fits s []) (h : Reached IsStep s r) : Fits r.state (r.waiters.map (·.call)) :=
  ((settles_orderly hp).reached hp hsteps ⟨hs, List.nodup_nil⟩ h).fits

/-- Whatever is done in a room, it comes to rest after every step. -/
theorem Reached.atRest [DecidableEq κ] {gateOf : π → κ} {wakeups : σ → κ → Nat}
    (hg : Gated gateOf wakeups Fits) (hsteps : ∀ step, IsStep step → Keeps Fits step)
    (hs : Fits s []) (h : Reached IsStep s r) : r.AtRest := by
  refine ((settles_atRest hg).reached hg.toPreserved hsteps ⟨⟨hs, List.nodup_nil⟩, ?_⟩ h).2
  rintro w ⟨⟩

end Reached

end WaitingRoom

end Netstack
