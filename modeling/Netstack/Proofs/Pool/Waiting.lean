import Netstack.Proofs.Pool.BacklogSteps

/-
Who waits to be accepted, told from the history.

A child waits for its listener from when it is offered until it is accepted, closed or freed, or
the listener listens anew. The pool does not keep this list: the backlog has bare handles, and a
child that is closed or freed stays in it. So the backlog is the list of those who wait, in their
order, with others in between that were ended while they waited. Most of these are told apart by
the look that the pool takes at their slots; but not one that was closed and has been connected
again, for it still has its parent.
-/

set_option autoImplicit false

namespace Netstack

open Pool (Op)

/-! ## One operation -/

namespace Census

variable {σ τ : Census} {parent c : Handle} {peer : Peer}

theorem ChildFor.of_sameEnds (hc : σ.ChildFor parent peer c)
    (hs : (τ.status c.index).SameEnds (σ.status c.index)) : τ.ChildFor parent peer c := by
  refine ⟨⟨hs.generation.trans hc.live.1, ?_⟩, hs.phase.trans hc.connected,
    hs.parent.trans hc.parent, hs.peer.trans hc.peer⟩
  rw [hs.phase]
  exact hc.live.2

end Census

namespace Pool

variable {p : Pool} {i : Nat}

/-- Offering a child ends nobody but the child. -/
theorem active_offerChild (parent : Handle) (peer : Peer)
    (ha : (p.census.status i).phase.isActive = true) :
    ((p.offerChild parent peer).1.census.status i).phase.isActive = true := by
  obtain ⟨e, he⟩ | ⟨_, _, -, -, -, he⟩ | ⟨child, o, ⟨-, hc⟩ | ⟨e, -, hc⟩⟩ :=
    offerChild_cases p parent peer
  · rw [he]
    exact ha
  · rw [he]
    exact ha
  · rw [hc]
    exact Census.Openings.active ((Relation.ReflTransGen.single o.claim).tail o.adopt) ha
  · -- the slot of the child was free
    rw [hc]
    by_contra hn
    have hi := o.ends_rejected_iff.1 (.inl ⟨ha, eq_false_of_ne_true hn⟩)
    rw [hi, o.free] at ha
    cases ha

end Pool

namespace System

variable {s : System} {op : Op} {h c : Handle} {w : Nat → List Handle} {xs xs' ys : List Handle}
  {gone gone' : Handle → Prop}

/-- An operation closes or frees a connection, for its own sake or along with another. -/
def ends (s : System) (c : Handle) : Op → Bool
  | .close x => x = c
  | .free x => (s.pool.slot? c).isSome && ((s.pool.free x).1.slot? c).isNone
  | _ => false

/-- Who waits for a listener after an operation, if these waited before: who is accepted, closed
or freed waits no more, and a new child waits behind the others. Nobody waits for a connection
that has just been made, or has just begun to listen. -/
def await (s : System) (h : Handle) (op : Op) (xs : List Handle) : List Handle :=
  if (s.pool.slot? h).isNone || s.relistens h op then []
  else (xs.filter fun c => !s.ends c op && (h, c) ∉ s.handover op) ++ s.offersTo op h

theorem ends_of_quiet (hq : op.isQuiet = true) : s.ends c op = false := by
  cases op <;> first | rfl | cases hq

/-- Only closing and freeing end what is active. -/
theorem active_step {i : Nat} (hclose : ∀ x, op ≠ .close x) (hfree : ∀ x, op ≠ .free x)
    (ha : (s.pool.census.status i).phase.isActive = true) :
    ((s.step op).1.pool.census.status i).phase.isActive = true := by
  by_cases hq : op.isQuiet = true
  · rw [census_step_of_quiet s hq]
    exact ha
  cases op with
  | alloc => exact (Pool.openings_alloc _).active ha
  | bind h port => exact (Pool.openings_bind _ h port).active ha
  | listen h backlog => exact (Pool.openings_listen _ h backlog).active ha
  | connect h peer => exact (Pool.openings_connect _ h peer).active ha
  | setPriority h priority => exact (Pool.openings_setPriority _ h priority).active ha
  | setRecvTimeout h timeout => exact (Pool.openings_setRecvTimeout _ h timeout).active ha
  | setSendTimeout h timeout => exact (Pool.openings_setSendTimeout _ h timeout).active ha
  | offerChild parent peer => exact Pool.active_offerChild parent peer ha
  | resolveInbound dstPort peer =>
    obtain he | ⟨conn, he⟩ := Pool.resolveInbound_fst s.pool dstPort peer
    · rw [show (s.step (.resolveInbound dstPort peer)).1.pool = s.pool from he]
      exact ha
    · rw [show (s.step (.resolveInbound dstPort peer)).1.pool = _ from he]
      exact Pool.active_offerChild conn peer ha
  | close h => exact absurd rfl (hclose h)
  | free h => exact absurd rfl (hfree h)
  | _ => exact absurd rfl hq

/-- A child that is neither closed nor freed stays one. -/
theorem pending_of_not_ends (hw : s.pool.Backlogs w) (hc : s.pool.isPendingChild h c = true)
    (hno : s.ends c op = false) : (s.step op).1.pool.isPendingChild h c = true := by
  obtain ⟨peer, hchild⟩ := Pool.isPendingChild_iff.1 hc
  refine Pool.isPendingChild_iff.2 ⟨peer, hchild.of_sameEnds ?_⟩
  by_cases hclose : ∃ x, op = .close x
  · obtain ⟨x, rfl⟩ := hclose
    have hx : x ≠ c := of_decide_eq_false hno
    show ((s.pool.close x).1.census.status c.index).SameEnds _
    obtain ⟨-, he⟩ | ⟨-, -, he⟩ | ⟨hl, -, -, he⟩ := Pool.close_cases s.pool x
    · rw [he]
      exact .refl _
    · rw [he]
      exact .refl _
    · rw [he]
      exact (Census.alike_shut fun hi => hx (hl.eq_of_index_eq hchild.live hi.symm)).sameEnds
  by_cases hfree : ∃ x, op = .free x
  · obtain ⟨x, rfl⟩ := hfree
    obtain ⟨t, ht⟩ := Pool.live_iff.1 hchild.live
    obtain ⟨w', -, hfrees⟩ := Pool.free_frees hw x
    have hlive : (s.pool.free x).1.census.Live c := by
      rw [Pool.live_iff, ← Option.isSome_iff_exists]
      rw [ends, ht] at hno
      simpa using hno
    exact (hfrees.alike c.index hlive.2).sameEnds
  · refine (moves_step s op).sameEnds hchild.connected ?_
    refine active_step (fun x hx => hclose ⟨x, hx⟩) (fun x hx => hfree ⟨x, hx⟩) ?_
    rw [hchild.connected]
    rfl

theorem await_of_not_live (hn : ¬ s.pool.census.Live h) : s.await h op xs = [] := by
  rw [await, Pool.not_live_iff.1 hn]
  rfl

theorem await_of_live (hl : s.pool.census.Live h) : s.await h op xs =
    if s.relistens h op then [] else
      (xs.filter fun c => !s.ends c op && (h, c) ∉ s.handover op) ++ s.offersTo op h := by
  obtain ⟨t, ht⟩ := Pool.live_iff.1 hl
  rw [await, ht]
  rfl

/-- Whoever accepts takes the one out of the list that he is given. -/
theorem await_of_finds (hl : s.pool.census.Live h) (hq : op.isQuiet = true) {P : Handle → Bool}
    (hfinds : ∀ c, (h, c) ∈ s.handover op ↔ xs.find? P = some c) :
    s.await h op ys = ys.filter fun c => xs.find? P ≠ some c := by
  rw [await_of_live hl, relistens_of_quiet hq, if_neg (by simp),
    offersTo_of_made (made_of_quiet hq), List.append_nil]
  refine List.filter_congr fun c _ => ?_
  rw [ends_of_quiet hq, Bool.not_false, Bool.true_and]
  exact decide_eq_decide.2 (not_congr (hfinds c))

theorem nodup_offersTo (s : System) (op : Op) (h : Handle) : (s.offersTo op h).Nodup :=
  (s.nodup_made op).filter _

/-- Who waits for a connection stands in its backlog, in order, with others in between that were
ended while they waited. If this is so before an operation it is so after. -/
theorem Passes.winnow (hpass : s.Passes op h xs xs') (hl : s.pool.census.Live h)
    (hw : s.pool.Backlogs w) (hwin : Winnow (s.pool.isPendingChild h · = true) gone xs ys)
    (hnodup : ys.Nodup) (hgone : ∀ c, gone c → gone' c)
    (hends : ∀ c ∈ ys, s.ends c op = true → gone' c) :
    Winnow ((s.step op).1.pool.isPendingChild h · = true) gone' xs' (s.await h op ys) := by
  cases hpass with
  | relists begins =>
    rw [await_of_live hl, if_pos begins]
    exact .nil
  | looks quiet finds =>
    rw [await_of_finds hl quiet finds]
    refine (hwin.tail hnodup).imp (fun c hc => ?_) hgone
    rw [Pool.isPendingChild_congr (census_step_of_quiet s quiet)]
    exact hc
  | joins begins hands =>
    rw [await_of_live hl, begins, if_neg (by simp)]
    have hkeep : ∀ c, (!s.ends c op && decide ((h, c) ∉ s.handover op)) = !s.ends c op :=
      fun c => by rw [decide_eq_true (hands c), Bool.and_true]
    refine Winnow.append (hwin.filter ?_ ?_ hgone) (.of_forall fun c hc => (mem_offersTo.1 hc).2)
    · intro c _ hc hstays
      rw [hkeep] at hstays
      exact pending_of_not_ends hw hc (by simpa using hstays)
    · intro c hin _ hdrops
      rw [hkeep] at hdrops
      exact hends c hin (by simpa using hdrops)

/-- A new child is none that waited before. -/
theorem nodup_await (hfam : s.pool.census.Family) (hl : s.pool.census.Live h) (hnodup : ys.Nodup)
    (hlive : ∀ c ∈ ys, s.pool.census.Live c) : (s.await h op ys).Nodup := by
  rw [await_of_live hl]
  split
  · exact List.nodup_nil
  · refine List.nodup_append.2 ⟨hnodup.filter _, s.nodup_offersTo op h, ?_⟩
    rintro c hc _ hnew rfl
    have hbegins := begins_of_mem_made hfam (mem_offersTo.1 hnew).1
    exact (hlive c (List.mem_filter.1 hc).1).2 hbegins.free

end System

/-! ## The history of a site -/

namespace Site

variable {s : Site} {d : Deed} {deeds : List Deed} {h c : Handle} {w : Nat → List Handle}

/-- A deed closes or frees a connection. -/
def ends (s : Site) (c : Handle) : Deed → Bool
  | .ask op => s.system.ends c op
  | _ => false

/-- Who waits for a listener after a deed. What is done to queues and event groups changes
nothing. -/
def await (s : Site) (h : Handle) (d : Deed) (xs : List Handle) : List Handle :=
  match d with
  | .ask op => s.system.await h op xs
  | _ => xs

def waitingFrom (h : Handle) : Site → List Handle → List Deed → List Handle
  | _, xs, [] => xs
  | s, xs, d :: deeds => waitingFrom h (s.perform d) (s.await h d xs) deeds

/-- The children that wait for a listener after some deeds, the oldest first: they were offered
to it since it listens, and neither accepted nor closed nor freed since then. -/
def waiting (s : Site) (h : Handle) (deeds : List Deed) : List Handle := waitingFrom h s [] deeds

/-- A child was closed or freed while it waited for a listener. -/
def Abandoned (s : Site) (h c : Handle) (deeds : List Deed) : Prop :=
  ∃ before d after, deeds = before ++ d :: after ∧ c ∈ s.waiting h before ∧
    (s.run before).ends c d = true

theorem waitingFrom_snoc (xs : List Handle) :
    waitingFrom h s xs (deeds ++ [d]) = (s.run deeds).await h d (waitingFrom h s xs deeds) := by
  induction deeds generalizing s xs with
  | nil => rfl
  | cons d₀ deeds ih => exact ih _

theorem waiting_snoc :
    s.waiting h (deeds ++ [d]) = (s.run deeds).await h d (s.waiting h deeds) :=
  waitingFrom_snoc []

theorem system_snoc (s : Site) (deeds : List Deed) (op : Op) :
    (s.run (deeds ++ [.ask op])).system = ((s.run deeds).system.step op).1 := by
  rw [run_snoc]
  rfl

theorem Abandoned.snoc (ha : s.Abandoned h c deeds) (d : Deed) :
    s.Abandoned h c (deeds ++ [d]) := by
  obtain ⟨before, d₀, after, rfl, hc, hends⟩ := ha
  exact ⟨before, d₀, after ++ [d], by simp, hc, hends⟩

theorem abandoned_of_ends (hc : c ∈ s.waiting h deeds) (hends : (s.run deeds).ends c d = true) :
    s.Abandoned h c (deeds ++ [d]) := ⟨deeds, d, [], rfl, hc, hends⟩

theorem Touch.sameBacklogs {q : Pool} (ht : s.Touch d q) : s.pool.SameBacklogs q := by
  cases ht with
  | nothing => exact .refl _
  | queue => exact Pool.sameBacklogs_setQueue _ _
  | events => exact Pool.sameBacklogs_setEvents _ _

theorem await_of_touch (hd : ∀ op, d ≠ .ask op) (xs : List Handle) : s.await h d xs = xs := by
  cases d with
  | ask op => exact absurd rfl (hd op)
  | call | wake | expire | clear | destroy | set | unset => rfl

/-- The backlog of every connection has those who wait for it, in order, and apart from them only
such as were closed or freed while they waited. -/
structure Orderly (s : Site) (deeds : List Deed) : Prop where
  family : (s.run deeds).pool.census.Family
  backlogs : ∃ w, (s.run deeds).pool.Backlogs w
  winnow : ∀ h, (s.run deeds).pool.census.Live h →
    Winnow ((s.run deeds).pool.isPendingChild h · = true) (s.Abandoned h · deeds)
      ((s.run deeds).pool.backlogOf h) (s.waiting h deeds)
  nodup : ∀ h, (s.run deeds).pool.census.Live h → (s.waiting h deeds).Nodup

namespace Orderly

theorem live_of_waiting (ho : s.Orderly deeds) (hl : (s.run deeds).pool.census.Live h)
    (hc : c ∈ s.waiting h deeds) : (s.run deeds).pool.census.Live c := by
  obtain ⟨_, hchild⟩ := Pool.isPendingChild_iff.1 ((ho.winnow h hl).stays_of_mem hc)
  exact hchild.live

/-- Work on a queue or an event group concerns nobody who waits. -/
theorem snoc_of_touch (ho : s.Orderly deeds) (hd : ∀ op, d ≠ .ask op) :
    s.Orderly (deeds ++ [d]) := by
  have ht := touch_perform (s.run deeds) hd
  have hcensus := ht.census
  obtain ⟨w, hw⟩ := ho.backlogs
  have hw' := ht.sameBacklogs.backlogs hw
  have hwaiting : ∀ h, s.waiting h (deeds ++ [d]) = s.waiting h deeds := fun h => by
    rw [waiting_snoc, await_of_touch hd]
  rw [← run_snoc] at hcensus hw'
  refine ⟨?_, ⟨w, hw'⟩, fun h hl => ?_, fun h hl => ?_⟩
  · rw [hcensus]
    exact ho.family
  · rw [hcensus] at hl
    rw [hwaiting, hw'.backlogOf_eq, ← hw.backlogOf_eq]
    refine (ho.winnow h hl).imp (fun c hc => ?_) fun c hc => hc.snoc d
    rw [Pool.isPendingChild_congr hcensus]
    exact hc
  · rw [hcensus] at hl
    rw [hwaiting]
    exact ho.nodup h hl

theorem snoc_of_ask (ho : s.Orderly deeds) (op : Op) : s.Orderly (deeds ++ [.ask op]) := by
  obtain ⟨w, hw⟩ := ho.backlogs
  obtain ⟨hw', hpass⟩ := System.passes_step hw ho.family op
  have hfam := ((s.run deeds).system.moves_step op).invariant (fun _ _ ho hσ => hσ.opening ho)
    (fun _ _ he hσ => hσ.ending he) ho.family
  rw [← system_snoc] at hw' hpass hfam
  refine ⟨hfam, hw', fun h hl => ?_, fun h hl => ?_⟩ <;> rw [waiting_snoc]
  · obtain ⟨hbefore, hpass⟩ | ⟨hbefore, hnil⟩ := hpass h hl
    · have hwin := hpass.winnow hbefore hw (ho.winnow h hbefore) (ho.nodup h hbefore)
        (fun c hc => hc.snoc _) fun c hc hends => abandoned_of_ends (d := .ask op) hc hends
      rw [← system_snoc] at hwin
      exact hwin
    · -- nobody waits for a connection that was not there before
      rw [hnil, show (s.run deeds).await h (.ask op) _ = [] from System.await_of_not_live hbefore]
      exact .nil
  · by_cases hbefore : (s.run deeds).pool.census.Live h
    · exact System.nodup_await ho.family hbefore (ho.nodup h hbefore) fun c hc =>
        ho.live_of_waiting hbefore hc
    · rw [show (s.run deeds).await h (.ask op) _ = [] from System.await_of_not_live hbefore]
      exact List.nodup_nil

end Orderly

end Site

namespace Pool

variable {p : Pool} {cfg : Config}

theorem backlogs_new (hnew : new cfg = .ok p) : p.Backlogs fun _ => [] := by
  intro i
  rw [slotAt_new hnew]
  exact rfl

/-- After every run the backlogs have those who wait, in order. -/
theorem orderly_run (hnew : new cfg = .ok p) (deeds : List Deed) :
    p.unattended.Orderly deeds := by
  induction deeds using List.reverseRecOn with
  | nil =>
    have hw := backlogs_new hnew
    refine ⟨family_new hnew, ⟨_, hw⟩, fun h _ => ?_, fun h _ => List.nodup_nil⟩
    rw [show (p.unattended.run []).pool.backlogOf h = [] from hw.backlogOf_eq h]
    exact .nil
  | append_singleton deeds d ih =>
    obtain hd | ⟨op, rfl⟩ := d.touch_or_ask
    · exact ih.snoc_of_touch hd
    · exact ih.snoc_of_ask op

end Pool

end Netstack
