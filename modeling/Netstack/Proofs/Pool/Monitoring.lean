import Netstack.Proofs.Pool.Family
import Netstack.Proofs.Pool.Readiness
import Netstack.Proofs.Pool.Stories

/-
A monitor is told the whole story of every slot.

An operation changes a connection first and tells of it afterwards, and may change and tell of
others in between: a listener that is freed takes the children in its backlog along, and a child
that finds no room is closed and freed again. `Pool.Tells` compares the slots before and after
with the events that were told meanwhile, slot by slot, so that what is told of other slots in
between does not matter.

Something is told of a change only on a connection with an event group. A pool that keeps the
event groups of closed connections has one on every connection.
-/

set_option autoImplicit false

namespace Netstack

/-! ## Event groups that stay -/

namespace Slot

variable {s t : Slot} {limits : Limits}

/-- A connection has an event group to announce itself on. -/
def Equipped (s : Slot) : Prop := s.phase ≠ .free → s.events.isSome = true

theorem Equipped.congr (h : s.Equipped) (hp : t.phase ≠ .free → s.phase ≠ .free)
    (he : t.events.isSome = s.events.isSome) : t.Equipped := fun ht => he.trans (h (hp ht))

@[simp] theorem isSome_signal (bits : EventBits) (s : Slot) :
    (s.signal bits).events.isSome = s.events.isSome := Option.isSome_map

@[simp] theorem isSome_unsignal (bits : EventBits) (s : Slot) :
    (s.unsignal bits).events.isSome = s.events.isSome := Option.isSome_map

@[simp] theorem isSome_announced (clear set : EventBits) (s : Slot) :
    (s.announced clear set).events.isSome = s.events.isSome := by
  rw [announced, isSome_signal, isSome_unsignal]

/-- Every move keeps a slot equipped, if closing gives nothing up. -/
theorem Move.equipped (hm : Move limits s t) (hkeep : limits.releaseOnClose = false)
    (h : s.Equipped) : t.Equipped := by
  cases hm with
  | prepare free prepared =>
    intro _
    rw [(prepared_cases prepared).2.2.1]
    rfl
  | foster free prepared parent o peer =>
    intro _
    show Option.isSome _ = true
    rw [Pool.makeChild, (prepared_cases prepared).2.2.1]
    rfl
  | bind closed o => exact h.congr (fun _ => by rw [closed]; simp) (isSome_announced _ _ _)
  | connect idle o =>
    refine h.congr (fun _ => ?_) (isSome_announced _ _ _)
    obtain hp | hp := idle <;> rw [hp] <;> simp
  | options | children | leave | take => exact h.congr id rfl
  | join | receive | send => exact h.congr id (isSome_signal _ _)
  | deserted | miss => exact h.congr id (isSome_unsignal _ _)
  | close active =>
    rw [ended, hkeep, if_neg (by simp)]
    refine h.congr (fun _ hp => ?_) (isSome_signal _ _)
    rw [hp] at active
    cases active
  | vacate closed => exact fun hp => absurd rfl hp
  | wait found same => exact h.congr id (by rw [found]; rfl)

theorem Change.equipped (hc : Change limits s t) (hkeep : limits.releaseOnClose = false)
    (h : s.Equipped) : t.Equipped := by
  cases hc with
  | move made => exact made.equipped hkeep h
  | listen bound empty => exact h.congr (fun _ => by rw [bound]; simp) (isSome_announced _ _ _)

end Slot

/-! ## Chapters of live connections -/

namespace Census.Live

variable {σ : Census} {h : Handle} {e : ConnEvent} {st : Standing} {t : Status}

/-- A live connection goes on, and says how far it got. -/
theorem goesOn (hl : σ.Live h) (hnews : e.news? = some (h, some st))
    (hno : ∀ k, e ≠ .allocated k) (hd : st.Describes t) (hg : t.generation = h.generation) :
    Status.Chapter h.index (σ.status h.index) e t := by
  refine .goesOn hl.2 ?_ hno hd (hg.trans hl.1.symm)
  rw [hl.1]
  exact hnews

theorem ends (hl : σ.Live h) (hfree : t.phase = .free) (hg : t.generation = h.generation + 1) :
    Status.Chapter h.index (σ.status h.index) (.freed h) t := by
  have hchapter := Status.Chapter.ends (i := h.index) hl.2 hfree (by rw [hl.1]; exact hg)
  rw [hl.eta] at hchapter
  exact hchapter

end Census.Live

/-! ## What is told from one moment to another -/

namespace Monitor

theorem record_all (log es : List ConnEvent) :
    es.foldl record (attached log) = attached (log ++ es) := by
  induction es generalizing log with
  | nil => rw [List.append_nil, List.foldl_nil]
  | cons e es ih => rw [List.foldl_cons, record, ih, List.append_assoc, List.singleton_append]

end Monitor

namespace Pool

variable {p q r : Pool} {h : Handle} {i : Nat} {s : Slot} {es es' : List ConnEvent}

/-- These events were told in between, and they are the story of every slot. -/
structure Tells (p : Pool) (es : List ConnEvent) (q : Pool) : Prop where
  monitor : q.monitor = es.foldl Monitor.record p.monitor
  story : ∀ i, Status.Story i (p.census.status i) (es.filter (·.isAbout i)) (q.census.status i)

theorem Tells.refl (p : Pool) : p.Tells [] p := ⟨rfl, fun _ => .refl⟩

theorem Tells.trans (h₁ : p.Tells es q) (h₂ : q.Tells es' r) : p.Tells (es ++ es') r := by
  refine ⟨?_, fun i => ?_⟩
  · rw [List.foldl_append, ← h₁.monitor]
    exact h₂.monitor
  · rw [List.filter_append]
    exact (h₁.story i).trans (h₂.story i)

theorem tells_of_unmoved (hm : q.monitor = p.monitor)
    (hs : ∀ i, (p.census.status i).Unmoved (q.census.status i)) : p.Tells [] q :=
  ⟨hm, fun i => .of_unmoved (hs i)⟩

/-- Everything that was told is the story of one slot, and the others did not move. -/
theorem tells_of_story (hm : q.monitor = es.foldl Monitor.record p.monitor)
    (hself : Status.Story i (p.census.status i) es (q.census.status i))
    (hothers : ∀ j, j ≠ i → (p.census.status j).Unmoved (q.census.status j)) : p.Tells es q := by
  refine ⟨hm, fun j => ?_⟩
  by_cases hj : j = i
  · rw [hj, hself.filter_self]
    exact hself
  · rw [hself.filter_of_ne hj]
    exact .of_unmoved (hothers j hj)

/-- What happened in between was told, and no slot was said to be given back twice. -/
def Reports (p q : Pool) : Prop :=
  ∃ es, p.Tells es q ∧ ∀ i, (es.filter (·.isAbout i)).countP ConnEvent.isFreed ≤ 1

theorem Tells.reports (ht : p.Tells es q) (hone : es.countP ConnEvent.isFreed ≤ 1) :
    p.Reports q :=
  ⟨es, ht, fun _ => (List.filter_sublist.countP_le).trans hone⟩

theorem Reports.refl (p : Pool) : p.Reports p := (Tells.refl p).reports (Nat.zero_le 1)

/-- Nothing that an observer is told of has changed. -/
theorem reports_of_census (hm : q.monitor = p.monitor) (hc : q.census = p.census) :
    p.Reports q := by
  refine (tells_of_unmoved hm fun i => ?_).reports (Nat.zero_le 1)
  rw [hc]
  exact .refl _

/-- What is told of connections has nothing to do with the ports. -/
theorem Reports.of_withPorts {t : PortTable} (h : ({ p with ports := t } : Pool).Reports q) :
    p.Reports q := by
  obtain ⟨es, ht, hone⟩ := h
  exact ⟨es, ⟨ht.monitor, ht.story⟩, hone⟩

/-! ## Handing out, and getting two ends -/

/-- The pool with a slot handed out. -/
def handedOut (p : Pool) (i : Nat) (t : Slot) : Pool :=
  (p.modify i fun _ => t).emit (.allocated ⟨i, t.generation⟩)

theorem status_handedOut {t : Slot} (hi : i < p.slots.size) :
    (p.handedOut i t).census.status i = t.status := by
  rw [handedOut, census_emit, status_census, slotAt_modify hi]

theorem slotAt_handedOut_of_ne {t : Slot} {j : Nat} (hj : j ≠ i) :
    (p.handedOut i t).slotAt j = p.slotAt j := slotAt_modify_of_ne hj.symm p _

theorem tells_handedOut {t : Slot} (hi : i < p.slots.size) (hfree : (p.slotAt i).phase = .free)
    (hprep : (p.slotAt i).prepared p.limits = .ok t) :
    p.Tells [.allocated ⟨i, t.generation⟩] (p.handedOut i t) := by
  have hstatus := Slot.status_prepared hprep
  have hgen : t.generation = (p.slotAt i).generation := congrArg Status.generation hstatus
  have hself : Status.Chapter i (p.census.status i) (.allocated ⟨i, t.generation⟩)
      ((p.handedOut i t).census.status i) := by
    rw [status_handedOut hi, hstatus, hgen]
    exact .begins hfree rfl rfl
  refine tells_of_story rfl hself.story fun j hj => ?_
  rw [status_census, status_census, slotAt_handedOut_of_ne hj]
  exact .refl _

theorem reports_alloc (p : Pool) : p.Reports p.alloc.1 := by
  obtain ⟨e, he⟩ | ⟨i, t, hi, hfree, hprep, heq⟩ := alloc_stages p
  · rw [he]
    exact .refl p
  · rw [heq]
    exact (tells_handedOut hi hfree hprep).reports (Nat.zero_le 1)

/-- A connection with an event group changes, and says how far it got. -/
theorem reports_announce {f : Slot → Slot} {event : ConnEvent} {st : Standing}
    (hp : ∀ i, (p.slotAt i).Equipped) (hs : p.slot? h = some s) (hevents : (f s).events = s.events)
    (hg : (f s).generation = s.generation) (hnews : event.news? = some (h, some st))
    (hno : ∀ k, event ≠ .allocated k) (hd : st.Describes (f s).status) (clear set : EventBits) :
    p.Reports ((p.modify h.index f).announce h clear set event).1 := by
  obtain ⟨hat, hgen, hlive⟩ := slot?_eq_some_iff_slotAt.1 hs
  -- without an event group the change would be made and not be told of
  have hequipped := hp h.index
  rw [hat] at hequipped
  obtain ⟨g, hgroup⟩ := Option.isSome_iff_exists.1 (hequipped hlive)
  obtain ⟨hself, hothers⟩ := slotAt_announce hs hg hd.ne_free clear set event
  have hmonitor : ((p.modify h.index f).announce h clear set event).1.monitor =
      p.monitor.record event := by
    rw [announce_of_events (slot?_modify hs hg hd.ne_free) (hevents.trans hgroup)]
    rfl
  have hchapter : Status.Chapter h.index (p.census.status h.index) event
      (((p.modify h.index f).announce h clear set event).1.census.status h.index) := by
    rw [status_census (p := ((p.modify h.index f).announce h clear set event).1), hself]
    exact (live_of_slot? hs).goesOn hnews hno hd (hg.trans hgen)
  refine (tells_of_story hmonitor hchapter.story fun j hj => ?_).reports ?_
  · rw [status_census, status_census, hothers j hj]
    exact .refl _
  · rw [ConnEvent.countP_freed_of_news hnews]
    exact Nat.zero_le 1

theorem reports_bind (hp : ∀ i, (p.slotAt i).Equipped) (h : Handle) (port : UInt8) :
    p.Reports (p.bind h port).1 := by
  unfold bind
  obtain ⟨-, hs⟩ | ⟨s, hs?, hs, -, -⟩ := slot_cases p h
  · rw [hs]
    exact .refl p
  rw [hs]
  dsimp only
  split
  · exact .refl p
  · split
    · exact .refl p
    · next lport _ =>
      exact reports_announce hp hs? rfl rfl rfl (by simp)
        (show (Standing.bound lport).Describes _ from ⟨rfl, rfl⟩) _ _

theorem reports_listen (hp : ∀ i, (p.slotAt i).Equipped) (h : Handle) (backlog : Nat) :
    p.Reports (p.listen h backlog).1 := by
  unfold listen
  cases (Fifo.new backlog : Except Error (Fifo Handle)) with
  | error e => exact .refl p
  | ok queue =>
    obtain ⟨-, hs⟩ | ⟨s, hs?, hs, -, -⟩ := slot_cases p h
    · rw [hs]
      exact .refl p
    rw [hs]
    dsimp only
    split
    · exact .refl p
    · split
      · exact .refl p
      · next t _ =>
        refine Reports.of_withPorts (t := t) ?_
        exact reports_announce (p := { p with ports := t }) hp hs? rfl rfl rfl (by simp)
          (show (Standing.listening s.options.lport).Describes _ from ⟨rfl, rfl⟩) _ _

theorem reports_connect (hp : ∀ i, (p.slotAt i).Equipped) (h : Handle) (peer : Peer) :
    p.Reports (p.connect h peer).1 := by
  unfold connect
  split
  · exact .refl p
  obtain ⟨-, hs⟩ | ⟨s, hs?, hs, -, -⟩ := slot_cases p h
  · rw [hs]
    exact .refl p
  rw [hs]
  dsimp only
  split
  · exact .refl p
  · split
    · exact .refl p
    · next t _ =>
      refine Reports.of_withPorts (t := t) ?_
      exact reports_announce (p := { p with ports := t }) hp hs? rfl rfl rfl (by simp)
        (show (Standing.connected peer).Describes _ from ⟨rfl, rfl⟩) _ _

theorem reports_setPriority (p : Pool) (h : Handle) (priority : UInt8) :
    p.Reports (p.setPriority h priority).1 := by
  have hmonitor : (p.setPriority h priority).1.monitor = p.monitor := by
    unfold setPriority
    split
    · rfl
    · dsimp only
      split
      · split <;> rfl
      · rfl
  refine (tells_of_unmoved hmonitor fun i => ?_).reports (Nat.zero_le 1)
  obtain ⟨-, he⟩ | ⟨-, hc⟩ := setPriority_cases p h priority
  · rw [he]
    exact .refl _
  · rw [hc, Census.status_rank]
    by_cases hi : i = h.index
    · rw [hi, Census.status_alter_self]
      exact ⟨rfl, rfl, rfl, rfl, rfl⟩
    · rw [Census.status_alter_of_ne hi]
      exact .refl _

/-- Options may change that are no part of how far a connection got. -/
theorem reports_updateOptions (p : Pool) (h : Handle) {f : Options → Options}
    (hport : ∀ o, (f o).lport = o.lport)
    (hpeer : ∀ o, (f o).raddr = o.raddr ∧ (f o).rport = o.rport) :
    p.Reports (p.updateOptions h f).1 := by
  have hmonitor : (p.updateOptions h f).1.monitor = p.monitor := by
    unfold updateOptions
    split <;> rfl
  refine (tells_of_unmoved hmonitor fun i => ?_).reports (Nat.zero_le 1)
  obtain he | ⟨-, hc⟩ := updateOptions_cases p h f
  · rw [he]
    exact .refl _
  · rw [hc]
    by_cases hi : i = h.index
    · rw [hi, Census.status_alter_self]
      refine ⟨rfl, rfl, rfl, hport _, ?_⟩
      rw [Status.peer, Status.peer, (hpeer _).1, (hpeer _).2]
    · rw [Census.status_alter_of_ne hi]
      exact .refl _

/-! ## Closing and freeing -/

theorem monitor_detach (p : Pool) (h : Handle) (s : Slot) :
    (p.detach h s).monitor = p.monitor := by
  unfold detach forgetChild unregister
  dsimp only
  split <;> split <;> (try split) <;> (try split) <;> rfl

/-- What closing an active connection tells, as the continuation of a use that began earlier. -/
theorem tells_close {h : Handle} (hl : q.census.Live h)
    (ha : (q.census.status h.index).phase.isActive = true)
    (hm : q.monitor = p.monitor) (hlive : p.census.Live h)
    (hothers : ∀ j, j ≠ h.index → (p.census.status j).Unmoved (q.census.status j)) :
    p.Tells [.closed h] (q.close h).1 := by
  obtain ⟨s, hs⟩ := live_iff.1 hl
  obtain ⟨hn, -⟩ | ⟨-, hc, -⟩ | ⟨-, -, -, hcensus⟩ := close_cases q h
  · exact absurd hl hn
  · rw [hc] at ha
    cases ha
  have hactive : s.phase.isActive = true := by
    rw [status_of_slot? hs] at ha
    exact ha
  have hmonitor : (q.close h).1.monitor = p.monitor.record (.closed h) := by
    rw [close_of_active hs hactive, ← hm, ← monitor_detach q h s]
    rfl
  have hchapter : Status.Chapter h.index (p.census.status h.index) (.closed h)
      ((q.close h).1.census.status h.index) := by
    have hgen : ((q.close h).1.census.status h.index).generation = h.generation := by
      rw [hcensus]
      exact (Census.live_shut hl).1
    have hclosed : Standing.closed.Describes ((q.close h).1.census.status h.index) := by
      rw [hcensus]
      exact ⟨Census.phase_shut_self h, trivial⟩
    exact hlive.goesOn rfl (by simp) hclosed hgen
  refine tells_of_story hmonitor hchapter.story fun j hj => (hothers j hj).trans ?_
  rw [hcensus]
  exact (Census.alike_shut hj).unmoved

/-- What happened in between was told, and no slot was handed out. -/
def ReportsEnds (p q : Pool) : Prop := ∃ es, p.Tells es q ∧ ∀ k, .allocated k ∉ es

theorem ReportsEnds.refl (p : Pool) : p.ReportsEnds p := ⟨[], .refl p, fun _ => List.not_mem_nil⟩

theorem ReportsEnds.trans (h₁ : p.ReportsEnds q) (h₂ : q.ReportsEnds r) : p.ReportsEnds r := by
  obtain ⟨es, ht, hno⟩ := h₁
  obtain ⟨es', ht', hno'⟩ := h₂
  refine ⟨es ++ es', ht.trans ht', fun k hk => ?_⟩
  obtain hk | hk := List.mem_append.1 hk
  · exact hno k hk
  · exact hno' k hk

theorem ReportsEnds.reports (h : p.ReportsEnds q) : p.Reports q := by
  obtain ⟨es, ht, hno⟩ := h
  exact ⟨es, ht, fun i => (ht.story i).freed_le_one fun k hk => hno k (List.mem_filter.1 hk).1⟩

theorem reportsEnds_close (p : Pool) (h : Handle) : p.ReportsEnds (p.close h).1 := by
  by_cases ha : p.census.Live h ∧ (p.census.status h.index).phase.isActive = true
  · exact ⟨[.closed h], tells_close ha.1 ha.2 rfl ha.1 fun _ _ => .refl _, by simp⟩
  · obtain ⟨-, he⟩ | ⟨-, -, he⟩ | ⟨hl, hactive, -⟩ := close_cases p h
    · rw [he]
      exact .refl p
    · rw [he]
      exact .refl p
    · exact absurd ⟨hl, hactive⟩ ha

/-- A slot is given back before the children in its backlog are freed, and told of after. In
between nothing is told of it, since it is free and nobody is handed a slot. -/
theorem Tells.freed (hl : p.census.Live h) (ht : (p.modify h.index Slot.vacated).Tells es q)
    (hno : ∀ k, .allocated k ∉ es) : p.Tells (es ++ [.freed h]) (q.emit (.freed h)) := by
  refine ⟨?_, fun i => ?_⟩
  · rw [List.foldl_append]
    exact congrArg (Monitor.record · (.freed h)) ht.monitor
  have hstory := ht.story i
  rw [census_vacate hl] at hstory
  rw [List.filter_append, census_emit]
  by_cases hi : i = h.index
  · subst hi
    rw [Census.status_alter_self] at hstory
    obtain ⟨hnil, hsame⟩ := hstory.of_free rfl fun k hk => hno k (List.mem_filter.1 hk).1
    have hgen : (q.census.status h.index).generation = h.generation + 1 := by
      rw [hsame.generation, Status.vacated, hl.1]
    have hend := hl.ends hsame.phase hgen
    rw [hnil, List.nil_append, hend.story.filter_self]
    exact hend.story
  · rw [Census.status_alter_of_ne hi] at hstory
    have hother : [ConnEvent.freed h].filter (·.isAbout i) = [] :=
      List.filter_cons_of_neg (by simpa [ConnEvent.isAbout, ConnEvent.news?] using Ne.symm hi)
    rw [hother, List.append_nil]
    exact hstory

theorem ReportsEnds.freed (hl : p.census.Live h)
    (he : (p.modify h.index Slot.vacated).ReportsEnds q) :
    p.ReportsEnds (q.emit (.freed h)) := by
  obtain ⟨es, ht, hno⟩ := he
  refine ⟨es ++ [.freed h], ht.freed hl hno, fun k hk => ?_⟩
  obtain hk | hk := List.mem_append.1 hk
  · exact hno k hk
  · simp at hk

theorem reportsEnds_freeWithin (depth : Nat) (p : Pool) (h : Handle) :
    p.ReportsEnds (freeWithin depth p h).1 := by
  induction depth generalizing p h with
  | zero => exact .refl p
  | succ depth ih =>
    -- the children that are left in the backlog, one after another
    have hpending : ∀ (pending : List Handle) (q : Pool),
        q.ReportsEnds (pending.foldl (fun p child => (freeWithin depth p child).1) q) := by
      intro pending
      induction pending with
      | nil => exact .refl
      | cons child rest ihp => exact fun q => (ih q child).trans (ihp _)
    have hclose := reportsEnds_close p h
    unfold freeWithin
    split
    · next q e hq =>
      rw [hq] at hclose
      exact hclose
    · next q hq =>
      have hc := closed_of_close_eq_ok (p := p) (h := h) (by rw [hq])
      rw [hq] at hclose hc
      exact hclose.trans ((hpending _ _).freed hc.2.1)

/-! ## Offering a child -/

section Offering

variable {parent : Handle} {peer : Peer} {backlog : Fifo Handle}
  {children : List (Peer × Handle)} {t : Slot}

theorem Offering.tells_handedOut (o : p.Offering parent peer s backlog children i t) :
    p.Tells [.allocated ⟨i, t.generation⟩] (p.handedOut i t) :=
  Pool.tells_handedOut o.size o.free o.prepared

theorem Offering.live_handedOut (o : p.Offering parent peer s backlog children i t) :
    (p.handedOut i t).census.Live ⟨i, t.generation⟩ := by
  have hstatus := Slot.status_prepared o.prepared
  rw [Census.Live, status_handedOut o.size, hstatus]
  exact ⟨congrArg Status.generation hstatus.symm, by simp [Status.claimed]⟩

/-- A child that is made moves none but its own slot. -/
theorem Offering.unmoved_adopted (o : p.Offering parent peer s backlog children i t) {j : Nat}
    (hj : j ≠ i) : ((p.handedOut i t).census.status j).Unmoved
      ((p.adopted parent peer s.options i t).census.status j) := by
  rw [status_census, status_census, slotAt_handedOut_of_ne hj]
  by_cases hp : j = parent.index
  · rw [hp, o.slotAt_adopted_parent, o.slotAt_parent]
    exact ⟨rfl, rfl, by simp [Slot.status], rfl, rfl⟩
  · rw [slotAt_adopted_of_ne hj hp]
    exact .refl _

/-- The child finds room in the backlog. -/
theorem Offering.tells_joined (o : p.Offering parent peer s backlog children i t)
    (hq : q.census = (p.adopted parent peer s.options i t).census)
    (hm : q.monitor = (p.handedOut i t).monitor.record (.accepted parent ⟨i, t.generation⟩)) :
    p.Tells [.allocated ⟨i, t.generation⟩, .accepted parent ⟨i, t.generation⟩] q := by
  have hlive := o.live_handedOut
  have hchild : q.census.status i = (makeChild parent s.options peer t).status := by
    rw [hq, status_census, o.slotAt_adopted_child]
  have hfostered : (Standing.child parent).Describes (q.census.status i) := by
    rw [hchild]
    exact ⟨rfl, rfl⟩
  have hchapter : Status.Chapter i ((p.handedOut i t).census.status i)
      (.accepted parent ⟨i, t.generation⟩) (q.census.status i) :=
    hlive.goesOn rfl (by simp) hfostered (by rw [hchild]; rfl)
  refine o.tells_handedOut.trans (tells_of_story hm hchapter.story fun j hj => ?_)
  rw [hq]
  exact o.unmoved_adopted hj

/-- The child finds no room in the backlog, and is closed and freed. -/
theorem Offering.tells_rejected (o : p.Offering parent peer s backlog children i t) :
    p.Tells [.allocated ⟨i, t.generation⟩, .closed ⟨i, t.generation⟩, .freed ⟨i, t.generation⟩]
      ((p.adopted parent peer s.options i t).free ⟨i, t.generation⟩).1 := by
  have hchild := o.slot?_adopted_child
  have hl := live_of_slot? hchild
  have hstatus := status_of_slot? hchild
  have hkin : ((p.adopted parent peer s.options i t).census.status i).kin.parent? =
      some parent := by
    rw [hstatus]
    rfl
  have hclose : (p.handedOut i t).Tells [.closed ⟨i, t.generation⟩]
      ((p.adopted parent peer s.options i t).close ⟨i, t.generation⟩).1 :=
    tells_close hl (by rw [hstatus]; rfl) rfl o.live_handedOut fun j hj => o.unmoved_adopted hj
  have hlive := (closed_of_close_eq_ok (close_eq_ok_of_live hl)).2.1
  rw [free_eq_of_parent? hl hkin]
  exact o.tells_handedOut.trans
    (hclose.trans ((Tells.refl _).freed hlive fun _ => List.not_mem_nil))

theorem reports_offerChild (p : Pool) (parent : Handle) (peer : Peer) :
    p.Reports (p.offerChild parent peer).1 := by
  obtain ⟨e, he⟩ | ⟨_, _, _, _, -, -, -, -, he⟩ | ⟨s, backlog, children, i, t, o, he⟩ :=
    offerChild_parts p parent peer
  · rw [he]
    exact .refl p
  · rw [he]
    exact .refl p
  have hrole : ((p.adopted parent peer s.options i t).slotAt parent.index).role =
      .server backlog ((peer, ⟨i, t.generation⟩) :: children) := by
    rw [o.slotAt_adopted_parent, o.role]
    rfl
  rw [he, joinBacklog, hrole]
  dsimp only
  cases backlog.offer ⟨i, t.generation⟩ with
  | mk backlog' result =>
    cases result with
    | ok u =>
      refine (o.tells_joined ?_ rfl).reports (Nat.zero_le 1)
      rw [census_emit]
      exact census_modify_eq _ fun s => by simp [Slot.status, Slot.signal]
    | error rejected =>
      have hfree := o.tells_rejected.reports (Nat.le_refl 1)
      dsimp only
      split <;> rename_i hq <;> rw [hq] at hfree <;> exact hfree

end Offering

theorem reports_resolveInbound (p : Pool) (port : UInt8) (peer : Peer) :
    p.Reports (p.resolveInbound port peer).1 := by
  obtain he | ⟨conn, he⟩ := resolveInbound_fst p port peer
  · rw [he]
    exact .refl p
  · rw [he]
    exact reports_offerChild p conn peer

/-! ## Packets, bits and backlogs -/

theorem monitor_lookPacket (p : Pool) (h : Handle) : (p.lookPacket h).1.monitor = p.monitor := by
  unfold lookPacket
  split
  · rfl
  · split
    · split
      · rfl
      · rfl
      · split <;> rfl
    · rfl

theorem monitor_lookChild (p : Pool) (h : Handle) : (p.lookChild h).1.monitor = p.monitor := by
  unfold lookChild
  split
  · rfl
  · split
    · split
      · rfl
      · dsimp only
        split <;> rfl
    · rfl

theorem reports_accept (p : Pool) (h : Handle) (timeout : Timeout) :
    p.Reports (p.accept h timeout).1 := by
  rw [accept_fst]
  exact reports_of_census (monitor_lookChild p h) (census_lookChild h)

theorem reports_rxPop (p : Pool) (h : Handle) (timeout : Timeout) :
    p.Reports (p.rxPop h timeout).1 := by
  rw [rxPop_fst]
  exact reports_of_census (monitor_lookPacket p h) (census_lookPacket h)

theorem reports_rxFlush (p : Pool) (h : Handle) : p.Reports (p.rxFlush h).1 := by
  refine reports_of_census ?_ (census_rxFlush h)
  unfold rxFlush onQueue
  split <;> rfl

/-- A packet that is dropped is told of, and is no news of a connection. -/
theorem reports_rxPush (p : Pool) (h : Handle) (packet : Buffer) :
    p.Reports (p.rxPush h packet).1 := by
  have hcensus := census_rxPush (p := p) h packet
  unfold rxPush at hcensus ⊢
  cases hin : p.inlet h with
  | error e => exact .refl p
  | ok queue =>
    rw [hin] at hcensus
    dsimp only at hcensus ⊢
    generalize queue.push packet (some p.limits.queueTimeout) = pushed at hcensus ⊢
    obtain ⟨queue', u | rejected⟩ := pushed
    · have htells : p.Tells [.dropped h] ((p.setQueue h.index queue').emit (.dropped h)) := by
        refine ⟨rfl, fun i => ?_⟩
        rw [census_emit, census_setQueue]
        exact .refl
      exact htells.reports (Nat.zero_le 1)
    · exact reports_of_census rfl hcensus

end Pool

end Netstack
