import Netstack.Proofs.Histories
import Netstack.Proofs.Pool.Applications
import Netstack.Proofs.Pool.Handles
import Netstack.Proofs.Pool.Packets

/-
What a new connection finds in its slot.

A slot is handed out with the receive queue and the event group of its last use, if it still has
them. The pool sees to it that they are as good as new by two things: the end of an active
connection drains the queue, and handing out clears the bits that connections have. What neither
reaches stays for the next connection, and it is told here exactly what that is: packets that were
queued while the slot had no active connection, a queue that was taken out of service, and bits
that are foreign to connections. Whatever else happened in the slot before, a connection starts
with an empty queue in service and without bits.
-/

set_option autoImplicit false

namespace Netstack

namespace Pool

/-- Packets that are there after some traffic were there before, unless one was put there. -/
theorem Traffic.apply_ne_nil {α : Type} {f : Entry → α} {t : Traffic} {m : Nat → List α} {i : Nat}
    (h : t.apply f m i ≠ []) : m i ≠ [] ∨ ∃ e, t = .put e ∧ e.owner.index = i := by
  cases t with
  | put e =>
    by_cases hi : e.owner.index = i
    · exact .inr ⟨e, rfl, hi⟩
    · rw [Traffic.apply, Function.update_of_ne (Ne.symm hi)] at h
      exact .inl h
  | took k packet =>
    by_cases hi : i = k.index
    · subst hi
      rw [Traffic.apply, Function.update_self] at h
      exact .inl fun hnil => h (by rw [hnil, List.tail_nil])
    · rw [Traffic.apply, Function.update_of_ne hi] at h
      exact .inl h
  | emptied k =>
    by_cases hi : i = k.index
    · subst hi
      rw [Traffic.apply, Function.update_self] at h
      exact absurd rfl h
    · rw [Traffic.apply, Function.update_of_ne hi] at h
      exact .inl h
  | nothing => exact .inl h

end Pool

/-! ## What is left in a slot -/

namespace Site

variable {s : Site} {d : Deed} {i n : Nat} {out : Nat → Prop}

/-- Packets lie in a slot that has no active connection. -/
def Strays (s : Site) (i : Nat) : Prop :=
  (s.pool.slotAt i).phase.isActive = false ∧ s.pool.packets i ≠ []

/-- A deed queues a packet in a slot that has no active connection. -/
def Strands (s : Site) (i : Nat) (d : Deed) : Prop :=
  s.Queues i d ∧ (s.pool.slotAt i).phase.isActive = false

/-- After a deed a slot has an active connection, or no packets. -/
def Tidies (s : Site) (i : Nat) (d : Deed) : Prop :=
  ((s.perform d).pool.slotAt i).phase.isActive = true ∨ (s.perform d).pool.packets i = []

/-- After a deed a slot has no event group, or one without foreign bits. -/
def Wipes (s : Site) (i : Nat) (d : Deed) : Prop := ((s.perform d).pool.slotAt i).Native

theorem not_strays_iff : ¬ (s.perform d).Strays i ↔ s.Tidies i d := by
  unfold Strays Tidies
  rw [not_and_or, not_not, Bool.not_eq_false]

/-! ## What every deed keeps -/

/-- The packets are in the queues, and the queues are built as the pool says, those of `out` out
of service and all others in service. -/
structure Kept (s : Site) (n : Nat) (out : Nat → Prop) : Prop where
  sound : s.pool.Sound
  plain : s.system.Plain
  family : s.pool.census.Family
  limit : s.pool.limits.connQueueLen = n
  built : ∀ i, (s.pool.slotAt i).Built n (out i)

theorem asleep_perform (hd : ∀ op, d ≠ .ask op) :
    (s.perform d).system.asleep = s.system.asleep := by
  have hsettle : ∀ others come, (s.settle others come).system.asleep = s.system.asleep := by
    rintro others (_ | ⟨_, _, _ | _⟩) <;> rfl
  cases d with
  | ask op => exact absurd rfl (hd op)
  | call h c waits | wake k | expire k => exact hsettle _ _
  | clear h | destroy h | set h bits | unset h bits => rfl

/-- Who works on a queue or an event group changes no connection. -/
theorem Touch.census {q : Pool} (ht : s.Touch d q) : q.census = s.pool.census := by
  cases ht with
  | nothing => rfl
  | queue => exact Pool.census_setQueue _ _
  | events => exact Pool.census_setEvents _ _

/-- What the moves of a census keep, every deed keeps. -/
theorem census_perform {P : Census → Prop} (hopen : ∀ σ τ, Census.Opening σ τ → P σ → P τ)
    (hend : ∀ σ τ, Census.Ending σ τ → P σ → P τ) (hs : P s.pool.census) (d : Deed) :
    P (s.perform d).pool.census := by
  obtain hd | ⟨op, rfl⟩ := d.touch_or_ask
  · rw [(touch_perform s hd).census]
    exact hs
  · exact (s.system.moves_step op).invariant hopen hend hs

theorem census_run {P : Census → Prop} (hopen : ∀ σ τ, Census.Opening σ τ → P σ → P τ)
    (hend : ∀ σ τ, Census.Ending σ τ → P σ → P τ) (hs : P s.pool.census) (deeds : List Deed) :
    P (s.run deeds).pool.census := by
  induction deeds using List.reverseRecOn with
  | nil => exact hs
  | append_singleton deeds d ih =>
    rw [run_snoc]
    exact census_perform hopen hend ih d

theorem Touch.limits {q : Pool} (ht : s.Touch d q) : q.limits = s.pool.limits := by
  cases ht with
  | nothing | queue | events => rfl

theorem Touch.sound {q : Pool} (ht : s.Touch d q) (hp : s.pool.Sound) : q.Sound := by
  cases ht with
  | nothing => exact hp
  | queue found worked =>
    obtain ⟨xs, hxs, -⟩ := worked.items _ ((hp _).holds found)
    exact hp.setQueue found hxs
  | events => exact (Pool.sameInboxes_setEvents _ _).sound hp

/-- A queue is out of service from now on exactly if it was before, or somebody has just taken it
out of service. -/
theorem Touch.built {q : Pool} (ht : s.Touch d q) (hb : (s.pool.slotAt i).Built n (out i)) :
    (q.slotAt i).Built n (out i ∨ s.Destroys i d) := by
  cases ht with
  | nothing _ destroys => exact hb.of_iff (or_iff_left (destroys i)).symm
  | @queue j queue queue' found worked others =>
    by_cases hj : j = i
    · subst hj
      obtain ⟨hcap, hout⟩ := hb.queue found
      have hsize := Pool.lt_size_of_inbox found
      rw [Pool.setQueue, Pool.slotAt_modify hsize]
      refine Slot.built_of_queue rfl (worked.capacity.trans hcap) ?_
      rw [worked.destroyed, hout]
    · rw [Pool.setQueue, Pool.slotAt_modify_of_ne hj]
      exact hb.of_iff (or_iff_left (others i (Ne.symm hj)).2).symm
  | @events j g g' _ _ destroys =>
    have hsame := hb.of_iff (or_iff_left (destroys i)).symm
    exact hsame.congr ((Pool.sameInboxes_setEvents j g').inbox_eq i)

theorem Kept.perform (hk : s.Kept n out) (d : Deed) :
    (s.perform d).Kept n fun i => out i ∨ s.Destroys i d := by
  obtain hd | ⟨op, rfl⟩ := d.touch_or_ask
  · have ht := touch_perform s hd
    refine ⟨ht.sound hk.sound, ?_, ?_, ?_, fun i => ht.built (hk.built i)⟩
    · unfold System.Plain
      rw [asleep_perform hd]
      exact hk.plain
    · rw [ht.census]
      exact hk.family
    · rw [ht.limits]
      exact hk.limit
  · have hsteps := s.system.steps_step op
    refine ⟨(s.system.mail_step op hk.plain hk.sound).sound, hk.plain.step op, ?_, ?_, ?_⟩
    · exact (s.system.moves_step op).invariant (fun _ _ ho h => h.opening ho)
        (fun _ _ he h => h.ending he) hk.family
    · exact (congrArg Limits.connQueueLen hsteps.limits).trans hk.limit
    · intro i
      have hno : ¬ s.Destroys i (.ask op) := not_destroys (by simp) i
      have hslot := s.system.built_step op (hk.limit.symm ▸ hk.built i)
      rw [hk.limit] at hslot
      exact hslot.of_iff (or_iff_left hno).symm

/-! ## Packets that stray -/

/-- The packets in a slot without an active connection were there before, or have just been put
there. -/
theorem Touch.packets {q : Pool} (ht : s.Touch d q) (hp : s.pool.Sound) (i : Nat) :
    (q.packets i ≠ [] → s.pool.packets i ≠ [] ∨ s.Queues i d) ∧
      (s.Queues i d → q.packets i ≠ []) := by
  cases ht with
  | nothing queues => exact ⟨.inl, fun hq => absurd hq (queues i)⟩
  | @queue j queue queue' found worked others =>
    obtain ⟨xs, hxs, hfrom, hto⟩ := worked.items _ ((hp j).holds found)
    rw [(Pool.Mail.setQueue hp found hxs).packets_eq]
    by_cases hj : i = j
    · subst hj
      rw [Function.update_self]
      exact ⟨hfrom, hto⟩
    · rw [Function.update_of_ne hj]
      exact ⟨.inl, fun hq => absurd hq (others i hj).1⟩
  | @events j g g' _ queues =>
    rw [((Pool.sameInboxes_setEvents j g').mail hp).packets_eq]
    exact ⟨.inl, fun hq => absurd hq (queues i)⟩

theorem Touch.phase {q : Pool} (ht : s.Touch d q) (i : Nat) :
    (q.slotAt i).phase = (s.pool.slotAt i).phase :=
  congrArg (fun σ : Census => (σ.status i).phase) ht.census

/-- Who works on a queue or an event group strands a packet if he queues it in a slot without an
active connection, and only then. -/
theorem strays_of_touch (hk : s.Kept n out) (hd : ∀ op, d ≠ .ask op) (i : Nat) :
    ((s.perform d).Strays i → s.Strands i d ∨ s.Strays i) ∧
      (s.Strands i d → (s.perform d).Strays i) := by
  have ht := touch_perform s hd
  have hphase := ht.phase i
  obtain ⟨hfrom, hto⟩ := ht.packets hk.sound i
  constructor
  · rintro ⟨hidle, hpackets⟩
    rw [hphase] at hidle
    exact (hfrom hpackets).symm.imp (⟨·, hidle⟩) (⟨hidle, ·⟩)
  · rintro ⟨hqueues, hidle⟩
    rw [← hphase] at hidle
    exact ⟨hidle, hto hqueues⟩

theorem strays_of_ask (hk : s.Kept n out) (op : Pool.Op) (i : Nat) :
    ((s.perform (.ask op)).Strays i → s.Strands i (.ask op) ∨ s.Strays i) ∧
      (s.Strands i (.ask op) → (s.perform (.ask op)).Strays i) := by
  have hafter : (s.perform (.ask op)).pool.packets i =
      if s.pool.Ends (s.system.step op).1.pool i then []
      else (s.system.traffic op).apply Pool.Entry.packet s.pool.packets i :=
    congrFun (s.system.mail_step op hk.plain hk.sound).packets_eq i
  constructor
  · rintro ⟨hidle, hpackets⟩
    rw [hafter] at hpackets
    by_cases hends : s.pool.Ends (s.system.step op).1.pool i
    · rw [if_pos hends] at hpackets
      exact absurd rfl hpackets
    · rw [if_neg hends] at hpackets
      -- a connection that was active would have ended
      have hbefore : (s.pool.slotAt i).phase.isActive = false := by
        by_contra hactive
        exact hends (.inl ⟨eq_true_of_ne_false hactive, hidle⟩)
      exact (Pool.Traffic.apply_ne_nil hpackets).symm.imp (⟨·, hbefore⟩) (⟨hbefore, ·⟩)
  · rintro ⟨⟨e, htraffic, howner⟩, hidle⟩
    -- packets are queued by operations that end nothing
    have hquiet : op.isQuiet = true := by
      by_contra hloud
      rw [System.traffic_of_not_quiet (eq_false_of_ne_true hloud)] at htraffic
      cases htraffic
    have hcensus := System.census_step_of_quiet s.system hquiet
    have hphase : ((s.perform (.ask op)).pool.slotAt i).phase = (s.pool.slotAt i).phase :=
      congrArg (fun σ : Census => (σ.status i).phase) hcensus
    have hends : ¬ s.pool.Ends (s.system.step op).1.pool i := by
      unfold Pool.Ends
      rw [hcensus]
      exact Status.not_ends_self _
    rw [← hphase] at hidle
    refine ⟨hidle, ?_⟩
    subst howner
    rw [hafter, if_neg hends, htraffic, Pool.Traffic.apply, Function.update_self]
    simp

theorem strays_perform_iff (hk : s.Kept n out) (d : Deed) (i : Nat) :
    (s.perform d).Strays i ↔ s.Strands i d ∨ (s.Strays i ∧ ¬ s.Tidies i d) := by
  rw [← not_strays_iff, not_not]
  -- nothing comes into a slot unless it is queued, and what is queued is there
  obtain ⟨hfrom, hto⟩ : ((s.perform d).Strays i → s.Strands i d ∨ s.Strays i) ∧
      (s.Strands i d → (s.perform d).Strays i) := by
    obtain hd | ⟨op, rfl⟩ := d.touch_or_ask
    · exact strays_of_touch hk hd i
    · exact strays_of_ask hk op i
  constructor
  · intro hs
    exact (hfrom hs).imp_right fun hbefore => ⟨hbefore, hs⟩
  · rintro (hs | ⟨-, hs⟩)
    · exact hto hs
    · exact hs

/-! ## Foreign bits -/

/-- Who works on a queue or an event group brings a foreign bit if he sets it, and only then. -/
theorem Touch.native {q : Pool} (ht : s.Touch d q) (i : Nat) :
    ((s.pool.slotAt i).Native → ¬ s.Marks i d → (q.slotAt i).Native) ∧
      (s.Marks i d → ¬ (q.slotAt i).Native) := by
  cases ht with
  | nothing _ _ marks => exact ⟨fun hn _ => hn, fun hm => absurd hm (marks i)⟩
  | @queue j queue queue' _ _ _ marks =>
    refine ⟨fun hn _ => ?_, fun hm => absurd hm (marks i)⟩
    unfold Pool.setQueue
    obtain ⟨rfl, -, hset⟩ | hsame := Pool.slotAt_modify_cases s.pool j i fun t =>
      { t with rxQueue := some queue' }
    · rw [hset]
      exact hn.congr rfl
    · rw [hsame]
      exact hn
  | @events j g g' found _ _ marks others native =>
    by_cases hj : i = j
    · subst hj
      have hnew : ((s.pool.setEvents i g').slotAt i).events = some g' := by
        rw [Pool.setEvents, Pool.slotAt_modify (Pool.lt_size_of_events found)]
      constructor
      · intro hn hm g₀ hg₀
        obtain rfl := Option.some.inj (hnew.symm.trans hg₀)
        exact native hm (hn g found)
      · exact fun hm hn => marks hm (hn g' hnew)
    · rw [Pool.setEvents, Pool.slotAt_modify_of_ne (Ne.symm hj)]
      exact ⟨fun hn _ => hn, fun hm => absurd (others i hm) hj⟩

theorem native_perform_iff (s : Site) (d : Deed) (i : Nat) :
    ¬ ((s.perform d).pool.slotAt i).Native ↔
      s.Marks i d ∨ (¬ (s.pool.slotAt i).Native ∧ ¬ s.Wipes i d) := by
  unfold Wipes
  -- nobody brings a foreign bit who does not set it, and one that is set is there
  obtain ⟨hkeeps, hbrings⟩ : ((s.pool.slotAt i).Native → ¬ s.Marks i d →
        ((s.perform d).pool.slotAt i).Native) ∧
      (s.Marks i d → ¬ ((s.perform d).pool.slotAt i).Native) := by
    obtain hd | ⟨op, rfl⟩ := d.touch_or_ask
    · exact (touch_perform s hd).native i
    · exact ⟨fun hn _ => s.system.native_step op hn,
        fun hm => absurd hm (not_marks (by simp) i)⟩
  constructor
  · intro hn
    by_cases hm : s.Marks i d
    · exact .inl hm
    · exact .inr ⟨fun hbefore => hn (hkeeps hbefore hm), hn⟩
  · rintro (hm | ⟨-, hn⟩)
    · exact hbrings hm
    · exact hn

/-! ## What the history of a slot tells -/

/-- A packet was queued in a slot that had no active connection, and since then there has neither
been one nor have the packets of the slot all gone. -/
def Stranded (s : Site) (i : Nat) (deeds : List Deed) : Prop :=
  Since (fun before d => (s.run before).Strands i d) (fun before d => (s.run before).Tidies i d)
    deeds

/-- Foreign bits were set on a slot, and since then there have always been some. -/
def Marked (s : Site) (i : Nat) (deeds : List Deed) : Prop :=
  Since (fun before d => (s.run before).Marks i d) (fun before d => (s.run before).Wipes i d) deeds

/-- The queue of a slot was taken out of service, which nothing undoes. -/
def Retired (s : Site) (i : Nat) (deeds : List Deed) : Prop :=
  Since (fun before d => (s.run before).Destroys i d) (fun _ _ => False) deeds

end Site

namespace Pool

variable {c : Config} {p : Pool} {h : Handle} {i : Nat}

/-- A pool on which nobody waits, and on whose queues nobody does. -/
def unattended (p : Pool) : Site := { system := p.atRest }

theorem kept_run (hnew : new c = .ok p) (deeds : List Deed) :
    (p.unattended.run deeds).Kept c.connQueueLen fun i => p.unattended.Retired i deeds := by
  induction deeds using List.reverseRecOn with
  | nil =>
    refine ⟨sound_new hnew, by rintro call ⟨⟩, family_new hnew, ?_, fun i => ?_⟩
    · exact congrArg Limits.connQueueLen (new_eq_ok hnew).2.2
    · show (p.slotAt i).Built _ _
      rw [slotAt_new hnew]
      exact not_since_nil
  | append_singleton deeds d ih =>
    have hnext := ih.perform d
    rw [← Site.run_snoc] at hnext
    refine ⟨hnext.sound, hnext.plain, hnext.family, hnext.limit, fun i => ?_⟩
    refine (hnext.built i).of_iff ?_
    unfold Site.Retired
    rw [since_snoc, not_false_iff, and_true, or_comm]

theorem strays_run_iff (hnew : new c = .ok p) (deeds : List Deed) (i : Nat) :
    (p.unattended.run deeds).Strays i ↔ p.unattended.Stranded i deeds := by
  refine iff_since (P := fun deeds => (p.unattended.run deeds).Strays i) ?_ (fun deeds d => ?_)
    deeds
  · rintro ⟨-, hpackets⟩
    refine hpackets ?_
    show p.packets i = []
    rw [packets, inbox, slotAt_new hnew]
    rfl
  · rw [Site.run_snoc]
    exact Site.strays_perform_iff (kept_run hnew deeds) d i

theorem marked_run_iff (hnew : new c = .ok p) (deeds : List Deed) (i : Nat) :
    ¬ ((p.unattended.run deeds).pool.slotAt i).Native ↔ p.unattended.Marked i deeds := by
  refine iff_since (P := fun deeds => ¬ ((p.unattended.run deeds).pool.slotAt i).Native) ?_
    (fun deeds d => ?_) deeds
  · refine not_not_intro fun g hg => ?_
    change (p.slotAt i).events = some g at hg
    rw [slotAt_new hnew] at hg
    cases hg
  · rw [Site.run_snoc]
    exact Site.native_perform_iff _ d i

/-! ## Connections that are made -/

/-- A slot is handed out, and what is made of it has its queue and its event group. -/
structure HandedOut (p q : Pool) (h : Handle) (t u : Slot) : Prop where
  free : (p.slotAt h.index).phase = .free
  prepared : (p.slotAt h.index).prepared p.limits = .ok t
  made : q.slot? h = some u
  rxQueue : u.rxQueue = t.rxQueue
  events : u.events = t.events

theorem handedOut_alloc (hok : p.alloc.2 = .ok h) : ∃ t, HandedOut p p.alloc.1 h t t := by
  obtain ⟨e, he⟩ | ⟨i, t, hi, hfree, hprep, he⟩ := alloc_stages p
  · rw [he] at hok
    cases hok
  · rw [he] at hok ⊢
    obtain rfl := Except.ok.inj hok
    refine ⟨t, hfree, hprep, ?_, rfl, rfl⟩
    rw [slot?_eq_some_iff_slotAt, slotAt_emit, slotAt_modify hi]
    refine ⟨rfl, rfl, ?_⟩
    rw [(Slot.prepared_cases hprep).1]
    simp

/-- A connection that was not there before an offer is a child in a slot that was free. -/
theorem handedOut_offerChild {parent : Handle} {peer : Peer}
    (hok : (p.offerChild parent peer).2 = .ok h) (hfree : (p.slotAt h.index).phase = .free)
    (hlive : (p.offerChild parent peer).1.census.Live h) :
    ∃ t u, HandedOut p (p.offerChild parent peer).1 h t u := by
  obtain ⟨e, he⟩ | ⟨_, _, _, c, -, -, -, -, he⟩ | ⟨s, backlog, children, i, t, q, o, -,
    ⟨backlog', -, he, hchild, -, -⟩ | ⟨e, he, -⟩⟩ := offerChild_slots p parent peer
  · rw [he] at hok
    cases hok
  · -- a child that is found was there before
    rw [he] at hlive
    exact absurd hfree hlive.2
  · rw [he] at hok ⊢
    obtain rfl := Except.ok.inj hok
    refine ⟨t, makeChild parent s.options peer t, hfree, o.prepared, ?_, rfl, rfl⟩
    rw [slot?_eq_some_iff_slotAt]
    exact ⟨hchild, rfl, by simp [makeChild]⟩
  · rw [he] at hok
    cases hok

theorem handedOut_resolveInbound {port : UInt8} {peer : Peer}
    (hok : (p.resolveInbound port peer).2 = .ok (some h))
    (hfree : (p.slotAt h.index).phase = .free)
    (hlive : (p.resolveInbound port peer).1.census.Live h) :
    ∃ t u, HandedOut p (p.resolveInbound port peer).1 h t u := by
  revert hok hlive
  unfold resolveInbound
  split
  · rintro ⟨⟩
  · rintro - hlive
    exact absurd hfree hlive.2
  · next conn _ =>
    have hoffer := @handedOut_offerChild p h conn peer
    split <;> rename_i hq <;> rw [hq] at hoffer
    · rintro ⟨⟩ hlive
      exact hoffer rfl hfree hlive
    · rintro ⟨⟩

theorem handedOut_of_mem_made {s : System} {op : Op} (hfam : s.pool.census.Family)
    (hm : h ∈ s.made op) :
    ∃ t u, HandedOut s.pool (s.step op).1.pool h t u ∧ (op = .alloc → u = t) := by
  have hbegins := System.begins_of_mem_made hfam hm
  -- three operations make connections, and what they reply is what they made
  unfold System.made at hm
  split at hm
  · next h' hr =>
    obtain rfl := List.mem_singleton.1 hm
    obtain ⟨t, ht⟩ := handedOut_alloc (Reply.handle.inj hr)
    exact ⟨t, t, ht, fun _ => rfl⟩
  · next parent peer h' hr =>
    split at hm
    · cases hm
    · obtain rfl := List.mem_singleton.1 hm
      obtain ⟨t, u, hu⟩ := handedOut_offerChild (Reply.handle.inj hr) hbegins.free hbegins.live
      exact ⟨t, u, hu, by rintro ⟨⟩⟩
  · next port peer h' hr =>
    split at hm
    · cases hm
    · obtain rfl := List.mem_singleton.1 hm
      obtain ⟨t, u, hu⟩ := handedOut_resolveInbound (Reply.found.inj hr) hbegins.free hbegins.live
      exact ⟨t, u, hu, by rintro ⟨⟩⟩
  · cases hm

/-- Making a connection moves no packet. -/
theorem packets_of_mem_made {s : System} {op : Op} (hsound : s.pool.Sound) (hplain : s.Plain)
    (hfam : s.pool.census.Family) (hm : h ∈ s.made op) :
    (s.step op).1.pool.packets h.index = s.pool.packets h.index := by
  have hbegins := System.begins_of_mem_made hfam hm
  have hloud : op.isQuiet = false := by
    unfold System.made at hm
    split at hm
    · rfl
    · rfl
    · rfl
    · cases hm
  -- the slot was free and has kept its generation, so nothing has ended in it
  have hends : ¬ s.pool.Ends (s.step op).1.pool h.index := by
    rintro (⟨hactive, -⟩ | ⟨-, hgen⟩)
    · rw [hbegins.free] at hactive
      cases hactive
    · exact hgen (hbegins.live.1.trans hbegins.generation.symm)
  rw [(System.mail_step op hplain hsound).packets_eq, System.traffic_of_not_quiet hloud]
  exact if_neg hends

/-- What a slot is handed out with: the options and the bits of a new connection, but for bits
that are foreign to it. -/
theorem fresh_of_prepared {limits : Limits} {s t : Slot} (hprep : s.prepared limits = .ok t) :
    t.phase = .closed ∧ t.role = .client ∧ t.options = {} ∧
      ∃ group, t.events = some group ∧ (group.bits ≠ 0 ↔ ¬ s.Native) := by
  obtain ⟨hphase, hrole, hevents, -⟩ := Slot.prepared_cases hprep
  have hoptions : t.options = {} := by
    unfold Slot.prepared at hprep
    dsimp only at hprep
    split at hprep <;> obtain ⟨_, -, ht⟩ := bind_eq_ok_iff.1 hprep <;>
      obtain rfl := Except.ok.inj ht <;> rfl
  refine ⟨hphase, hrole, hoptions, _, hevents, not_congr ?_⟩
  -- the bits of connections are gone, so what is left is what is foreign
  rw [EventGroup.bits_eq_zero_iff_lacks EventGroup.lacks_clear_self,
    EventGroup.lacks_foreign_clear_iff]
  cases hg : s.events with
  | none => exact iff_of_true UInt32.zero_and fun g hsome => by rw [hg] at hsome; cases hsome
  | some g =>
    constructor
    · intro hlacks g' hsome
      obtain rfl := Option.some.inj (hg.symm.trans hsome)
      exact hlacks
    · exact fun hnative => hnative g hg

/-- What a new connection finds is what the history of its slot has left there. It always has a
receive queue for as many packets as the pool allows, and an event group. There are packets in
the queue exactly if one was queued while the slot had no active connection, and has not gone
since; the queue is out of service exactly if somebody took it out of service for an earlier
connection of the slot. A connection that was not made for a listener is a closed client with
default options, and has event bits exactly if somebody set bits that are foreign to connections,
and some of them are left. -/
theorem newcomer_finds_what_was_left (hnew : new c = .ok p) (deeds : List Deed) (op : Op)
    (hmade : h ∈ (p.unattended.run deeds).system.made op) :
    ∃ t queue group, ((p.unattended.run deeds).perform (.ask op)).pool.slot? h = some t ∧
      t.rxQueue = some queue ∧ t.events = some group ∧ queue.capacity = c.connQueueLen ∧
      (queue.toList ≠ [] ↔ p.unattended.Stranded h.index deeds) ∧
      (queue.ring.destroyed = true ↔ p.unattended.Retired h.index deeds) ∧
      (op = .alloc → t.phase = .closed ∧ t.role = .client ∧ t.options = {} ∧
        (group.bits ≠ 0 ↔ p.unattended.Marked h.index deeds)) := by
  have hk := kept_run hnew deeds
  obtain ⟨t, u, hout, hplain⟩ := handedOut_of_mem_made hk.family hmade
  obtain ⟨hphase, hrole, hoptions, group, hevents, hbits⟩ := fresh_of_prepared hout.prepared
  obtain ⟨-, -, -, queue, hrx, -⟩ := Slot.prepared_cases hout.prepared
  have hqueue : u.rxQueue = some queue := hout.rxQueue.trans hrx
  have hslot := (slot?_eq_some_iff_slotAt.1 hout.made).1
  -- the step that makes the connection is a deed like any other, and takes no queue out of service
  have hnever : ¬ (p.unattended.run deeds).Destroys h.index (.ask op) :=
    Site.not_destroys (by simp) h.index
  have hbuilt := (hk.perform (.ask op)).built h.index
  rw [show ((p.unattended.run deeds).perform (.ask op)).pool.slotAt h.index = u
    from hslot] at hbuilt
  obtain ⟨hcap, hretired⟩ := (hbuilt.of_iff (or_iff_left hnever)).queue hqueue
  have hpackets := packets_of_mem_made hk.sound hk.plain hk.family hmade
  have hlist : queue.toList = (p.unattended.run deeds).pool.packets h.index := by
    rw [← hpackets, packets, inbox, hslot, hqueue]
    rfl
  refine ⟨u, queue, group, hout.made, hqueue, hout.events.trans hevents, hcap, ?_, hretired, ?_⟩
  · rw [hlist, ← strays_run_iff hnew]
    -- a slot that is free has no active connection
    have hidle : ((p.unattended.run deeds).pool.slotAt h.index).phase.isActive = false := by
      rw [hout.free]
      rfl
    exact (and_iff_right hidle).symm
  · intro hop
    rw [hplain hop]
    refine ⟨hphase, hrole, hoptions, ?_⟩
    rw [hbits]
    exact marked_run_iff hnew deeds h.index

/-- A packet is queued for a connection that is closed, and the connection is freed: the next one
in its slot finds the packet, so the history of the slot tells of it. -/
theorem newcomer_finds_packet_of_closed_connection :
    ∃ p, new { maxConnections := 1 } = .ok p ∧
      ⟨0, 1⟩ ∈ (p.unattended.run [.ask .alloc, .call ⟨0, 0⟩ (.push ⟨none, [1], 0, 1⟩) false,
        .ask (.free ⟨0, 0⟩)]).system.made .alloc ∧
      p.unattended.Stranded 0 [.ask .alloc, .call ⟨0, 0⟩ (.push ⟨none, [1], 0, 1⟩) false,
        .ask (.free ⟨0, 0⟩)] := by
  refine ⟨_, rfl, by decide +kernel, ?_⟩
  obtain ⟨t, queue, group, ht, hqueue, -, -, hstranded, -⟩ :=
    @newcomer_finds_what_was_left { maxConnections := 1 } _ ⟨0, 1⟩ rfl [.ask .alloc,
      .call ⟨0, 0⟩ (.push ⟨none, [1], 0, 1⟩) false, .ask (.free ⟨0, 0⟩)] .alloc (by decide +kernel)
  refine hstranded.1 fun hempty => ?_
  have hpackets : ((some t).bind Slot.rxQueue).map Fifo.toList = some [] := by
    rw [Option.bind_some, hqueue, Option.map_some, hempty]
  rw [← ht] at hpackets
  revert hpackets
  decide +kernel

/-- Two connections are freed: one for which a packet was queued when it was closed, and a bit
was set that connections do not have, and one whose queue was taken out of service. The next two
connections have that packet, that bit and that queue. -/
theorem leftovers_for_next_connections :
    ∃ p s s', new { maxConnections := 2 } = .ok p ∧
      s = p.unattended.run [.ask .alloc, .ask .alloc,
        .call ⟨0, 0⟩ (.push ⟨none, [1], 0, 1⟩) false, .set ⟨0, 0⟩ 0x100, .destroy ⟨1, 0⟩,
        .ask (.free ⟨0, 0⟩), .ask (.free ⟨1, 0⟩), .ask .alloc] ∧
      (s.pool.rxQueue ⟨0, 1⟩).map Fifo.toList = .ok [⟨none, [1], 0, 1⟩] ∧
      (s.pool.events ⟨0, 1⟩).map EventGroup.bits = .ok 0x100 ∧
      s' = s.perform (.ask .alloc) ∧
      (s'.pool.rxQueue ⟨1, 1⟩).map (·.ring.destroyed) = .ok true := by
  refine ⟨_, _, _, rfl, rfl, ?_, ?_, rfl, ?_⟩ <;> decide +kernel

end Pool

end Netstack
