import Netstack.Proofs.Pool.Generations
import Netstack.Proofs.Pool.Mail

/-
Which slots lose their packets when slots are handed out and given back.

A packet queued for a connection is dropped when the connection ends, and at no other time:
handing out a slot, getting an end and giving the slot back leave the queue as it is. Two
things end a connection. One that was active is not any more, whether by a call of its own or
since its listener was freed; or a child was made for which the backlog had no room, so that
it ended before anybody saw it. Both can be told from the slot before and after.
-/

set_option autoImplicit false

namespace Netstack

/-! ## The end of a connection, told from its slot -/

namespace Status

variable {s t : Status}

/-- From one moment to the next a connection of this slot has ended. -/
def Ends (s t : Status) : Prop :=
  (s.phase.isActive = true ∧ t.phase.isActive = false) ∨
    (s.phase = .free ∧ t.generation ≠ s.generation)

instance (s t : Status) : Decidable (s.Ends t) := by
  unfold Ends
  infer_instance

theorem not_ends_self (s : Status) : ¬ s.Ends s := by
  rintro (⟨ha, hn⟩ | ⟨-, hne⟩)
  · rw [ha] at hn
    cases hn
  · exact hne rfl

end Status

namespace Census

variable {σ τ : Census} {i : Nat}

/-- An opening keeps active what is active. -/
theorem Opening.active (ho : Opening σ τ) (ha : (σ.status i).phase.isActive = true) :
    (τ.status i).phase.isActive = true := by
  have halter : ∀ (k : Nat) (f : Status → Status),
      ((σ.status k).phase.isActive = true → (f (σ.status k)).phase.isActive = true) →
      ((σ.alter k f).status i).phase.isActive = true := by
    intro k f hf
    by_cases hk : i = k
    · subst hk
      rw [status_alter_self]
      exact hf ha
    · rw [status_alter_of_ne hk]
      exact ha
  cases ho with
  | claim size free =>
    apply halter
    -- the slot that is claimed is free
    intro hact
    rw [free] at hact
    cases hact
  | attach live closed bindable => exact halter _ _ fun _ => rfl
  | listen live bound table => exact halter _ _ fun _ => rfl
  | link live idle table => exact halter _ _ fun _ => rfl
  | rank live =>
    rw [status_rank]
    exact halter _ _ id
  | retime live => exact halter _ _ id
  | @adopt parent child peer children live listens server unknown childLive fresh =>
    have hchild := halter child.index (Status.fostered parent (σ.status parent.index).options peer)
      fun _ => rfl
    unfold Census.adopt
    by_cases hp : i = parent.index
    · subst hp
      rw [status_alter_self]
      exact hchild
    · rw [status_alter_of_ne hp]
      exact hchild

theorem Openings.active (ho : Openings σ τ) (ha : (σ.status i).phase.isActive = true) :
    (τ.status i).phase.isActive = true := by
  induction ho with
  | refl => exact ha
  | tail _ ho ih => exact ho.active ih

/-- Nothing ends by beginning. -/
theorem Openings.not_ends (ho : Openings σ τ) (i : Nat) : ¬ (σ.status i).Ends (τ.status i) := by
  rintro (⟨ha, hn⟩ | ⟨-, hne⟩)
  · rw [ho.active ha] at hn
    cases hn
  · exact hne (ho.stays i).generation

/-- What endings end was active before. -/
theorem Endings.ends_iff (he : Endings σ τ) (i : Nat) : (σ.status i).Ends (τ.status i) ↔
    (σ.status i).phase.isActive = true ∧ (τ.status i).phase.isActive = false := by
  constructor
  · rintro (h | ⟨hfree, hne⟩)
    · exact h
    · -- a free slot is not given back
      obtain ⟨hg, -⟩ | ⟨hused, -⟩ := he.wanes i
      · exact absurd hg hne
      · exact absurd hfree hused
  · exact Or.inl

/-- A connection that was active and did not end is still the same. -/
theorem Moves.generation_of_active (hm : Moves σ τ) (ha : (σ.status i).phase.isActive = true)
    (hn : ¬ (σ.status i).Ends (τ.status i)) :
    (τ.status i).phase.isActive = true ∧ (τ.status i).generation = (σ.status i).generation := by
  have hact : (τ.status i).phase.isActive = true := by
    by_contra hc
    rw [Bool.not_eq_true] at hc
    exact hn (.inl ⟨ha, hc⟩)
  refine ⟨hact, ?_⟩
  obtain hs | hr := hm.ages i
  · exact hs.generation
  · rw [hr.phase] at hact
    cases hact

/-- Closing an active connection and giving its slot back ends this connection alone. -/
theorem ends_vacated_iff {h : Handle} (ha : (σ.status h.index).phase.isActive = true) :
    (σ.status i).Ends (((σ.shut h).alter h.index Status.vacated).status i) ↔ i = h.index := by
  by_cases hi : i = h.index
  · subst hi
    refine iff_of_true (.inl ⟨ha, ?_⟩) rfl
    rw [status_alter_self]
    rfl
  · refine iff_of_false ?_ hi
    have halike := alike_shut (σ := σ) hi
    rw [status_alter_of_ne hi]
    rintro (⟨hact, hn⟩ | ⟨-, hne⟩)
    · rw [halike.phase, hact] at hn
      cases hn
    · exact hne halike.generation

/-- The same seen from before the offer: the slot was free and has another generation. -/
theorem Offer.ends_rejected_iff {parent child : Handle} {peer : Peer}
    (o : σ.Offer parent child peer) :
    (σ.status i).Ends ((((σ.offered parent child peer).shut child).alter child.index
      Status.vacated).status i) ↔ i = child.index := by
  by_cases hi : i = child.index
  · subst hi
    refine iff_of_true (.inr ⟨o.free, ?_⟩) rfl
    have hgen : (((σ.offered parent child peer).shut child).status child.index).generation =
        (σ.status child.index).generation := by
      rw [status_shut_self]
      refine (alike_detach child child.index).generation.trans ?_
      rw [o.status_child]
      rfl
    rw [status_alter_self]
    show (((σ.offered parent child peer).shut child).status child.index).generation + 1 ≠ _
    rw [hgen]
    exact System.add_one_ne _
  · refine iff_of_false ?_ hi
    obtain ⟨hphase, hgen⟩ := o.status_of_ne hi
    have hends := ends_vacated_iff (i := i) (σ := σ.offered parent child peer) (h := child)
      (by rw [o.connected_child]; rfl)
    unfold Status.Ends at hends ⊢
    rw [hphase, hgen] at hends
    exact fun h => hi (hends.1 h)

end Census

/-! ## What a connection that ends leaves behind -/

namespace Slot

variable {s : Slot}

/-- A slot without packets, be it that it has no queue. -/
def IsEmpty (s : Slot) : Prop := ∀ queue, s.rxQueue = some queue → queue.Holds []

theorem isEmpty_shut (hs : ∀ queue, s.rxQueue = some queue → ∃ xs, queue.Holds xs) :
    s.shut.IsEmpty := by
  intro queue hq
  obtain ⟨queue₀, hq₀, rfl⟩ := Option.map_eq_some_iff.1
    (show s.rxQueue.map (fun queue => (Fifo.drain queue).1) = some queue from hq)
  obtain ⟨xs, hxs⟩ := hs queue₀ hq₀
  exact hxs.drain.2

/-- A queue that is not given up, since somebody waits on it, is the same. -/
theorem isEmpty_released (hs : s.IsEmpty) : s.released.IsEmpty := by
  intro queue hq
  obtain ⟨queue₀, hq₀, hsome⟩ := Option.bind_eq_some_iff.1
    (show s.rxQueue.bind _ = some queue from hq)
  unfold Queue.destroy at hsome
  cases hi : queue₀.ring.checkIdle with
  | error e =>
    rw [hi] at hsome
    cases hsome
    exact hs _ hq₀
  | ok u =>
    rw [hi] at hsome
    cases hsome

end Slot

namespace Pool

variable {p q : Pool} {h : Handle} {i j : Nat} {m : Nat → List Buffer} {xs : List Buffer}

/-- A slot is handed out with the packets that it had. -/
theorem Mail.alloc (hm : p.Mail m) : p.alloc.1.Mail m := by
  unfold Pool.alloc
  split
  · exact hm
  · next i hfind =>
    have hi : i < p.slots.size := (Array.findIdx?_eq_some_iff_getElem.1 hfind).1
    split
    · exact hm
    · next s hprep =>
      refine (sameInboxes_emit _).mail ?_
      intro j
      by_cases hij : i = j
      · subst hij
        have hc := hm i
        have hinbox : (p.modify i fun _ => s).inbox i = s.rxQueue := inbox_modify hi
        unfold Carries at hc
        unfold Slot.prepared at hprep
        -- a queue of the last use is kept as it is; otherwise there is a new one
        cases hrx : (p.slotAt i).rxQueue with
        | some queue =>
          rw [hrx] at hprep
          cases hprep
          rw [inbox, hrx] at hc
          exact carries_of_holds hinbox hc
        | none =>
          rw [hrx] at hprep
          rw [inbox, hrx] at hc
          dsimp only at hprep hc
          cases hnew : (Fifo.new p.limits.connQueueLen : Except Error (Fifo Buffer)) with
          | error e =>
            rw [hnew] at hprep
            cases hprep
          | ok queue =>
            rw [hnew] at hprep
            cases hprep
            rw [hc]
            exact carries_of_holds hinbox (Fifo.holds_new hnew)
      · exact carries_of_inbox_eq (inbox_modify_of_ne hij) (hm j)

theorem Mail.modify_empty {f : Slot → Slot} (hm : p.Mail m) (hi : i < p.slots.size)
    (hf : (f (p.slotAt i)).IsEmpty) : (p.modify i f).Mail (Function.update m i []) := by
  intro j
  by_cases hij : j = i
  · subst hij
    rw [Function.update_self]
    unfold Carries
    rw [inbox_modify hi]
    cases hrx : (f (p.slotAt j)).rxQueue with
    | none => rfl
    | some queue => exact hf queue hrx
  · rw [Function.update_of_ne hij]
    exact carries_of_inbox_eq (inbox_modify_of_ne (Ne.symm hij)) (hm j)

/-- Closing drops the packets of a connection that is active. -/
theorem Mail.close (hm : p.Mail m) (h : Handle) :
    (p.close h).1.Mail (if p.isOpen h then Function.update m h.index [] else m) := by
  unfold Pool.close isOpen
  cases hs : p.slot? h with
  | none => exact hm
  | some s =>
    dsimp only
    by_cases ha : s.phase.isActive = true
    · rw [if_pos ha, if_neg (by rw [ha]; simp)]
      refine (sameInboxes_emit _).mail ?_
      have hdetach : (p.detach h s).Mail m := (sameStores_detach h s).inboxes.mail hm
      have hi : h.index < (p.detach h s).slots.size := by
        rw [size_detach hs]
        exact index_lt_of_slot? hs
      have hshut : ((p.detach h s).modify h.index Slot.shut).Mail
          (Function.update m h.index []) := by
        refine hdetach.modify_empty hi (Slot.isEmpty_shut ?_)
        intro queue hq
        exact ⟨_, (hdetach h.index).holds hq⟩
      split
      · -- giving up the queue, or keeping it since somebody waits, leaves it without packets
        have hi' : h.index < ((p.detach h s).modify h.index Slot.shut).slots.size := by
          rw [size_modify]
          exact hi
        have hreleased := hshut.modify_empty (f := Slot.released) hi' (Slot.isEmpty_released ?_)
        · rw [Function.update_idem] at hreleased
          exact hreleased
        · intro queue hq
          have hempty := hshut h.index
          rw [Function.update_self] at hempty
          exact hempty.holds hq
      · exact hshut
    · rw [if_neg ha, if_pos (by simp [ha])]
      exact hm

/-- From before to after connections have ended: those that are not active any more have lost
their packets, and nothing else has changed. -/
structure Sheds (p q : Pool) : Prop where
  active : ∀ i, (q.slotAt i).phase.isActive = true → (p.slotAt i).phase.isActive = true
  mail : ∀ m, p.Mail m → q.Mail fun i =>
    if (p.slotAt i).phase.isActive = true ∧ (q.slotAt i).phase.isActive = false then [] else m i

theorem Sheds.refl (p : Pool) : p.Sheds p where
  active := fun _ ha => ha
  mail := by
    intro m hm i
    dsimp only
    rw [if_neg]
    · exact hm i
    · rintro ⟨ha, hn⟩
      rw [ha] at hn
      cases hn

theorem Sheds.trans {r : Pool} (h₁ : p.Sheds q) (h₂ : q.Sheds r) : p.Sheds r where
  active := fun i ha => h₁.active i (h₂.active i ha)
  mail := by
    intro m hm i
    have hc := h₂.mail _ (h₁.mail m hm) i
    dsimp only at hc ⊢
    -- what was active half-way was active at the start, and what was not stays so
    by_cases hq : (q.slotAt i).phase.isActive = true
    · have hp := h₁.active i hq
      rw [hp]
      rw [hp, hq] at hc
      simpa using hc
    · have hr : (r.slotAt i).phase.isActive = false := by
        rw [← Bool.not_eq_true]
        exact fun hr => hq (h₂.active i hr)
      rw [hr]
      rw [Bool.not_eq_true] at hq
      rw [hq, hr] at hc
      simpa using hc

theorem sheds_close (p : Pool) (h : Handle) : p.Sheds (p.close h).1 := by
  obtain ⟨-, he⟩ | ⟨-, -, he⟩ | ⟨hl, ha, -, hcensus⟩ := close_cases p h
  · rw [he]
    exact .refl p
  · rw [he]
    exact .refl p
  · -- one slot is closed, and no other changes its phase
    have hphase : ∀ i, ((p.close h).1.slotAt i).phase =
        if i = h.index then .closed else (p.slotAt i).phase := by
      intro i
      show ((p.close h).1.census.status i).phase = _
      rw [hcensus]
      by_cases hi : i = h.index
      · rw [if_pos hi, hi, Census.phase_shut_self]
      · rw [if_neg hi, (Census.alike_shut hi).phase]
        rfl
    refine ⟨?_, ?_⟩
    · intro i hact
      rw [hphase] at hact
      split at hact
      · cases hact
      · exact hact
    · intro m hm i
      have hc := hm.close h i
      rw [if_pos (isOpen_iff.2 ⟨hl, ha⟩)] at hc
      dsimp only
      rw [hphase]
      by_cases hi : i = h.index
      · rw [if_pos hi, if_pos ⟨by rw [hi]; exact ha, rfl⟩]
        rw [hi, Function.update_self] at hc
        rw [hi]
        exact hc
      · rw [Function.update_of_ne hi] at hc
        rw [if_neg hi, if_neg]
        · exact hc
        · rintro ⟨hact, hn⟩
          rw [hact] at hn
          cases hn

theorem sheds_vacate (hc : (p.census.status h.index).phase = .closed) :
    p.Sheds (p.modify h.index Slot.vacated) := by
  -- neither a closed nor a free slot is active
  have hphase : ∀ i, ((p.modify h.index Slot.vacated).slotAt i).phase.isActive =
      (p.slotAt i).phase.isActive := by
    intro i
    obtain ⟨rfl, -, hset⟩ | hsame := slotAt_modify_cases p h.index i Slot.vacated
    · rw [hset, show (p.slotAt h.index).phase = .closed from hc]
      rfl
    · rw [hsame]
  refine ⟨?_, ?_⟩
  · intro i ha
    rw [← hphase]
    exact ha
  · intro m hm i
    dsimp only
    rw [hphase, if_neg]
    · refine SameInboxes.mail ?_ hm i
      exact sameInboxes_modify _ fun _ => rfl
    · rintro ⟨ha, hn⟩
      rw [ha] at hn
      cases hn

theorem sheds_emit (p : Pool) (event : ConnEvent) : p.Sheds (p.emit event) where
  active := (Sheds.refl p).active
  mail := fun m hm i => (sameInboxes_emit event).mail ((Sheds.refl p).mail m hm) i

theorem sheds_free (p : Pool) (h : Handle) : p.Sheds (p.free h).1 :=
  freeWithin_induction Sheds.refl (fun _ _ _ => Sheds.trans) sheds_close
    (fun _ _ _ hc => sheds_vacate hc) sheds_emit _ p h

/-! ## The packets after every operation -/

/-- Whether a connection of a slot has ended between two states of the pool. -/
def Ends (p q : Pool) (i : Nat) : Prop := (p.census.status i).Ends (q.census.status i)

instance (p q : Pool) (i : Nat) : Decidable (p.Ends q i) := by
  unfold Ends
  infer_instance

/-- The slots whose connections have ended are empty, and no other has lost a packet. -/
def Discards (p q : Pool) : Prop :=
  ∀ m, p.Mail m → q.Mail fun i => if p.Ends q i then [] else m i

/-- Where nothing has ended every packet is kept. -/
theorem discards_of_openings (ho : Census.Openings p.census q.census)
    (hkeep : ∀ m, p.Mail m → q.Mail m) : p.Discards q := by
  intro m hm i
  have hn : ¬ p.Ends q i := ho.not_ends i
  dsimp only
  rw [if_neg hn]
  exact hkeep m hm i

theorem SameInboxes.discards (hs : p.SameInboxes q)
    (ho : Census.Openings p.census q.census) : p.Discards q :=
  discards_of_openings ho fun _ hm => hs.mail hm

theorem Sheds.discards (hs : p.Sheds q) (he : Census.Endings p.census q.census) :
    p.Discards q := by
  intro m hm i
  have hc := hs.mail m hm i
  have hiff : p.Ends q i ↔
      (p.slotAt i).phase.isActive = true ∧ (q.slotAt i).phase.isActive = false := he.ends_iff i
  dsimp only at hc ⊢
  by_cases hends : p.Ends q i
  · rw [if_pos hends]
    rw [if_pos (hiff.1 hends)] at hc
    exact hc
  · rw [if_neg hends]
    rw [if_neg (fun h => hends (hiff.2 h))] at hc
    exact hc

theorem discards_alloc (p : Pool) : p.Discards p.alloc.1 :=
  discards_of_openings (openings_alloc p) fun _ hm => hm.alloc

theorem discards_close (p : Pool) (h : Handle) : p.Discards (p.close h).1 :=
  (sheds_close p h).discards (endings_close p h)

theorem discards_free (p : Pool) (h : Handle) : p.Discards (p.free h).1 :=
  (sheds_free p h).discards (endings_free p h)

/-- A new child gets the packets that lie in its slot. -/
theorem Mail.withChild {parent child : Handle} {peer : Peer} {o : Options} (hm : p.Mail m) :
    (p.withChild parent child peer o).Mail m := by
  refine SameInboxes.mail ?_ hm.alloc
  refine SameInboxes.trans ?_ (sameInboxes_modify _ fun _ => rfl)
  exact sameInboxes_modify _ fun _ => rfl

/-- Joining the backlog touches no queue, and a child that finds no room is freed. -/
theorem joinBacklog_inboxes (p : Pool) (parent child : Handle) :
    (p.SameInboxes (p.joinBacklog parent child).1 ∧
      (p.joinBacklog parent child).1.census = p.census) ∨
    (p.joinBacklog parent child).1 = (p.free child).1 := by
  unfold joinBacklog
  split
  · split
    · right
      split <;> rename_i hq <;> rw [hq]
    · left
      constructor
      · refine SameInboxes.trans ?_ (sameInboxes_emit _)
        exact sameInboxes_modify _ fun _ => rfl
      · exact census_modify_eq _ fun s => by simp [Slot.status, Slot.signal]
  · exact .inl ⟨.refl _, rfl⟩

theorem discards_offerChild (p : Pool) (parent : Handle) (peer : Peer) :
    p.Discards (p.offerChild parent peer).1 := by
  obtain ⟨e, he⟩ | ⟨_, _, -, -, -, he⟩ | ⟨child, opts, o, hcensus, heq⟩ :=
    offerChild_stages p parent peer
  · rw [he]
    exact (SameInboxes.refl p).discards .refl
  · rw [he]
    exact (SameInboxes.refl p).discards .refl
  · have hopen : Census.Openings p.census (p.withChild parent child peer opts).census := by
      rw [hcensus]
      exact (Relation.ReflTransGen.single o.claim).tail o.adopt
    rw [heq]
    obtain ⟨hsame, hstay⟩ | hfree :=
      joinBacklog_inboxes (p.withChild parent child peer opts) parent child
    · -- there was room
      apply discards_of_openings
      · rw [hstay]
        exact hopen
      · exact fun m hm => hsame.mail hm.withChild
    · -- what lay in the slot goes with the child
      have hactive : ((p.census.offered parent child peer).status child.index).phase.isActive =
          true := by
        rw [o.connected_child]
        rfl
      obtain ⟨-, hended⟩ := @free_of_parent? (p.withChild parent child peer opts) child parent
        (by rw [hcensus]; exact o.live_child) (by rw [hcensus]; exact hactive)
        (by rw [hcensus, o.status_child]; rfl)
      -- seen from before the offer and from after it, the same slot has ended
      have hrest := discards_free (p.withChild parent child peer opts) child
      rw [hfree]
      intro m hm i
      have hc := hrest m hm.withChild i
      have hiff : p.Ends ((p.withChild parent child peer opts).free child).1 i ↔
          (p.withChild parent child peer opts).Ends
            ((p.withChild parent child peer opts).free child).1 i := by
        unfold Ends
        rw [hended, hcensus, o.ends_rejected_iff, Census.ends_vacated_iff hactive]
      dsimp only at hc ⊢
      rw [if_congr hiff rfl rfl]
      exact hc

theorem discards_resolveInbound (p : Pool) (dstPort : UInt8) (peer : Peer) :
    p.Discards (p.resolveInbound dstPort peer).1 := by
  obtain he | ⟨conn, he⟩ := resolveInbound_fst p dstPort peer
  · rw [he]
    exact (SameInboxes.refl p).discards .refl
  · rw [he]
    exact discards_offerChild p conn peer

end Pool

namespace System

open Pool (Op Reply)

/-- What calls that give out, connect and end connections do to the packets. -/
theorem discards_step (s : System) {op : Op} (hq : op.isQuiet = false) :
    s.pool.Discards (s.step op).1.pool := by
  cases op with
  | alloc => exact Pool.discards_alloc _
  | bind h port =>
    exact (Pool.sameStores_bind h port).inboxes.discards (Pool.openings_bind _ h port)
  | listen h backlog =>
    exact (Pool.sameInboxes_listen h backlog).discards (Pool.openings_listen _ h backlog)
  | connect h peer =>
    exact (Pool.sameStores_connect h peer).inboxes.discards (Pool.openings_connect _ h peer)
  | setPriority h priority =>
    exact (Pool.sameStores_setPriority h priority).inboxes.discards
      (Pool.openings_setPriority _ h priority)
  | setRecvTimeout h timeout =>
    exact (Pool.sameStores_updateOptions h _).inboxes.discards
      (Pool.openings_setRecvTimeout _ h timeout)
  | setSendTimeout h timeout =>
    exact (Pool.sameStores_updateOptions h _).inboxes.discards
      (Pool.openings_setSendTimeout _ h timeout)
  | offerChild parent peer => exact Pool.discards_offerChild _ parent peer
  | resolveInbound dstPort peer => exact Pool.discards_resolveInbound _ dstPort peer
  | close h => exact Pool.discards_close _ h
  | free h => exact Pool.discards_free _ h
  | _ => cases hq

end System

end Netstack
