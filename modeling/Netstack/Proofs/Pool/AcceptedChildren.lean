import Netstack.Proofs.Pool.Backlogs
import Netstack.Proofs.Pool.Discard
import Netstack.Proofs.Pool.Inbound

/-
How long an accepted child is reached.

The packets of a peer reach its child through the listener: the listener is on the port,
and its map has the child for the peer. So a child that was accepted is reached for as
long as the listener listens and the entry is there, and no longer, although the child
itself stays connected. The entry goes with the listening, or when another connection
ends that was the listener's child for the same peer once. What is lost does not come
back: an entry is only ever made for a new child.

There is one other way to reach a child that was accepted. Somebody can close it before it
is accepted and connect it by itself, which puts it on the shared slot.
-/

set_option autoImplicit false

namespace Netstack

/-! ## The entry of a connected child -/

/-- In this state, and in this use of its slot, a connection listens and has the child for
the peer. -/
structure Status.Lists (s : Status) (generation : UInt32) (peer : Peer) (c : Handle) : Prop where
  generation : s.generation = generation
  listens : s.phase = .listen
  entry : s.child? peer = some c

namespace Census

variable {σ ρ τ : Census} {h c parent child : Handle} {peer peer' : Peer}

/-- A listening connection has this child for the peer. -/
def Lists (σ : Census) (h : Handle) (peer : Peer) (c : Handle) : Prop :=
  (σ.status h.index).Lists h.generation peer c

/-- What takes the entry for a peer from a listening connection: it listens no more, or a
connection ends that is or was its child for the peer. -/
def Drops (σ τ : Census) (h : Handle) (peer : Peer) : Prop :=
  ¬ τ.Listening h ∨ ∃ i, (σ.status i).phase.isActive = true ∧
    (σ.status i).kin.parent? = some h ∧ (σ.status i).peer = peer ∧
    (τ.status i).phase.isActive = false

theorem Lists.listening (hl : σ.Lists h peer c) : σ.Listening h :=
  ⟨⟨hl.generation, by rw [hl.listens]; simp⟩, hl.listens⟩

theorem Listening.lists (hl : σ.Listening h) (hc : (σ.status h.index).child? peer = some c) :
    σ.Lists h peer c := ⟨hl.live.1, hl.listens, hc⟩

theorem lists_congr (hs : τ.status h.index = σ.status h.index) :
    τ.Lists h peer c ↔ σ.Lists h peer c := by
  rw [Lists, Lists, hs]

theorem lists_alter {i : Nat} {f : Status → Status}
    (hf : i = h.index → ((f (σ.status i)).Lists h.generation peer c ↔
      (σ.status i).Lists h.generation peer c)) :
    (σ.alter i f).Lists h peer c ↔ σ.Lists h peer c := by
  by_cases hi : h.index = i
  · rw [Lists, Lists, hi, status_alter_self]
    exact hf hi.symm
  · exact lists_congr (status_alter_of_ne hi f)

/-- A slot in a phase other than listening is that of no listener. -/
theorem lists_alter_of_phase {i : Nat} {f : Status → Status} (hi : (σ.status i).phase ≠ .listen)
    (hf : (f (σ.status i)).phase ≠ .listen ∨ (f (σ.status i)).child? peer = none) :
    (σ.alter i f).Lists h peer c ↔ σ.Lists h peer c := by
  refine lists_alter fun _ => iff_of_false ?_ fun hl => hi hl.listens
  rintro ⟨-, hlisten, hentry⟩
  obtain hf | hf := hf
  · exact hf hlisten
  · rw [hf] at hentry
    cases hentry

/-! ## What openings do to it -/

/-- A listening connection gets a child, and this is not the connected one `c`. -/
theorem lists_adopt {children : List (Peer × Handle)}
    (hk : (σ.status parent.index).kin = .server children) (hn : children.lookup peer' = none)
    (hp : (σ.status parent.index).phase = .listen)
    (hclosed : (σ.status child.index).phase = .closed)
    (hc : (σ.status c.index).phase = .connected) :
    (σ.adopt parent child peer').Lists h peer c ↔ σ.Lists h peer c := by
  have hne : parent.index ≠ child.index := by
    intro heq
    rw [heq, hclosed] at hp
    cases hp
  have hchild : (σ.alter child.index (Status.fostered parent (σ.status parent.index).options
      peer')).Lists h peer c ↔ σ.Lists h peer c :=
    lists_alter_of_phase (by rw [hclosed]; simp) (.inl (by simp [Status.fostered]))
  refine Iff.trans ?_ hchild
  unfold Census.adopt
  refine lists_alter fun _ => ?_
  rw [status_alter_of_ne hne]
  -- the map of the parent has one entry more, for a peer that had none
  have hentry : (Status.child? { σ.status parent.index with
      kin := (σ.status parent.index).kin.adopt peer' child } peer = some c) ↔
      (σ.status parent.index).child? peer = some c := by
    rw [Status.child?, Status.child?, hk]
    show ((peer', child) :: children).lookup peer = some c ↔ children.lookup peer = some c
    rw [List.lookup_cons]
    by_cases hpeer : peer = peer'
    · subst hpeer
      rw [beq_self_eq_true, hn]
      refine iff_of_false ?_ (by simp)
      intro heq
      obtain rfl := Option.some.inj heq
      rw [hclosed] at hc
      cases hc
    · rw [beq_eq_false_iff_ne.2 hpeer]
  constructor
  · rintro ⟨hg, hl, hc⟩
    exact ⟨hg, hl, hentry.1 hc⟩
  · rintro ⟨hg, hl, hc⟩
    exact ⟨hg, hl, hentry.2 hc⟩

/-- An opening neither takes the entry of a connected child nor gives it one. -/
theorem Opening.lists_iff (ho : Opening σ τ) (hc : (σ.status c.index).phase = .connected) :
    τ.Lists h peer c ↔ σ.Lists h peer c := by
  cases ho with
  | claim size free =>
    exact lists_alter_of_phase (by rw [free]; simp) (.inl (by simp [Status.claimed]))
  | attach live closed bindable =>
    exact lists_alter_of_phase (by rw [closed]; simp) (.inl (by simp [Status.attached]))
  | listen live bound table =>
    refine (lists_congr (by rw [status_withPorts])).trans ?_
    exact lists_alter_of_phase (by rw [bound]; simp) (.inr rfl)
  | link live idle table =>
    refine (lists_congr (by rw [status_withPorts])).trans ?_
    refine lists_alter_of_phase ?_ (.inl (by simp [Status.linked]))
    obtain hp | hp := idle <;> rw [hp] <;> simp
  | rank live =>
    refine (lists_congr (by rw [status_rank])).trans (lists_alter fun _ => ?_)
    constructor <;> rintro ⟨hg, hl, hc⟩ <;> exact ⟨hg, hl, hc⟩
  | retime live =>
    refine lists_alter fun _ => ?_
    constructor <;> rintro ⟨hg, hl, hc⟩ <;> exact ⟨hg, hl, hc⟩
  | adopt live listens server unknown childLive fresh =>
    exact lists_adopt server unknown listens fresh.1 hc

theorem Openings.lists_iff (ho : Openings σ τ) (hc : (σ.status c.index).phase = .connected) :
    τ.Lists h peer c ↔ σ.Lists h peer c := by
  induction ho with
  | refl => rfl
  | tail ho' hstep ih =>
    exact (hstep.lists_iff ((Openings.sameEnds ho' hc).phase.trans hc)).trans ih

/-- An opening ends nothing, and leaves a listener that has a child listening. -/
theorem Openings.not_drops (ho : Openings σ τ) (hc : (σ.status c.index).phase = .connected)
    (hl : σ.Lists h peer c) : ¬ σ.Drops τ h peer := by
  rintro (hno | ⟨i, ha, -, -, hend⟩)
  · exact hno ((ho.lists_iff hc).2 hl).listening
  · rw [ho.active ha] at hend
    cases hend

/-! ## What endings do to it -/

theorem Recedes.lists_iff (hr : σ.Recedes τ) :
    τ.Lists h peer c ↔ σ.Lists h peer c ∧ ¬ σ.Drops τ h peer := by
  constructor
  · intro hl
    have hlive := hl.listening.live
    refine ⟨(hr.listening hl.listening).lists (hr.entry h peer c hlive hl.entry), ?_⟩
    rintro (hno | ⟨i, ha, hpar, hpeer, hend⟩)
    · exact hno hl.listening
    · -- who ended took the entry
      have hnone := hr.takes h i hlive ha hpar hend
      rw [hpeer, hl.entry] at hnone
      cases hnone
  · rintro ⟨hl, hno⟩
    have hlisten : τ.Listening h := by
      by_contra hn
      exact hno (.inl hn)
    refine hlisten.lists ?_
    cases hc : (τ.status h.index).child? peer with
    | some c' =>
      have hold := hr.entry h peer c' hlisten.live hc
      rw [hl.entry] at hold
      exact hold.symm
    | none => exact absurd (.inr (hr.taken h peer c hlisten.live hl.entry hc)) hno

/-- An offered child that finds no room takes no entry but its own. -/
theorem Offer.lists_rejected_iff (o : σ.Offer parent child peer')
    (hc : (σ.status c.index).phase = .connected) :
    (((σ.offered parent child peer').shut child).alter child.index Status.vacated).Lists h peer c ↔
      σ.Lists h peer c ∧
        ¬ σ.Drops (((σ.offered parent child peer').shut child).alter child.index
          Status.vacated) h peer := by
  have htwo : Openings σ (σ.offered parent child peer') :=
    (Relation.ReflTransGen.single o.claim).tail o.adopt
  rw [o.endings.recedes.lists_iff, htwo.lists_iff hc]
  -- the only one that ends is the new child, which was not there before
  have hother : ∀ j, j ≠ child.index →
      ((((σ.offered parent child peer').shut child).alter child.index Status.vacated).status
        j).phase = (σ.status j).phase ∧
      ((((σ.offered parent child peer').shut child).alter child.index Status.vacated).status
        j).generation = (σ.status j).generation := by
    intro j hj
    rw [status_alter_of_ne hj]
    exact ⟨(alike_shut hj).phase.trans (o.status_of_ne hj).1,
      (alike_shut hj).generation.trans (o.status_of_ne hj).2⟩
  refine and_congr_right fun hl => ?_
  have hne : h.index ≠ child.index := by
    intro heq
    have hfree := o.free
    rw [← heq, hl.listens] at hfree
    cases hfree
  have hlisten : (((σ.offered parent child peer').shut child).alter child.index
      Status.vacated).Listening h := by
    obtain ⟨hp, hg⟩ := hother h.index hne
    exact ⟨⟨hg.trans hl.generation, by rw [hp, hl.listens]; simp⟩, hp.trans hl.listens⟩
  refine iff_of_true ?_ ?_
  · rintro (hno | ⟨i, ha, hpar, hpeer, hend⟩)
    · exact hno hlisten
    · by_cases hi : i = child.index
      · -- its parent had no child for its peer
        rw [hi, o.status_child] at hpar hpeer
        obtain rfl : parent = h := Option.some.inj hpar
        obtain rfl : peer' = peer := hpeer
        obtain ⟨children, hkin, hnone⟩ := o.server
        have hentry := hl.entry
        rw [Status.child?, hkin] at hentry
        rw [show children.lookup peer' = some c from hentry] at hnone
        cases hnone
      · rw [(o.status_of_ne hi).1, ← (hother i hi).1, hend] at ha
        cases ha
  · rintro (hno | ⟨i, ha, -, -, hend⟩)
    · exact hno hlisten
    · by_cases hi : i = child.index
      · rw [hi, o.free] at ha
        cases ha
      · rw [← (hother i hi).1, hend] at ha
        cases ha

/-- A connected child has its entry after an operation exactly if it had it before, and the
operation does not drop it. -/
theorem Turns.lists_iff (ht : σ.Turns τ) (hc : (σ.status c.index).phase = .connected) :
    τ.Lists h peer c ↔ σ.Lists h peer c ∧ ¬ σ.Drops τ h peer := by
  cases ht with
  | opens openings =>
    rw [openings.lists_iff hc]
    exact ⟨fun hl => ⟨hl, openings.not_drops hc hl⟩, fun hl => hl.1⟩
  | ends endings => exact endings.recedes.lists_iff
  | rejects offer => exact offer.lists_rejected_iff hc

end Census

namespace System

open Pool (Op)

/-- A child that stays connected has its entry at the end of a run exactly if it has it at
the start and no step drops it. -/
theorem StaysConnected.lists_iff {s : System} {h c : Handle} {peer : Peer} {ops : List Op}
    (hc : s.StaysConnected c ops) :
    (s.run ops).pool.census.Lists h peer c ↔ s.pool.census.Lists h peer c ∧
      ∀ pre op, pre ++ [op] <+: ops →
        ¬ (s.run pre).pool.census.Drops (s.run (pre ++ [op])).pool.census h peer := by
  induction ops using List.reverseRecOn with
  | nil =>
    refine ⟨fun hl => ⟨hl, ?_⟩, fun hl => hl.1⟩
    intro pre op hpre
    exact absurd (List.prefix_nil.1 hpre) (by simp)
  | append_singleton ops op ih =>
    have hturns := turns_step (s.run ops) op
    rw [← run_snoc] at hturns
    rw [hturns.lists_iff (Pool.in_iff.1 hc.of_snoc.last).2, ih hc.of_snoc, and_assoc]
    refine and_congr_right fun _ => ?_
    constructor
    · rintro ⟨hbefore, hlast⟩ pre op' hpre
      obtain hpre | hpre := List.prefix_concat_iff.1 hpre
      · obtain ⟨rfl, rfl⟩ := List.append_singleton_inj.1 hpre
        exact hlast
      · exact hbefore pre op' hpre
    · intro hall
      exact ⟨fun pre op' hpre => hall pre op' (hpre.trans (List.prefix_append _ _)),
        hall ops op (List.prefix_refl _)⟩

end System

/-! ## Accepting -/

namespace Pool

variable {p q : Pool} {h c parent : Handle} {peer : Peer}

/-- What is taken from a backlog is a child. -/
theorem isPendingChild_of_nextPending {n : Nat} {backlog : Fifo Handle}
    (hc : (p.nextPending parent n backlog).2 = some c) : p.isPendingChild parent c = true := by
  induction n generalizing backlog with
  | zero => cases hc
  | succ n ih =>
    rw [nextPending] at hc
    split at hc
    · split at hc
      · next hpending =>
        obtain rfl := Option.some.inj hc
        exact hpending
      · exact ih hc
    · cases hc

/-- Only a listening connection has a child to accept. -/
theorem childFor_of_lookChild (hc : (p.lookChild h).2 = .ok (some c)) :
    p.census.Listening h ∧ ∃ peer, p.census.ChildFor h peer c := by
  unfold lookChild at hc
  obtain ⟨-, hs⟩ | ⟨s, -, hs, hl, hstatus⟩ := slot_cases p h
  · rw [hs] at hc
    cases hc
  rw [hs] at hc
  dsimp only at hc
  split at hc
  · next backlog children hrole hphase =>
    cases hev : s.events with
    | none =>
      rw [hev] at hc
      cases hc
    | some group =>
      rw [hev] at hc
      dsimp only at hc
      split at hc
      · next child hnext =>
        obtain rfl := Option.some.inj (Except.ok.inj hc)
        refine ⟨⟨hl, by rw [hstatus]; exact hphase⟩, ?_⟩
        exact isPendingChild_iff.1 (isPendingChild_of_nextPending hnext)
      · cases hc
  · cases hc

theorem lookChild_of_accept {timeout : Timeout} (hc : (p.accept h timeout).2 = .ok c) :
    (p.lookChild h).2 = .ok (some c) := by
  unfold accept at hc
  split at hc
  · cases hc
  · next q child hq =>
    rw [hq, show child = c from Except.ok.inj hc]
  · cases hc

theorem lookChild_of_beginAccept {waits : Bool}
    (hc : (p.beginAccept h waits).2 = .done (.accepted (.ok c))) :
    (p.lookChild h).2 = .ok (some c) := by
  unfold beginAccept at hc
  split at hc
  · cases hc
  · next q child hq =>
    cases hc
    rw [hq]
  · split at hc <;> cases hc

/-- Who was woken looks again, and the event bits that it looks at first say nothing of
connections. -/
theorem childFor_of_wake (hc : (p.wake (.accept h)).2 = .done (.accepted (.ok c))) :
    p.census.Listening h ∧ ∃ peer, p.census.ChildFor h peer c := by
  have hcensus := census_wakeBits (p := p) h.index (watching childBits)
  unfold wake at hc
  dsimp only at hc
  split at hc <;> rename_i hq <;> rw [hq] at hcensus
  · rw [← hcensus]
    exact childFor_of_lookChild (lookChild_of_beginAccept hc)
  · cases hc

theorem childFor_of_expire (hc : (p.expire (.accept h)).2 = .accepted (.ok c)) :
    p.census.Listening h ∧ ∃ peer, p.census.ChildFor h peer c := by
  rw [← census_rise (p := p) h.index]
  refine childFor_of_lookChild ?_
  unfold expire at hc
  dsimp only at hc
  split at hc
  · cases hc
  · next q child hq =>
    cases hc
    rw [hq]
  · cases hc

end Pool

namespace System

open Pool (Op)

variable {s : System} {op : Op} {h c : Handle}

/-- Who a call accepts a child for. -/
def acceptor? (s : System) : Op → Option Handle
  | .accept h _ | .beginAccept h => some h
  | .wake k | .expire k =>
    match s.asleep[k]? with
    | some (.accept h) => some h
    | _ => none
  | _ => none

/-- A call accepts a child, at once or after it slept. -/
def Accepts (s : System) (op : Op) (h c : Handle) : Prop :=
  s.acceptor? op = some h ∧ (s.step op).2 = .handle (.ok c)

theorem accepted_of_settle {o : Pool.Outcome} (hr : (s.settle o).2 = .handle (.ok c)) :
    o.2 = .done (.accepted (.ok c)) := by
  unfold settle at hr
  split at hr
  · next p answer =>
    cases answer <;> cases hr
    rfl
  · cases hr

theorem asleep_of_acceptor? {k : Nat}
    (hwho : (match s.asleep[k]? with | some (.accept h) => some h | _ => none) = some h) :
    s.asleep[k]? = some (.accept h) := by
  split at hwho
  · next h' hk =>
    obtain rfl := Option.some.inj hwho
    exact hk
  · cases hwho

/-- Accepting looks for a child of a listening connection, and changes nobody's status. -/
theorem Accepts.childFor (ha : s.Accepts op h c) :
    op.isQuiet = true ∧ s.pool.census.Listening h ∧ ∃ peer, s.pool.census.ChildFor h peer c := by
  obtain ⟨hwho, hr⟩ := ha
  cases op with
  | accept h' timeout =>
    obtain rfl := Option.some.inj hwho
    have hok : (s.pool.accept h' timeout).2 = .ok c := Pool.Reply.handle.inj hr
    exact ⟨rfl, Pool.childFor_of_lookChild (Pool.lookChild_of_accept hok)⟩
  | beginAccept h' =>
    obtain rfl := Option.some.inj hwho
    have hdone : (s.pool.beginAccept h' true).2 = .done (.accepted (.ok c)) :=
      accepted_of_settle hr
    exact ⟨rfl, Pool.childFor_of_lookChild (Pool.lookChild_of_beginAccept hdone)⟩
  | wake k =>
    refine ⟨rfl, Pool.childFor_of_wake (accepted_of_settle (s := s.rouse k) ?_)⟩
    rw [step, asleep_of_acceptor? hwho] at hr
    exact hr
  | expire k =>
    refine ⟨rfl, Pool.childFor_of_expire ?_⟩
    rw [step, asleep_of_acceptor? hwho] at hr
    generalize hanswer : (s.pool.expire (.accept h)).2 = answer
    change Pool.Reply.ofAnswer (s.pool.expire (.accept h)).2 = _ at hr
    rw [hanswer] at hr
    cases answer <;> cases hr
    rfl
  | _ => cases hwho

end System

namespace Pool

variable {p q : Pool} {h c parent : Handle} {peer : Peer}

/-- A step takes from a connection its child for `peer`: the connection listens no more, or
another ends that is or was once its child for the peer. -/
def Drops (p q : Pool) (h : Handle) (peer : Peer) : Prop :=
  ¬ q.In h .listen ∨ ∃ x ∈ p.live, ∃ s ∈ p.slot? x, s.phase.isActive = true ∧
    s.role.parent? = some h ∧ s.peer = peer ∧ ∀ t ∈ q.slot? x, t.phase.isActive = false

instance (p q : Pool) (h : Handle) (peer : Peer) : Decidable (p.Drops q h peer) := by
  unfold Drops
  infer_instance

theorem drops_iff (hm : p.census.Moves q.census) :
    p.Drops q h peer ↔ p.census.Drops q.census h peer := by
  refine or_congr (not_congr in_listen_iff) ?_
  constructor
  · rintro ⟨x, -, s, hs, ha, hpar, hpeer, hend⟩
    have hstatus := status_of_slot? hs
    refine ⟨x.index, by rw [hstatus]; exact ha,
      by rw [hstatus]; exact s.role.parent?_kin.trans hpar, by rw [hstatus]; exact hpeer, ?_⟩
    -- had it not ended, it would be the same connection still
    by_contra hact
    rw [Bool.not_eq_false] at hact
    have hsame := hm.generation_of_active (i := x.index) (by rw [hstatus]; exact ha) <| by
      rintro (⟨-, hn⟩ | ⟨hfree, -⟩)
      · rw [hact] at hn
        cases hn
      · exact (live_of_slot? hs).2 hfree
    have hlive : q.census.Live x := by
      refine ⟨hsame.2.trans (live_of_slot? hs).1, ?_⟩
      intro hfree
      rw [hfree] at hact
      cases hact
    obtain ⟨t, ht⟩ := live_iff.1 hlive
    rw [status_of_slot? ht, show t.status.phase.isActive = false from hend t ht] at hact
    cases hact
  · rintro ⟨i, ha, hpar, hpeer, hend⟩
    have hlive : p.census.Live ⟨i, (p.census.status i).generation⟩ := by
      refine ⟨rfl, ?_⟩
      intro hfree
      rw [hfree] at ha
      cases ha
    obtain ⟨s, hs⟩ := live_iff.1 hlive
    have hstatus := status_of_slot? hs
    dsimp only at hstatus
    rw [hstatus] at ha hpar hpeer
    refine ⟨_, mem_live_iff.2 hlive, s, hs, ha, s.role.parent?_kin.symm.trans hpar, hpeer, ?_⟩
    intro t ht
    have hstatus' := status_of_slot? ht
    dsimp only at hstatus'
    rw [hstatus'] at hend
    exact hend

/-! ## Reaching -/

theorem resolveInbound_of_lists {d : UInt8} (hp : p.census.Placed) (hd : d ≤ portMax)
    (hsole : p.Sole d h) (hl : p.census.Lists h peer c)
    (hport : (p.census.status h.index).options.lport = d) :
    p.resolveInbound d peer = (p, .ok (some c)) := by
  have hlisten := hl.listening
  obtain ⟨m, ms, hms, hm⟩ := members_of_sole hp.filed hlisten.live
    (hp.housed.listener _ hlisten.listens) hport hsole
  obtain ⟨shared, hshared⟩ := members_sharedSlot (p := p)
  have htaker : p.taker? peer m = some (.listener h) := by
    rw [← hm]
    exact taker?_of_listen (by rw [hm]; exact in_listen_iff.2 hlisten)
  have hfirst : (p.candidates d).findSome? (p.taker? peer) = some (.listener h) := by
    rw [candidates_eq hd hms hshared, List.cons_append, List.findSome?_cons, htaker]
  have hlisted : p.listed? h peer = some c := by
    rw [listed?_of_live hlisten.live]
    exact hl.entry
  rw [resolveInbound, hfirst]
  dsimp only
  rw [offerChild_of_listed (in_listen_iff.2 hlisten) hlisted]

/-- How a child is reached through a port that nobody but its listener is on: by the entry
of the listener, or by itself on the shared slot. -/
theorem reaches_child_iff {d : UInt8} (hp : p.census.Placed) (hd : d ≤ portMax)
    (hc : p.census.ChildFor h peer c) (hne : c ≠ h) (hsole : p.Sole d h)
    (hport : p.census.Lists h peer c → (p.census.status h.index).options.lport = d) :
    (p.resolveInbound d peer).2 = .ok (some c) ↔
      p.census.Lists h peer c ∨ (¬ p.Served d peer ∧ p.First Port.sharedSlot peer c) := by
  have hconn : p.In c .connected := in_iff.2 ⟨hc.live, hc.connected⟩
  constructor
  · intro hok
    obtain ⟨hf, -⟩ | ⟨m, -, hlisten, hentry, -⟩ | ⟨m, -, -, o, -⟩ := resolveInbound_cases hok
    · obtain ⟨ms₁, m, ms₂, hms, rfl, -⟩ | hshared := (direct_iff hd hconn).1 hf
      · exact absurd (hsole _ hms m (by simp)) hne
      · exact .inr hshared
    · -- the listener that has the entry is the parent
      left
      have hlisten := in_listen_iff.1 hlisten
      rw [listed?_of_live hlisten.live] at hentry
      have hparent := (hp.family.entry_of_live hlisten.live hentry).parent
      rw [hc.parent] at hparent
      obtain rfl := Option.some.inj hparent
      exact hlisten.lists hentry
    · exact absurd o.free hc.live.2
  · rintro (hl | hshared)
    · rw [resolveInbound_of_lists hp hd hsole hl (hport hl)]
    · rw [resolveInbound_of_direct ((direct_iff hd hconn).2 (.inr hshared))]

end Pool

namespace System

/-- No step of a run takes from a connection its child for `peer`. -/
def Keeps (s : System) (h : Handle) (peer : Peer) (ops : List Pool.Op) : Prop :=
  ∀ pre op, pre ++ [op] <+: ops → ¬ (s.run pre).pool.Drops (s.run (pre ++ [op])).pool h peer

instance (s : System) (h : Handle) (peer : Peer) (ops : List Pool.Op) :
    Decidable (s.Keeps h peer ops) :=
  decidable_of_iff _ (forall_prefix_iff (P := fun pre op =>
    ¬ (s.run pre).pool.Drops (s.run (pre ++ [op])).pool h peer)).symm

theorem StaysConnected.lists_iff_keeps {s : System} {h c : Handle} {peer : Peer}
    {ops : List Pool.Op} (hc : s.StaysConnected c ops) :
    (s.run ops).pool.census.Lists h peer c ↔
      s.pool.census.Lists h peer c ∧ s.Keeps h peer ops := by
  rw [hc.lists_iff]
  refine and_congr_right fun _ => forall_congr' fun pre => forall_congr' fun op =>
    imp_congr_right fun _ => ?_
  rw [Pool.drops_iff]
  rw [run_snoc]
  exact moves_step _ _

end System

namespace Pool

/-- A child that was accepted on a port of its listener, and has stayed connected, is the
one that a packet of its peer for this port reaches, as long as nobody else is on the port,
exactly if the listener had its entry when it was accepted and no step since has dropped
the entry. The exception is a child that got onto the shared slot by itself. -/
theorem accepted_child_reached_iff {conf : Config} {p : Pool} (hnew : new conf = .ok p)
    {pre post : List Op} {op : Op} {h c : Handle} {d : UInt8} (hd : d ≤ portMax)
    (haccept : (p.atRest.run pre).Accepts op h c)
    (hport : ∀ s ∈ (p.atRest.run pre).pool.slot? h, s.options.lport = d)
    (hopen : (p.atRest.run (pre ++ [op])).StaysConnected c post)
    (hsole : (p.atRest.run (pre ++ [op] ++ post)).pool.Sole d h) :
    let start := p.atRest.run (pre ++ [op])
    let q := (p.atRest.run (pre ++ [op] ++ post)).pool
    ∃ s, q.slot? c = some s ∧
      ((q.resolveInbound d s.peer).2 = .ok (some c) ↔
        (start.pool.listed? h s.peer = some c ∧ start.Keeps h s.peer post) ∨
        (¬ q.Served d s.peer ∧ q.First Port.sharedSlot s.peer c)) := by
  intro start q
  obtain ⟨hquiet, hlisten, peer, hchild⟩ := haccept.childFor
  have hcensus : start.pool.census = (p.atRest.run pre).pool.census := by
    rw [show start = _ from System.run_snoc _ _ _]
    exact System.census_step_of_quiet _ hquiet
  have hlport : ((p.atRest.run pre).pool.census.status h.index).options.lport = d := by
    obtain ⟨s, hs⟩ := live_iff.1 hlisten.live
    rw [status_of_slot? hs]
    exact hport s hs
  have hne : c ≠ h := by
    rintro rfl
    have hp := hlisten.listens
    rw [hchild.connected] at hp
    cases hp
  rw [← hcensus] at hlisten hchild hlport
  have hplaced : start.pool.census.Placed := placed_run hnew _
  have hplaced' : q.census.Placed := placed_run hnew _
  have hq : q = (start.run post).pool := congrArg System.pool (System.run_append _ _ _)
  -- the child is the same one at the end
  have hsame := hopen.sameEnds
  obtain ⟨s, hs, -⟩ := hopen.last
  have hlists : q.census.Lists h s.peer c ↔
      start.pool.census.Lists h s.peer c ∧ start.Keeps h s.peer post := by
    rw [hq]
    exact hopen.lists_iff_keeps
  rw [← hq] at hsame hs
  have hpeer : (q.census.status c.index).peer = s.peer := by
    rw [status_of_slot? hs]
    rfl
  have hchild' : q.census.ChildFor h s.peer c :=
    ⟨live_of_slot? hs, hsame.phase.trans hchild.connected, hsame.parent.trans hchild.parent,
      hpeer⟩
  refine ⟨s, hs, ?_⟩
  -- whoever has the entry at the end had it at the start, and so listens where it did
  have hport' : q.census.Lists h s.peer c → (q.census.status h.index).options.lport = d := by
    intro hl
    have hfirst := (hlists.1 hl).1
    rw [← hplaced'.housed.lport _ _ _ hl.listens hl.entry, hsame.lport,
      hplaced.housed.lport _ _ _ hfirst.listens hfirst.entry, hlport]
  rw [reaches_child_iff hplaced' hd hchild' hne hsole hport', hlists,
    listed?_of_live hlisten.live]
  exact or_congr_left (and_congr_left fun _ => ⟨fun hl => hl.entry, hlisten.lists⟩)

/-- A listener accepts its child and closes, and nobody gets the packets of the peer. -/
theorem accepted_child_without_listener :
    ∃ p, new { maxConnections := 2 } = .ok p ∧
      let pre := [.alloc, .bind ⟨0, 0⟩ 5, .listen ⟨0, 0⟩ 4, .resolveInbound 5 ⟨0x42, 3⟩]
      let op := .accept ⟨0, 0⟩ none
      (p.atRest.run pre).Accepts op ⟨0, 0⟩ ⟨1, 0⟩ ∧
        (p.atRest.run (pre ++ [op])).StaysConnected ⟨1, 0⟩ [.close ⟨0, 0⟩] ∧
        (∀ ops ∈ (pre ++ [op] ++ [Op.close ⟨0, 0⟩]).inits,
          (p.atRest.run ops).pool.Sole 5 ⟨0, 0⟩) ∧
        ((p.atRest.run (pre ++ [op] ++ [.close ⟨0, 0⟩])).pool.resolveInbound 5 ⟨0x42, 3⟩).2 =
          .ok none := by
  refine ⟨_, rfl, ⟨rfl, congrArg Reply.handle ?_⟩, ?_, ?_, ?_⟩ <;> decide +kernel

/-- The child is reached while the listener goes on to take and to lose another child. -/
theorem accepted_child_beside_another :
    ∃ p, new { maxConnections := 3 } = .ok p ∧
      let pre := [.alloc, .bind ⟨0, 0⟩ 5, .listen ⟨0, 0⟩ 4, .resolveInbound 5 ⟨0x42, 3⟩]
      let op := .accept ⟨0, 0⟩ none
      let post := [.resolveInbound 5 ⟨0x43, 3⟩, .accept ⟨0, 0⟩ none, .free ⟨2, 0⟩]
      ((p.atRest.run pre).Accepts op ⟨0, 0⟩ ⟨1, 0⟩ ∧
        (∀ s ∈ (p.atRest.run pre).pool.slot? ⟨0, 0⟩, s.options.lport = 5) ∧
        (p.atRest.run (pre ++ [op])).StaysConnected ⟨1, 0⟩ post ∧
        (p.atRest.run (pre ++ [op] ++ post)).pool.Sole 5 ⟨0, 0⟩ ∧
        (∀ s ∈ (p.atRest.run (pre ++ [op] ++ post)).pool.slot? ⟨1, 0⟩, s.peer = ⟨0x42, 3⟩) ∧
        (p.atRest.run (pre ++ [op])).pool.listed? ⟨0, 0⟩ ⟨0x42, 3⟩ = some ⟨1, 0⟩ ∧
        (p.atRest.run (pre ++ [op])).Keeps ⟨0, 0⟩ ⟨0x42, 3⟩ post) ∧
      ∃ s, (p.atRest.run (pre ++ [op] ++ post)).pool.slot? ⟨1, 0⟩ = some s ∧
        ((p.atRest.run (pre ++ [op] ++ post)).pool.resolveInbound 5 s.peer).2 =
          .ok (some ⟨1, 0⟩) := by
  refine ⟨_, rfl, ?_⟩
  intro pre op post
  refine (and_iff_left_of_imp ?_).2 ⟨⟨rfl, congrArg Reply.handle (by decide +kernel)⟩,
    by decide +kernel, by decide +kernel, by decide +kernel, by decide +kernel, by decide +kernel,
    by decide +kernel⟩
  rintro ⟨haccept, hport, hopen, hsole, hpeer, hlisted, hkeeps⟩
  have hnew : new { maxConnections := 3 } = .ok _ := rfl
  obtain ⟨s, hs, hiff⟩ := accepted_child_reached_iff hnew (by decide) haccept hport hopen hsole
  rw [← hpeer s hs] at hlisted hkeeps
  exact ⟨s, hs, hiff.2 (.inl ⟨hlisted, hkeeps⟩)⟩

end Pool

end Netstack
