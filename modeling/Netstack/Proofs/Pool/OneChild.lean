import Mathlib.Data.List.Induction
import Netstack.Proofs.Pool.Strays

/-
One child for each peer, and the steps that lose it.

A listening connection is meant to have one connected child for each peer that it knows,
and an entry that points to it. This is lost in three ways: a connection listens again
while children of the time before are connected; a former child connects by itself; and a
former child that is only bound ends, and takes the entry of the child that came after it.
A step that does one of the three strays.

Nothing else loses it. The main result says of every run that one child for each peer is
kept throughout exactly if no step strays.
-/

set_option autoImplicit false

namespace Netstack

namespace Pool

variable {p q : Pool} {h parent c : Handle} {peer : Peer}

/-- A connection is in this phase. -/
def In (p : Pool) (h : Handle) (phase : Phase) : Prop := ∃ s, p.slot? h = some s ∧ s.phase = phase

instance (p : Pool) (h : Handle) (phase : Phase) : Decidable (p.In h phase) :=
  Option.decidableExistsMem (p.slot? h)

/-- A connection is, or was once, the child of another. -/
def IsChild (p : Pool) (h parent : Handle) : Prop :=
  ∃ s, p.slot? h = some s ∧ s.role.parent? = some parent

/-- What a connection has in its map of children for a peer. -/
def listed? (p : Pool) (parent : Handle) (peer : Peer) : Option Handle :=
  (p.slot? parent).bind fun s => s.role.kin.children.lookup peer

/-- A live connection is connected to `peer` as a child of `parent`. -/
def ChildFor (p : Pool) (parent : Handle) (peer : Peer) (c : Handle) : Prop :=
  ∃ s, p.slot? c = some s ∧ s.phase = .connected ∧ s.role.parent? = some parent ∧ s.peer = peer

instance (p : Pool) (parent : Handle) (peer : Peer) (c : Handle) :
    Decidable (p.ChildFor parent peer c) :=
  Option.decidableExistsMem (p.slot? c)

/-- For every listening connection and every peer: there is an entry in the map exactly if
there is a connected child, there is at most one, and the entry points to it. -/
def OneChildPerPeer (p : Pool) : Prop :=
  ∀ h peer c, p.In h .listen → (p.listed? h peer = some c ↔ p.ChildFor h peer c)

/-- A former child of a listening connection is bound to a port, and ends; meanwhile
another has become the child for its old peer, and remains. -/
def Orphans (p q : Pool) : Prop :=
  ∃ x parent peer c, p.In x .bound ∧ p.IsChild x parent ∧
    (∀ s, p.slot? x = some s → s.peer = peer) ∧
    (∀ s, q.slot? x = some s → s.phase.isActive = false) ∧
    p.In parent .listen ∧ q.In parent .listen ∧
    p.listed? parent peer = some c ∧ q.ChildFor parent peer c

/-- The steps that lose the agreement of a listening connection with its children; `p` is
the pool before and `q` the pool after the step. -/
inductive Strays (p q : Pool) : Op → Prop
  /-- a connection listens again and forgets the children of the time before -/
  | listen {h : Handle} {backlog : Nat} {peer : Peer} {c : Handle} (bound : p.In h .bound)
      (listens : q.In h .listen) (child : p.ChildFor h peer c) : Strays p q (.listen h backlog)
  /-- a former child of a listening connection connects by itself -/
  | connect {h parent : Handle} {peer : Peer} (idle : p.In h .closed ∨ p.In h .bound)
      (connected : q.In h .connected) (former : p.IsChild h parent)
      (listens : p.In parent .listen) : Strays p q (.connect h peer)
  | close {h : Handle} (orphans : Orphans p q) : Strays p q (.close h)
  | free {h : Handle} (orphans : Orphans p q) : Strays p q (.free h)

theorem in_iff {phase : Phase} :
    p.In h phase ↔ p.census.Live h ∧ (p.census.status h.index).phase = phase := by
  constructor
  · rintro ⟨s, hs, hp⟩
    rw [status_of_slot? hs]
    exact ⟨live_of_slot? hs, hp⟩
  · rintro ⟨hl, hp⟩
    obtain ⟨s, hs⟩ := live_iff.1 hl
    rw [status_of_slot? hs] at hp
    exact ⟨s, hs, hp⟩

theorem in_listen_iff : p.In h .listen ↔ p.census.Listening h :=
  in_iff.trans ⟨fun ⟨hl, hp⟩ => ⟨hl, hp⟩, fun ⟨hl, hp⟩ => ⟨hl, hp⟩⟩

theorem isChild_iff :
    p.IsChild h parent ↔
      p.census.Live h ∧ (p.census.status h.index).kin.parent? = some parent := by
  constructor
  · rintro ⟨s, hs, hk⟩
    rw [status_of_slot? hs]
    exact ⟨live_of_slot? hs, s.role.parent?_kin.trans hk⟩
  · rintro ⟨hl, hk⟩
    obtain ⟨s, hs⟩ := live_iff.1 hl
    rw [status_of_slot? hs] at hk
    exact ⟨s, hs, s.role.parent?_kin.symm.trans hk⟩

theorem listed?_of_live (hl : p.census.Live h) :
    p.listed? h peer = (p.census.status h.index).child? peer := by
  obtain ⟨s, hs⟩ := live_iff.1 hl
  rw [listed?, hs, status_of_slot? hs]
  rfl

theorem childFor_iff : p.ChildFor parent peer c ↔ p.census.ChildFor parent peer c := by
  constructor
  · rintro ⟨s, hs, hp, hk, hpeer⟩
    have hstatus := status_of_slot? hs
    exact ⟨live_of_slot? hs, by rw [hstatus]; exact hp,
      by rw [hstatus]; exact s.role.parent?_kin.trans hk, by rw [hstatus]; exact hpeer⟩
  · rintro ⟨hl, hp, hk, hpeer⟩
    obtain ⟨s, hs⟩ := live_iff.1 hl
    rw [status_of_slot? hs] at hp hk hpeer
    exact ⟨s, hs, hp, s.role.parent?_kin.symm.trans hk, hpeer⟩

theorem oneChildPerPeer_iff : p.OneChildPerPeer ↔ p.census.OneEach := by
  constructor <;> intro hone h peer c hl
  · rw [← listed?_of_live hl.live, ← childFor_iff]
    exact hone h peer c (in_listen_iff.2 hl)
  · have hl := in_listen_iff.1 hl
    rw [listed?_of_live hl.live, childFor_iff]
    exact hone h peer c hl

theorem orphans_iff (hr : p.census.Recedes q.census) :
    p.Orphans q ↔ ∃ i parent peer c, p.census.Orphan q.census i parent peer c := by
  constructor
  · rintro ⟨x, parent, peer, c, hb, hk, hpeer, hend, hl, hl', he, hc⟩
    obtain ⟨hlx, hb⟩ := in_iff.1 hb
    obtain ⟨s, hs⟩ := live_iff.1 hlx
    have hl := in_listen_iff.1 hl
    refine ⟨x.index, parent, peer, c, hb, (isChild_iff.1 hk).2, ?_, ?_, hl, in_listen_iff.1 hl', ?_,
      childFor_iff.1 hc⟩
    · rw [status_of_slot? hs]
      exact hpeer s hs
    · -- had it not ended, its handle would be live and the slot active
      by_contra hact
      rw [Bool.not_eq_false] at hact
      have hg := (hr.active x.index hact).generation
      have hlq : q.census.Live x := by
        refine ⟨hg.trans hlx.1, ?_⟩
        intro hf
        rw [hf] at hact
        cases hact
      obtain ⟨t, ht⟩ := live_iff.1 hlq
      rw [status_of_slot? ht] at hact
      have hn := hend t ht
      rw [show t.phase.isActive = true from hact] at hn
      cases hn
    · rw [← listed?_of_live hl.live]
      exact he
  · rintro ⟨i, parent, peer, c, hb, hk, hpeer, hend, hl, hl', he, hc⟩
    have hlx : p.census.Live ⟨i, (p.census.status i).generation⟩ := ⟨rfl, by rw [hb]; simp⟩
    refine ⟨_, parent, peer, c, in_iff.2 ⟨hlx, hb⟩, isChild_iff.2 ⟨hlx, hk⟩, ?_, ?_,
      in_listen_iff.2 hl, in_listen_iff.2 hl', ?_, childFor_iff.2 hc⟩
    · intro s hs
      rw [status_of_slot? hs] at hpeer
      exact hpeer
    · intro s hs
      rw [status_of_slot? hs] at hend
      exact hend
    · rw [listed?_of_live hl.live]
      exact he

/-! ## What every step does -/

theorem not_strays_self {op : Op} : ¬ p.Strays p op := by
  have hne : ∀ {h : Handle} {a b : Phase}, a ≠ b → p.In h a → ¬ p.In h b := by
    intro h a b hab ha hb
    exact hab ((in_iff.1 ha).2.symm.trans (in_iff.1 hb).2)
  have horphans : ¬ p.Orphans p := by
    rintro ⟨x, -, -, -, ⟨s, hs, hb⟩, -, -, hend, -⟩
    have hn := hend s hs
    rw [hb] at hn
    cases hn
  intro hst
  cases hst with
  | listen bound listens child => exact hne (by simp) bound listens
  | connect idle connected former listens =>
    obtain hi | hi := idle
    · exact hne (by simp) hi connected
    · exact hne (by simp) hi connected
  | close orphans => exact horphans orphans
  | free orphans => exact horphans orphans

/-- A step that leaves the pool as it was keeps the agreement. -/
theorem oneChildPerPeer_self {op : Op} (hp : p.OneChildPerPeer) :
    p.OneChildPerPeer ↔ ¬ p.Strays p op :=
  iff_of_true hp not_strays_self

theorem oneEach_alloc (hp : p.census.OneEach) : p.alloc.1.census.OneEach := by
  obtain ⟨e, he⟩ | ⟨i, -, hfree, -, hc⟩ := alloc_cases p
  · rw [he]
    exact hp
  · rw [hc]
    exact (Census.oneEach_set_apart (by rw [hfree]; simp) (by simp [Status.claimed])).2 hp

theorem oneEach_bind (port : UInt8) (hp : p.census.OneEach) : (p.bind h port).1.census.OneEach := by
  obtain ⟨e, he⟩ | ⟨lport, -, hclosed, -, hc⟩ := bind_cases p h port
  · rw [he]
    exact hp
  · rw [hc]
    exact (Census.oneEach_set_apart (by rw [hclosed]; simp) (by simp [Status.attached])).2 hp

theorem oneEach_setPriority (priority : UInt8) (hp : p.census.OneEach) :
    (p.setPriority h priority).1.census.OneEach := by
  obtain ⟨-, he⟩ | ⟨-, hc⟩ := setPriority_cases p h priority
  · rw [he]
    exact hp
  · rw [hc, Census.oneEach_of_status (Census.status_rank _ _ _)]
    exact (Census.oneEach_set_same (s := (p.census.status h.index).ranked priority)
      ⟨rfl, rfl, rfl, rfl⟩ rfl).2 hp

theorem oneEach_updateOptions {f : Options → Options}
    (hf : ∀ o, (f o).raddr = o.raddr ∧ (f o).rport = o.rport) (hp : p.census.OneEach) :
    (p.updateOptions h f).1.census.OneEach := by
  obtain he | ⟨-, hc⟩ := updateOptions_cases p h f
  · rw [he]
    exact hp
  · rw [hc]
    -- the peer is among the options, so they must keep it
    generalize ho : (p.census.status h.index).options = o
    have hpeer : (⟨(f o).raddr, (f o).rport⟩ : Peer) = ⟨o.raddr, o.rport⟩ := by
      rw [(hf o).1, (hf o).2]
    subst ho
    exact (Census.oneEach_set_same (i := h.index)
      (s := { p.census.status h.index with options := f (p.census.status h.index).options })
      ⟨rfl, rfl, rfl, hpeer⟩ rfl).2 hp

theorem oneEach_offerChild (parent : Handle) (peer : Peer) (hfam : p.census.Family)
    (hp : p.census.OneEach) : (p.offerChild parent peer).1.census.OneEach := by
  obtain ⟨e, he⟩ | ⟨_, _, -, -, -, he⟩ | ⟨child, o, ⟨-, hc⟩ | ⟨e, -, hc⟩⟩ :=
    offerChild_cases p parent peer
  · rw [he]
    exact hp
  · rw [he]
    exact hp
  · rw [hc]
    exact o.oneEach hp
  · rw [hc]
    exact o.oneEach_rejected hfam hp

theorem oneEach_resolveInbound (dstPort : UInt8) (peer : Peer) (hfam : p.census.Family)
    (hp : p.census.OneEach) : (p.resolveInbound dstPort peer).1.census.OneEach := by
  obtain he | ⟨conn, he⟩ := resolveInbound_fst p dstPort peer
  · rw [he]
    exact hp
  · rw [he]
    exact oneEach_offerChild conn peer hfam hp

theorem oneChildPerPeer_listen (backlog : Nat) (hp : p.OneChildPerPeer) :
    (p.listen h backlog).1.OneChildPerPeer ↔
      ¬ p.Strays (p.listen h backlog).1 (.listen h backlog) := by
  obtain ⟨e, he⟩ | ⟨t, hl, hb, -, hc⟩ := listen_cases p h backlog
  · rw [he]
    exact oneChildPerPeer_self hp
  · generalize (p.listen h backlog).1 = q at *
    have hlisten : q.In h .listen := by
      rw [in_iff, hc, Census.Live, Census.status_withPorts, Census.status_alter_self]
      exact ⟨⟨hl.1, by simp [Status.listening]⟩, rfl⟩
    rw [oneChildPerPeer_iff, hc, Census.oneEach_of_status (Census.status_withPorts _),
      Census.oneEach_listening (oneChildPerPeer_iff.1 hp) hl hb]
    constructor
    · rintro hno (⟨bound, listens, child⟩ | _)
      exact hno _ _ (childFor_iff.1 child)
    · intro hno peer c hch
      exact hno (.listen (in_iff.2 ⟨hl, hb⟩) hlisten (childFor_iff.2 hch))

theorem oneChildPerPeer_connect (peer : Peer) (hfam : p.census.Family) (hp : p.OneChildPerPeer) :
    (p.connect h peer).1.OneChildPerPeer ↔
      ¬ p.Strays (p.connect h peer).1 (.connect h peer) := by
  obtain ⟨e, he⟩ | ⟨lport, t, hl, hi, -, hc⟩ := connect_cases p h peer
  · rw [he]
    exact oneChildPerPeer_self hp
  · generalize (p.connect h peer).1 = q at *
    have hconnected : q.In h .connected := by
      rw [in_iff, hc, Census.Live, Census.status_withPorts, Census.status_alter_self]
      exact ⟨⟨hl.1, by simp [Status.linked]⟩, rfl⟩
    have hidle : p.In h .closed ∨ p.In h .bound :=
      hi.imp (fun hp => in_iff.2 ⟨hl, hp⟩) (fun hp => in_iff.2 ⟨hl, hp⟩)
    rw [oneChildPerPeer_iff, hc, Census.oneEach_of_status (Census.status_withPorts _),
      Census.oneEach_linked hfam (oneChildPerPeer_iff.1 hp) hl hi]
    constructor
    · intro hno hst
      cases hst with
      | connect idle connected former listens =>
        exact hno _ (isChild_iff.1 former).2 (in_listen_iff.1 listens)
    · intro hno parent hpar hlisten
      exact hno (.connect hidle hconnected (isChild_iff.2 ⟨hl, hpar⟩) (in_listen_iff.2 hlisten))

/-- Closing and freeing keep the agreement exactly if they leave no orphan. -/
theorem oneChildPerPeer_endings (he : Census.Endings p.census q.census) (hfam : p.census.Family)
    (hp : p.OneChildPerPeer) : q.OneChildPerPeer ↔ ¬ p.Orphans q := by
  have hfam' : q.census.Family := he.invariant (fun _ _ he hσ => hσ.ending he) hfam
  rw [oneChildPerPeer_iff, orphans_iff he.recedes,
    he.recedes.oneEach hfam hfam' (oneChildPerPeer_iff.1 hp)]
  simp only [not_exists]

end Pool

namespace System

open Pool (oneChildPerPeer_iff)

/-- A step keeps the agreement exactly if it does not stray. -/
theorem oneChildPerPeer_step (s : System) (op : Pool.Op) (hfam : s.pool.census.Family)
    (hs : s.pool.OneChildPerPeer) :
    (s.step op).1.pool.OneChildPerPeer ↔ ¬ s.pool.Strays (s.step op).1.pool op := by
  have hone := oneChildPerPeer_iff.1 hs
  by_cases hq : op.isQuiet = true
  · refine iff_of_true ?_ ?_
    · rw [oneChildPerPeer_iff, census_step_of_quiet s hq]
      exact hone
    · intro hst
      cases hst <;> cases hq
  cases op with
  | listen h backlog => exact Pool.oneChildPerPeer_listen backlog hs
  | connect h peer => exact Pool.oneChildPerPeer_connect peer hfam hs
  | close h =>
    refine (Pool.oneChildPerPeer_endings (Pool.endings_close _ h) hfam hs).trans (not_congr ?_)
    exact ⟨.close, fun hst => by cases hst with | close orphans => exact orphans⟩
  | free h =>
    refine (Pool.oneChildPerPeer_endings (Pool.endings_free _ h) hfam hs).trans (not_congr ?_)
    exact ⟨.free, fun hst => by cases hst with | free orphans => exact orphans⟩
  | alloc => exact iff_of_true (oneChildPerPeer_iff.2 (Pool.oneEach_alloc hone)) (by rintro ⟨⟩)
  | bind h port =>
    exact iff_of_true (oneChildPerPeer_iff.2 (Pool.oneEach_bind port hone)) (by rintro ⟨⟩)
  | setPriority h priority =>
    exact iff_of_true (oneChildPerPeer_iff.2 (Pool.oneEach_setPriority priority hone))
      (by rintro ⟨⟩)
  | setRecvTimeout h timeout =>
    exact iff_of_true (oneChildPerPeer_iff.2
      (Pool.oneEach_updateOptions (fun _ => ⟨rfl, rfl⟩) hone)) (by rintro ⟨⟩)
  | setSendTimeout h timeout =>
    exact iff_of_true (oneChildPerPeer_iff.2
      (Pool.oneEach_updateOptions (fun _ => ⟨rfl, rfl⟩) hone)) (by rintro ⟨⟩)
  | offerChild parent peer =>
    exact iff_of_true (oneChildPerPeer_iff.2 (Pool.oneEach_offerChild parent peer hfam hone))
      (by rintro ⟨⟩)
  | resolveInbound dstPort peer =>
    exact iff_of_true (oneChildPerPeer_iff.2 (Pool.oneEach_resolveInbound dstPort peer hfam hone))
      (by rintro ⟨⟩)
  | _ => exact absurd rfl hq

end System

namespace Pool

theorem oneChildPerPeer_new {c : Config} {p : Pool} (h : new c = .ok p) : p.OneChildPerPeer := by
  intro k peer x hk
  obtain ⟨-, hp⟩ := in_iff.1 hk
  rw [census_new h] at hp
  cases hp

/-- A run keeps one child for each peer throughout exactly if none of its steps strays. -/
theorem oneChildPerPeer_run_iff {c : Config} {p : Pool} (hnew : new c = .ok p) (ops : List Op) :
    (∀ pre, pre <+: ops → (p.atRest.run pre).pool.OneChildPerPeer) ↔
      ∀ pre op, pre ++ [op] <+: ops →
        ¬ (p.atRest.run pre).pool.Strays (p.atRest.run (pre ++ [op])).pool op := by
  -- the family invariant holds after every prefix, so each step can be judged by itself
  have hstep : ∀ pre op, (p.atRest.run pre).pool.OneChildPerPeer →
      ((p.atRest.run (pre ++ [op])).pool.OneChildPerPeer ↔
        ¬ (p.atRest.run pre).pool.Strays (p.atRest.run (pre ++ [op])).pool op) := by
    intro pre op hpre
    rw [System.run_snoc]
    exact System.oneChildPerPeer_step _ op (family_run hnew pre) hpre
  constructor
  · intro hone pre op hpre
    exact (hstep pre op (hone pre ((List.prefix_append _ _).trans hpre))).1 (hone _ hpre)
  · intro hno pre
    induction pre using List.reverseRecOn with
    | nil => exact fun _ => oneChildPerPeer_new hnew
    | append_singleton pre op ih =>
      intro hpre
      exact (hstep pre op (ih ((List.prefix_append _ _).trans hpre))).2 (hno pre op hpre)

/-- A listener closes, listens again on its port and has forgotten its child: the next packet
of the peer makes a second one. -/
theorem two_children_for_one_peer :
    ∃ p, new { maxConnections := 3 } = .ok p ∧
      ¬ (p.atRest.run [.alloc, .bind ⟨0, 0⟩ 5, .listen ⟨0, 0⟩ 4, .offerChild ⟨0, 0⟩ ⟨0x42, 3⟩,
        .close ⟨0, 0⟩, .bind ⟨0, 0⟩ 5, .listen ⟨0, 0⟩ 4,
        .offerChild ⟨0, 0⟩ ⟨0x42, 3⟩]).pool.OneChildPerPeer := by
  refine ⟨_, rfl, ?_⟩
  intro hone
  have h := (hone ⟨0, 0⟩ ⟨0x42, 3⟩ ⟨1, 0⟩ (by decide +kernel)).2 (by decide +kernel)
  revert h
  decide +kernel

/-- A listener and its child, which is offered twice and stays one. -/
theorem one_child_offered_twice :
    ∃ p, new { maxConnections := 3 } = .ok p ∧
      ∀ pre, pre <+: [Op.alloc, .bind ⟨0, 0⟩ 5, .listen ⟨0, 0⟩ 4, .offerChild ⟨0, 0⟩ ⟨0x42, 3⟩,
        .offerChild ⟨0, 0⟩ ⟨0x42, 3⟩] → (p.atRest.run pre).pool.OneChildPerPeer := by
  refine ⟨_, rfl, (oneChildPerPeer_run_iff (c := { maxConnections := 3 }) rfl _).2 ?_⟩
  rintro pre op ⟨rest, hpre⟩ hst
  -- the one step that could stray is to listen, and nobody is connected then
  obtain _ | ⟨_, _ | ⟨_, _ | ⟨_, _ | ⟨_, _ | ⟨_, _ | ⟨_, pre⟩⟩⟩⟩⟩⟩ := pre <;> cases hpre <;>
    cases hst
  next bound listens child =>
    obtain ⟨s, hs, hp, -⟩ := child
    -- the slots are few, and none of them is connected
    have hmem := Array.mem_of_getElem? (slot?_eq_some_iff.1 hs).1
    clear bound listens hs
    revert hp
    revert hmem
    revert s
    decide +kernel

end Pool

end Netstack
