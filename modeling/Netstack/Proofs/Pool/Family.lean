import Netstack.Proofs.Pool.Run

/-
Listening connections and their children.

A listening connection keeps an entry for each peer that it has a child for; the child
keeps the handle of its parent and the address of its peer. One half of the agreement
between the two always holds: an entry points to a connected child of this parent for this
peer (`Census.Family`). The other half, that every such child has its entry, does not. It
is lost when a connection listens again while children of the time before are connected,
when a former child connects by itself, and when a former child ends that is only bound
and takes the entry of the child that came after it.

These are all the ways to lose it. The last section says so of every run: the agreement
holds throughout exactly if no step strays.
-/

set_option autoImplicit false

namespace Netstack

namespace Kin

theorem lookup_forget (peer peer' : Peer) (k : Kin) :
    (k.forget peer).children.lookup peer' =
      if peer' = peer then none else k.children.lookup peer' := by
  cases k with
  | client => simp [forget, children]
  | child parent => simp [forget, children]
  | server cs =>
    show (cs.filter fun c => c.1 ≠ peer).lookup peer' =
      if peer' = peer then none else cs.lookup peer'
    induction cs with
    | nil => split <;> rfl
    | cons c cs ih =>
      by_cases hc : c.1 = peer
      · rw [List.filter_cons_of_neg (by simp [hc]), ih]
        by_cases hp : peer' = peer
        · rw [if_pos hp, if_pos hp]
        · have hne : (peer' == c.1) = false := beq_eq_false_iff_ne.2 (hc ▸ hp)
          rw [if_neg hp, if_neg hp, List.lookup_cons, hne]
      · rw [List.filter_cons_of_pos (by simp [hc]), List.lookup_cons, List.lookup_cons, ih]
        by_cases hp : peer' = peer
        · have hne : (peer' == c.1) = false := beq_eq_false_iff_ne.2 (hp ▸ Ne.symm hc)
          rw [if_pos hp, if_pos hp, hne]
        · rw [if_neg hp, if_neg hp]

end Kin

/-- The child that a connection has an entry for. -/
def Status.child? (s : Status) (peer : Peer) : Option Handle := s.kin.children.lookup peer

/-- Two states of a slot between which its relatives cannot tell, children apart. -/
structure Status.SameFolk (s t : Status) : Prop where
  generation : s.generation = t.generation
  phase : s.phase = t.phase
  parent : s.kin.parent? = t.kin.parent?
  peer : s.peer = t.peer

namespace Census

variable {σ τ : Census} {s : Status} {h parent c : Handle} {peer : Peer} {i : Nat}

/-- `c` is connected, to `peer`, as a child of `parent`. -/
structure ChildFor (σ : Census) (parent : Handle) (peer : Peer) (c : Handle) : Prop where
  live : σ.Live c
  connected : (σ.status c.index).phase = .connected
  parent : (σ.status c.index).kin.parent? = some parent
  peer : (σ.status c.index).peer = peer

structure Listening (σ : Census) (h : Handle) : Prop where
  live : σ.Live h
  listens : (σ.status h.index).phase = .listen

/-- A listening connection has an entry for a peer exactly if it has a connected child for
the peer, and then the entry points to this child. -/
def OneEach (σ : Census) : Prop :=
  ∀ h peer c, σ.Listening h → ((σ.status h.index).child? peer = some c ↔ σ.ChildFor h peer c)

/-- What always holds. -/
structure Family (σ : Census) : Prop where
  entry : ∀ i peer c, (σ.status i).child? peer = some c →
    σ.ChildFor ⟨i, (σ.status i).generation⟩ peer c
  listener : ∀ i, (σ.status i).phase = .listen → (σ.status i).kin.parent? = none
  vacant : ∀ i, (σ.status i).phase = .free → (σ.status i).kin = .client

theorem Live.eta (hl : σ.Live h) : (⟨h.index, (σ.status h.index).generation⟩ : Handle) = h := by
  rw [hl.1]

theorem Live.eq_of_index_eq {k : Handle} (hl : σ.Live h) (hk : σ.Live k) (hi : h.index = k.index) :
    h = k := by
  rw [← hl.eta, ← hk.eta, hi]

theorem Family.entry_of_live (hσ : σ.Family) (hl : σ.Live h)
    (hc : (σ.status h.index).child? peer = some c) : σ.ChildFor h peer c := by
  rw [← hl.eta]
  exact hσ.entry _ _ _ hc

theorem ChildFor.index_ne (hc : σ.ChildFor parent peer c) (hi : (σ.status i).phase ≠ .connected) :
    c.index ≠ i := by
  intro heq
  exact hi (heq ▸ hc.connected)

theorem Listening.index_ne (hl : σ.Listening h) (hi : (σ.status i).phase ≠ .listen) :
    h.index ≠ i := by
  intro heq
  exact hi (heq ▸ hl.listens)

theorem childFor_congr (hs : τ.status c.index = σ.status c.index) :
    τ.ChildFor parent peer c ↔ σ.ChildFor parent peer c := by
  constructor <;> rintro ⟨hl, hc, hk, hp⟩
  · rw [Live, hs] at hl
    exact ⟨hl, hs ▸ hc, hs ▸ hk, hs ▸ hp⟩
  · rw [← hs] at hc hk hp
    exact ⟨by rw [Live, hs]; exact hl, hc, hk, hp⟩

theorem listening_congr (hs : τ.status h.index = σ.status h.index) :
    τ.Listening h ↔ σ.Listening h := by
  constructor <;> rintro ⟨hl, hp⟩
  · rw [Live, hs] at hl
    exact ⟨hl, hs ▸ hp⟩
  · exact ⟨by rw [Live, hs]; exact hl, hs ▸ hp⟩

/-- Being a child depends on generation, phase, parent and peer. -/
theorem childFor_set (hs : s.SameFolk (σ.status i)) :
    (σ.set i s).ChildFor parent peer c ↔ σ.ChildFor parent peer c := by
  by_cases hc : c.index = i
  · subst hc
    constructor <;> rintro ⟨hl, hcon, hpar, hpeer⟩
    · rw [Live, status_set_self, hs.generation, hs.phase] at hl
      rw [status_set_self] at hcon hpar hpeer
      exact ⟨hl, hs.phase ▸ hcon, hs.parent ▸ hpar, hs.peer ▸ hpeer⟩
    · refine ⟨?_, ?_, ?_, ?_⟩
      · rw [Live, status_set_self, hs.generation, hs.phase]
        exact hl
      · rw [status_set_self, hs.phase, hcon]
      · rw [status_set_self, hs.parent, hpar]
      · rw [status_set_self, hs.peer, hpeer]
  · exact childFor_congr (status_set_of_ne hc s)

/-! ## What always holds -/

/-- No entry of any connection points to a slot. -/
def Unlisted (σ : Census) (i : Nat) : Prop :=
  ∀ k peer c, (σ.status k).child? peer = some c → c.index ≠ i

theorem Family.unlisted (hσ : σ.Family) (hi : (σ.status i).phase ≠ .connected) : σ.Unlisted i :=
  fun k peer c hc => (hσ.entry k peer c hc).index_ne hi

/-- A slot changes that no entry points to, or in what no relative knows, and gets no new
entries but such that are right. -/
theorem Family.set (hσ : σ.Family) (hs : σ.Unlisted i ∨ s.SameFolk (σ.status i))
    (hchild : ∀ peer c, s.child? peer = some c →
      (s.generation = (σ.status i).generation ∧ (σ.status i).child? peer = some c) ∨
        (σ.set i s).ChildFor ⟨i, s.generation⟩ peer c)
    (hlisten : s.phase = .listen → s.kin.parent? = none)
    (hfree : s.phase = .free → s.kin = .client) : (σ.set i s).Family := by
  -- an entry from before points to another slot, or to one that looks the same to it
  have hkeep : ∀ k peer c, (σ.status k).child? peer = some c →
      (σ.set i s).ChildFor ⟨k, (σ.status k).generation⟩ peer c := by
    intro k peer c hc
    have hold := hσ.entry k peer c hc
    obtain hu | hs := hs
    · exact (childFor_congr (status_set_of_ne (hu k peer c hc) s)).2 hold
    · exact (childFor_set hs).2 hold
  refine ⟨?_, ?_, ?_⟩
  · intro k peer c hc
    by_cases hk : k = i
    · subst hk
      rw [status_set_self] at hc ⊢
      obtain ⟨hg, hold⟩ | hnew := hchild peer c hc
      · rw [hg]
        exact hkeep k peer c hold
      · exact hnew
    · rw [status_set_of_ne hk] at hc ⊢
      exact hkeep k peer c hc
  · intro k hk
    by_cases hki : k = i
    · subst hki
      rw [status_set_self] at hk ⊢
      exact hlisten hk
    · rw [status_set_of_ne hki] at hk ⊢
      exact hσ.listener k hk
  · intro k hk
    by_cases hki : k = i
    · subst hki
      rw [status_set_self] at hk ⊢
      exact hfree hk
    · rw [status_set_of_ne hki] at hk ⊢
      exact hσ.vacant k hk

theorem family_congr (hs : τ.status = σ.status) (hσ : σ.Family) : τ.Family := by
  refine ⟨?_, ?_, ?_⟩
  · intro k peer c hc
    rw [hs] at hc ⊢
    exact (childFor_congr (congrFun hs _)).2 (hσ.entry k peer c hc)
  · rw [hs]
    exact hσ.listener
  · rw [hs]
    exact hσ.vacant

theorem status_rank (σ : Census) (h : Handle) (priority : UInt8) :
    (σ.rank h priority).status = (σ.alter h.index (Status.ranked priority)).status := by
  unfold rank
  dsimp only
  split
  · split <;> rfl
  · rfl

theorem Family.forget (hσ : σ.Family) (parent : Handle) (peer : Peer) :
    (σ.forget parent peer).Family := by
  unfold Census.forget
  split
  · refine hσ.set (.inr ⟨rfl, rfl, Kin.parent?_forget _ _, rfl⟩) ?_ ?_ ?_
    · intro peer' c hc
      refine .inl ⟨rfl, ?_⟩
      rw [Status.child?, Kin.lookup_forget] at hc
      split at hc
      · cases hc
      · exact hc
    · intro hl
      rw [Kin.parent?_forget]
      exact hσ.listener _ hl
    · intro hf
      dsimp only
      rw [hσ.vacant _ hf]
      rfl
  · exact hσ

theorem Family.disown (hσ : σ.Family) (h : Handle) : (σ.disown h).Family := by
  unfold Census.disown
  split
  · exact hσ.forget _ _
  · exact hσ

/-- A connection with an entry is not free. -/
theorem Family.live_of_entry (hσ : σ.Family) (hc : (σ.status i).child? peer = some c) :
    σ.Live ⟨i, (σ.status i).generation⟩ := by
  refine ⟨rfl, ?_⟩
  intro hf
  rw [Status.child?, hσ.vacant i hf] at hc
  cases hc

/-- Once it is taken from its parent, no entry points to a connection. -/
theorem Family.unlisted_disown (hσ : σ.Family) (h : Handle) : (σ.disown h).Unlisted h.index := by
  intro k peer c hc hidx
  have hchild := (hσ.disown h).entry k peer c hc
  have halike := alike_disown (σ := σ) h
  have hpar : (σ.status h.index).kin.parent? = some ⟨k, (σ.status k).generation⟩ := by
    rw [← (halike h.index).parent, ← (halike k).generation, ← hidx]
    exact hchild.parent
  have hpeer : (σ.status h.index).peer = peer := by
    rw [← (halike h.index).peer, ← hidx]
    exact hchild.peer
  have heq : σ.disown h = σ.forget ⟨k, (σ.status k).generation⟩ peer := by
    rw [Census.disown, hpar, hpeer]
  rw [heq, status_forget] at hc
  -- the parent is there: it had the entry
  have hold : (σ.status k).child? peer = some c := by
    split at hc
    · rw [Status.child?, Kin.lookup_forget] at hc
      split at hc
      · cases hc
      · exact hc
    · exact hc
  rw [if_pos ⟨hσ.live_of_entry hold, rfl⟩, Status.child?, Kin.lookup_forget, if_pos rfl] at hc
  cases hc

theorem Family.shut (hσ : σ.Family) (h : Handle) : (σ.shut h).Family := by
  -- the port table has no part in it, so taking the connection off its port can be left out
  have hstatus : (σ.shut h).status =
      ((σ.disown h).alter h.index Status.shut).status := by
    funext i
    by_cases hi : i = h.index
    · rw [hi, status_shut_self, status_detach, status_alter_self]
    · rw [status_shut_of_ne hi, status_detach, status_alter_of_ne hi]
  refine family_congr hstatus ((hσ.disown h).set (.inl (hσ.unlisted_disown h)) ?_ ?_ ?_)
  · exact fun peer c hc => .inl ⟨rfl, hc⟩
  · rintro ⟨⟩
  · rintro ⟨⟩

theorem Family.ending (hσ : σ.Family) (he : Ending σ τ) : τ.Family := by
  cases he with
  | shut live active => exact hσ.shut _
  | vacate live closed =>
    refine hσ.set (.inl (hσ.unlisted (by rw [closed]; simp))) ?_ ?_ ?_
    · rintro peer c ⟨⟩
    · rintro ⟨⟩
    · exact fun _ => rfl

theorem Family.adopt (hσ : σ.Family) {children : List (Peer × Handle)} (hl : σ.Live parent)
    (hp : (σ.status parent.index).phase = .listen)
    (hk : (σ.status parent.index).kin = .server children) (hc : σ.Live c)
    (hclosed : (σ.status c.index).phase = .closed) : (σ.adopt parent c peer).Family := by
  have hne : parent.index ≠ c.index := by
    intro heq
    rw [heq, hclosed] at hp
    cases hp
  -- first the child, to which no entry points yet, and then the parent with its entry
  have hchild : (σ.alter c.index
      (Status.fostered parent (σ.status parent.index).options peer)).Family := by
    refine hσ.set (.inl (hσ.unlisted (by rw [hclosed]; simp))) ?_ ?_ ?_
    · rintro peer c ⟨⟩
    · rintro ⟨⟩
    · rintro ⟨⟩
  have hparent := status_alter_of_ne (σ := σ) hne
    (Status.fostered parent (σ.status parent.index).options peer)
  refine hchild.set (.inr ⟨rfl, rfl, Kin.parent?_adopt _ _ _, rfl⟩) ?_ ?_ ?_
  · intro peer' c' hc'
    rw [hparent] at hc' ⊢
    dsimp only at hc' ⊢
    rw [Status.child?, hk] at hc'
    change ((peer, c) :: children).lookup peer' = some c' at hc'
    rw [List.lookup_cons] at hc'
    split at hc'
    · -- the entry that is new
      next hpeer =>
      obtain rfl := Option.some.inj hc'
      obtain rfl := eq_of_beq hpeer
      right
      rw [hl.eta]
      have hstatus := status_set_of_ne (σ := σ.alter c.index
        (Status.fostered parent (σ.status parent.index).options peer')) hne.symm
      refine ⟨?_, ?_, ?_, ?_⟩
      · rw [Live, hstatus, status_alter_self]
        exact ⟨hc.1, by simp [Status.fostered]⟩
      all_goals rw [hstatus, status_alter_self]; rfl
    · left
      refine ⟨rfl, ?_⟩
      rw [Status.child?, hk]
      exact hc'
  · rw [hparent]
    dsimp only
    rw [hk]
    exact fun _ => rfl
  · rw [hparent]
    dsimp only
    rw [hp]
    rintro ⟨⟩

theorem Family.opening (hσ : σ.Family) (hm : Opening σ τ) : τ.Family := by
  cases hm with
  | claim size free =>
    refine hσ.set (.inl (hσ.unlisted (by rw [free]; simp))) ?_ ?_ ?_
    · rintro peer c ⟨⟩
    · rintro ⟨⟩
    · rintro ⟨⟩
  | attach live closed bindable =>
    refine hσ.set (.inl (hσ.unlisted (by rw [closed]; simp))) ?_ ?_ ?_
    · exact fun peer c hc => .inl ⟨rfl, hc⟩
    · rintro ⟨⟩
    · rintro ⟨⟩
  | listen live bound table =>
    refine family_congr (status_withPorts _)
      (hσ.set (.inl (hσ.unlisted (by rw [bound]; simp))) ?_ ?_ ?_)
    · rintro peer c ⟨⟩
    · exact fun _ => rfl
    · rintro ⟨⟩
  | link live idle table =>
    refine family_congr (status_withPorts _)
      (hσ.set (.inl (hσ.unlisted (by obtain hp | hp := idle <;> rw [hp] <;> simp))) ?_ ?_ ?_)
    · exact fun peer c hc => .inl ⟨rfl, hc⟩
    · rintro ⟨⟩
    · rintro ⟨⟩
  | rank live =>
    refine family_congr (status_rank σ _ _) (hσ.set (.inr ⟨rfl, rfl, rfl, rfl⟩) ?_ ?_ ?_)
    · exact fun peer c hc => .inl ⟨rfl, hc⟩
    · exact hσ.listener _
    · exact hσ.vacant _
  | retime live =>
    refine hσ.set (.inr ⟨rfl, rfl, rfl, rfl⟩) ?_ ?_ ?_
    · exact fun peer c hc => .inl ⟨rfl, hc⟩
    · exact hσ.listener _
    · exact hσ.vacant _
  | adopt live listens server unknown childLive fresh =>
    exact hσ.adopt live listens server childLive fresh.1

end Census

namespace Pool

theorem family_new {c : Config} {p : Pool} (h : new c = .ok p) : p.census.Family := by
  rw [census_new h]
  refine ⟨?_, ?_, ?_⟩
  · rintro i peer k ⟨⟩
  · rintro i ⟨⟩
  · exact fun _ _ => rfl

theorem family_run {c : Config} {p : Pool} (h : new c = .ok p) (ops : List Op) :
    (p.atRest.run ops).pool.census.Family :=
  System.census_run (fun _ _ ho hσ => hσ.opening ho) (fun _ _ he hσ => hσ.ending he)
    (s := p.atRest) (family_new h) ops

end Pool

end Netstack
