import Netstack.Proofs.Pool.Family

/-
When a listening connection and its children agree, and which moves end the agreement.

That every connected child of a listening connection has its entry is not kept by every
move. What listening, connecting and a new child do to it is shown here for each, as an
equivalence where the answer depends on the state. Endings are taken together, any number
of them at once, since what one ending breaks a later one of the same `free` can mend: the
relation `Recedes` says what is left of the connections and the entries, and who took an
entry that is gone.
-/

set_option autoImplicit false

namespace Netstack

namespace Census

variable {σ ρ τ : Census} {s : Status} {h parent c : Handle} {peer : Peer} {i : Nat}

/-! ## Changes of one slot -/

theorem oneEach_congr (hl : ∀ h, τ.Listening h ↔ σ.Listening h)
    (he : ∀ h, σ.Listening h → ∀ peer,
      (τ.status h.index).child? peer = (σ.status h.index).child? peer)
    (hc : ∀ h peer c, σ.Listening h → (τ.ChildFor h peer c ↔ σ.ChildFor h peer c)) :
    τ.OneEach ↔ σ.OneEach := by
  constructor
  · intro hτ h peer c hlisten
    rw [← he h hlisten, ← hc h peer c hlisten]
    exact hτ h peer c ((hl h).2 hlisten)
  · intro hσ h peer c hlisten
    have hlisten' := (hl h).1 hlisten
    rw [he h hlisten', hc h peer c hlisten']
    exact hσ h peer c hlisten'

theorem oneEach_of_status (hs : τ.status = σ.status) : τ.OneEach ↔ σ.OneEach :=
  oneEach_congr (fun _ => listening_congr (congrFun hs _)) (fun h _ _ => by rw [hs])
    (fun _ _ _ _ => childFor_congr (congrFun hs _))

theorem childFor_set_of_not_connected (hi : (σ.status i).phase ≠ .connected)
    (hs : s.phase ≠ .connected) :
    (σ.set i s).ChildFor parent peer c ↔ σ.ChildFor parent peer c := by
  by_cases hc : c.index = i
  · constructor
    · rintro ⟨-, hcon, -, -⟩
      rw [hc, status_set_self] at hcon
      exact absurd hcon hs
    · rintro ⟨-, hcon, -, -⟩
      rw [hc] at hcon
      exact absurd hcon hi
  · exact childFor_congr (status_set_of_ne hc s)

theorem listening_set_of_not_listen (hi : (σ.status i).phase ≠ .listen)
    (hs : s.phase ≠ .listen) : (σ.set i s).Listening h ↔ σ.Listening h := by
  by_cases hh : h.index = i
  · constructor
    · rintro ⟨-, hp⟩
      rw [hh, status_set_self] at hp
      exact absurd hp hs
    · rintro ⟨-, hp⟩
      rw [hh] at hp
      exact absurd hp hi
  · exact listening_congr (status_set_of_ne hh s)

/-- A slot that is neither a parent nor a child changes, and becomes neither. -/
theorem oneEach_set_apart (hi : (σ.status i).phase ≠ .connected ∧ (σ.status i).phase ≠ .listen)
    (hs : s.phase ≠ .connected ∧ s.phase ≠ .listen) : (σ.set i s).OneEach ↔ σ.OneEach := by
  refine oneEach_congr (fun h => listening_set_of_not_listen hi.2 hs.2) ?_
    (fun _ _ _ _ => childFor_set_of_not_connected hi.1 hs.1)
  intro h hl peer
  rw [status_set_of_ne (hl.index_ne hi.2)]

/-- A slot changes in what its relatives do not know. -/
theorem oneEach_set_same (hs : s.SameFolk (σ.status i)) (hk : s.kin = (σ.status i).kin) :
    (σ.set i s).OneEach ↔ σ.OneEach := by
  refine oneEach_congr ?_ ?_ (fun _ _ _ _ => childFor_set hs)
  · intro h
    by_cases hh : h.index = i
    · subst hh
      constructor <;> rintro ⟨hl, hp⟩
      · rw [Live, status_set_self, hs.generation, hs.phase] at hl
        rw [status_set_self, hs.phase] at hp
        exact ⟨hl, hp⟩
      · refine ⟨?_, ?_⟩
        · rw [Live, status_set_self, hs.generation, hs.phase]
          exact hl
        · rw [status_set_self, hs.phase, hp]
    · exact listening_congr (status_set_of_ne hh s)
  · intro h hl peer
    by_cases hh : h.index = i
    · rw [hh, status_set_self, Status.child?, hk]
      rfl
    · rw [status_set_of_ne hh]

/-! ## Listening and connecting -/

/-- A connection that begins to listen agrees with its children if it has none. -/
theorem oneEach_listening (hσ : σ.OneEach) (hl : σ.Live h)
    (hb : (σ.status h.index).phase = .bound) :
    (σ.alter h.index Status.listening).OneEach ↔ ∀ peer c, ¬ σ.ChildFor h peer c := by
  have hchild : ∀ k peer c, (σ.alter h.index Status.listening).ChildFor k peer c ↔
      σ.ChildFor k peer c := fun k peer c =>
    childFor_set_of_not_connected (by rw [hb]; simp) (by simp [Status.listening])
  have hself : (σ.alter h.index Status.listening).Listening h := by
    refine ⟨?_, ?_⟩
    · rw [Live, status_alter_self]
      exact ⟨hl.1, by simp [Status.listening]⟩
    · rw [status_alter_self]
      rfl
  -- it begins without entries, whatever it had before
  have hnone : ∀ peer, ((σ.alter h.index Status.listening).status h.index).child? peer = none := by
    intro peer
    rw [status_alter_self]
    rfl
  constructor
  · intro hτ peer c hc
    have he := (hτ h peer c hself).2 ((hchild h peer c).2 hc)
    rw [hnone] at he
    cases he
  · intro hc k peer c hk
    by_cases hkh : k.index = h.index
    · obtain rfl : k = h := hk.live.eq_of_index_eq hself.live hkh
      rw [hnone, hchild]
      constructor
      · rintro ⟨⟩
      · intro hcc
        exact absurd hcc (hc peer c)
    · rw [status_alter_of_ne hkh, hchild]
      exact hσ k peer c ((listening_congr (status_alter_of_ne hkh _)).1 hk)

/-- A connection that connects by itself must not be the child of a listening one. -/
theorem oneEach_linked {lport : UInt8} {peer₀ : Peer} (hfam : σ.Family) (hσ : σ.OneEach)
    (hl : σ.Live h)
    (hi : (σ.status h.index).phase = .closed ∨ (σ.status h.index).phase = .bound) :
    (σ.alter h.index (Status.linked lport peer₀)).OneEach ↔
      ∀ parent, (σ.status h.index).kin.parent? = some parent → ¬ σ.Listening parent := by
  have hn : (σ.status h.index).phase ≠ .connected ∧ (σ.status h.index).phase ≠ .listen := by
    obtain hp | hp := hi <;> rw [hp] <;> simp
  generalize hτ : σ.alter h.index (Status.linked lport peer₀) = τ
  have hself : τ.status h.index = (σ.status h.index).linked lport peer₀ := by
    rw [← hτ, status_alter_self]
  have hother : ∀ k, k ≠ h.index → τ.status k = σ.status k := by
    intro k hk
    rw [← hτ, status_alter_of_ne hk]
  have hlisten : ∀ k, τ.Listening k ↔ σ.Listening k := by
    intro k
    rw [← hτ]
    exact listening_set_of_not_listen hn.2 (by simp [Status.linked])
  constructor
  · intro hone parent hpar hp
    have hchild : τ.ChildFor parent peer₀ h := by
      refine ⟨?_, ?_, ?_, ?_⟩
      · rw [Live, hself]
        exact ⟨hl.1, by simp [Status.linked]⟩
      all_goals rw [hself]
      · rfl
      · exact hpar
      · rfl
    -- then its parent would have an entry for it, and had it before, when it was not connected
    have he := (hone parent peer₀ h ((hlisten parent).2 hp)).2 hchild
    rw [hother _ (hp.index_ne hn.2)] at he
    exact hn.1 (hfam.entry _ _ _ he).connected
  · intro hno
    refine (oneEach_congr hlisten ?_ ?_).2 hσ
    · intro k hk peer
      rw [hother _ (hk.index_ne hn.2)]
    · intro k peer c hk
      by_cases hc : c.index = h.index
      · constructor
        · rintro ⟨-, -, hpar, -⟩
          rw [hc, hself] at hpar
          exact absurd hk (hno k hpar)
        · rintro ⟨-, hcon, -, -⟩
          rw [hc] at hcon
          exact absurd hcon hn.1
      · exact childFor_congr (hother _ hc)

/-- The children after an adoption are the new one and those that were there before. -/
theorem childFor_adopt_iff {k c' : Handle} {peer' : Peer}
    (hp : (σ.status parent.index).phase = .listen) (hc : σ.Live c)
    (hclosed : (σ.status c.index).phase = .closed) :
    (σ.adopt parent c peer).ChildFor k peer' c' ↔
      (k = parent ∧ peer' = peer ∧ c' = c) ∨ σ.ChildFor k peer' c' := by
  have hne : parent.index ≠ c.index := by
    intro heq
    rw [heq, hclosed] at hp
    cases hp
  have hsc := status_adopt_child (σ := σ) hne peer
  have hlive : (σ.adopt parent c peer).Live c := by
    rw [Live, hsc]
    exact ⟨hc.1, by simp [Status.fostered]⟩
  by_cases hcc : c'.index = c.index
  · -- in the slot of the new child there was no child before
    have hno : ¬ σ.ChildFor k peer' c' := by
      intro hch
      exact absurd hcc (hch.index_ne (by rw [hclosed]; simp))
    rw [or_iff_left hno]
    constructor
    · intro hch
      obtain rfl := hch.live.eq_of_index_eq hlive hcc
      obtain ⟨-, -, hpar, hpeer⟩ := hch
      rw [hsc] at hpar hpeer
      exact ⟨(Option.some.inj hpar).symm, hpeer.symm, rfl⟩
    · rintro ⟨rfl, rfl, rfl⟩
      refine ⟨hlive, ?_, ?_, ?_⟩ <;> rw [hsc] <;> rfl
  · have hnew : ¬ (k = parent ∧ peer' = peer ∧ c' = c) := by
      rintro ⟨-, -, rfl⟩
      exact hcc rfl
    rw [or_iff_right hnew]
    by_cases hpar : c'.index = parent.index
    · -- the parent listens, so it is nobody's connected child
      have hsp := status_adopt_parent (σ := σ) hne peer
      have hafter : ((σ.adopt parent c peer).status parent.index).phase ≠ .connected := by
        rw [hsp]
        dsimp only
        rw [hp]
        simp
      refine iff_of_false ?_ ?_
      · exact fun hch => absurd hpar (hch.index_ne hafter)
      · exact fun hch => absurd hpar (hch.index_ne (by rw [hp]; simp))
    · exact childFor_congr (status_adopt_of_ne hpar hcc peer)

/-- A listening connection that gets a child gets its entry too. -/
theorem OneEach.adopt (hσ : σ.OneEach) {children : List (Peer × Handle)} (hl : σ.Live parent)
    (hp : (σ.status parent.index).phase = .listen)
    (hkin : (σ.status parent.index).kin = .server children) (hn : children.lookup peer = none)
    (hc : σ.Live c) (hclosed : (σ.status c.index).phase = .closed) :
    (σ.adopt parent c peer).OneEach := by
  have hne : parent.index ≠ c.index := by
    intro heq
    rw [heq, hclosed] at hp
    cases hp
  have hsc := status_adopt_child (σ := σ) hne peer
  have hsp := status_adopt_parent (σ := σ) hne peer
  intro k peer' c' hk
  rw [childFor_adopt_iff hp hc hclosed]
  have hkc : k.index ≠ c.index := hk.index_ne (by rw [hsc]; simp [Status.fostered])
  by_cases hkp : k.index = parent.index
  · have hkl : σ.Live k := by
      obtain ⟨hg, -⟩ := hk.live
      rw [hkp, hsp] at hg
      refine ⟨hkp ▸ hg, ?_⟩
      rw [hkp, hp]
      simp
    obtain rfl : k = parent := hkl.eq_of_index_eq hl hkp
    have hold := hσ k peer' c' ⟨hl, hp⟩
    rw [Status.child?, hkin] at hold
    rw [hsp, Status.child?]
    dsimp only
    rw [hkin, Kin.adopt, Kin.children, List.lookup_cons]
    by_cases hpeer : peer' = peer
    · subst hpeer
      rw [beq_self_eq_true]
      constructor
      · intro he
        exact .inl ⟨rfl, rfl, (Option.some.inj he).symm⟩
      · rintro (⟨-, -, rfl⟩ | hch)
        · rfl
        · -- the peer had no child
          have hentry := hold.2 hch
          rw [Kin.children, hn] at hentry
          cases hentry
    · rw [beq_eq_false_iff_ne.2 hpeer]
      refine hold.trans ⟨.inr, ?_⟩
      rintro (⟨-, hsame, -⟩ | hch)
      · exact absurd hsame hpeer
      · exact hch
  · have hsk := status_adopt_of_ne (σ := σ) hkp hkc peer
    rw [hsk]
    refine (hσ k peer' c' ((listening_congr hsk).1 hk)).trans ⟨.inr, ?_⟩
    rintro (⟨rfl, -, -⟩ | hch)
    · exact absurd rfl hkp
    · exact hch

/-! ## Endings -/

/-- From before to after any number of endings. -/
structure Recedes (σ τ : Census) : Prop where
  /-- who is there after was there before -/
  live : ∀ h, τ.Live h → σ.Live h
  /-- who is active after has not changed -/
  active : ∀ i, (τ.status i).phase.isActive = true → (τ.status i).Alike (σ.status i)
  /-- entries only go -/
  entry : ∀ h peer c, τ.Live h → (τ.status h.index).child? peer = some c →
    (σ.status h.index).child? peer = some c
  /-- an entry that went was taken by one of its peer that ended -/
  taken : ∀ h peer c, τ.Live h → (σ.status h.index).child? peer = some c →
    (τ.status h.index).child? peer = none →
    ∃ i, (σ.status i).phase.isActive = true ∧ (σ.status i).kin.parent? = some h ∧
      (σ.status i).peer = peer ∧ (τ.status i).phase.isActive = false
  /-- who ends takes the entry -/
  takes : ∀ h i, τ.Live h → (σ.status i).phase.isActive = true →
    (σ.status i).kin.parent? = some h → (τ.status i).phase.isActive = false →
    (τ.status h.index).child? (σ.status i).peer = none

theorem Recedes.refl (σ : Census) : σ.Recedes σ where
  live := fun _ hl => hl
  active := fun _ _ => .refl _
  entry := fun _ _ _ _ hc => hc
  taken := by
    intro h peer c _ hc hn
    rw [hc] at hn
    cases hn
  takes := by
    intro h i _ ha _ hn
    rw [ha] at hn
    cases hn

theorem Recedes.trans (h₁ : σ.Recedes ρ) (h₂ : ρ.Recedes τ) : σ.Recedes τ where
  live := fun h hl => h₁.live h (h₂.live h hl)
  active := by
    intro i ha
    have hτ := h₂.active i ha
    have hρ := h₁.active i (by rw [← hτ.phase]; exact ha)
    exact ⟨hτ.generation.trans hρ.generation, hτ.phase.trans hρ.phase, hτ.parent.trans hρ.parent,
      hτ.options.trans hρ.options, hτ.registered.trans hρ.registered⟩
  entry := fun h peer c hl hc => h₁.entry h peer c (h₂.live h hl) (h₂.entry h peer c hl hc)
  taken := by
    intro h peer c hl hc hn
    cases hmid : (ρ.status h.index).child? peer with
    | none =>
      -- it was gone half-way
      obtain ⟨i, ha, hpar, hpeer, hend⟩ := h₁.taken h peer c (h₂.live h hl) hc hmid
      refine ⟨i, ha, hpar, hpeer, ?_⟩
      by_contra hact
      rw [Bool.not_eq_false] at hact
      rw [(h₂.active i hact).phase, hend] at hact
      cases hact
    | some c' =>
      -- it went in the second half, and who took it was active in the first
      obtain ⟨i, ha, hpar, hpeer, hend⟩ := h₂.taken h peer c' hl hmid hn
      have halike := h₁.active i ha
      exact ⟨i, halike.phase ▸ ha, halike.parent ▸ hpar, halike.peer ▸ hpeer, hend⟩
  takes := by
    intro h i hl ha hpar hend
    cases hmid : (ρ.status i).phase.isActive with
    | false =>
      -- it ended in the first half, and the entry does not come back
      have hn := h₁.takes h i (h₂.live h hl) ha hpar hmid
      cases hc : (τ.status h.index).child? (σ.status i).peer with
      | none => rfl
      | some c =>
        rw [h₂.entry h _ c hl hc] at hn
        cases hn
    | true =>
      have halike := h₁.active i hmid
      rw [← halike.peer]
      exact h₂.takes h i hl hmid (halike.parent.trans hpar) hend

/-- Taking a connection from its parent takes at most its own entry there. -/
theorem child?_disown_cases (σ : Census) (h : Handle) (i : Nat) (peer : Peer) :
    ((σ.disown h).status i).child? peer = (σ.status i).child? peer ∨
    ∃ parent, (σ.status h.index).kin.parent? = some parent ∧ σ.Live parent ∧
      i = parent.index ∧ peer = (σ.status h.index).peer ∧
      ((σ.disown h).status i).child? peer = none := by
  unfold disown
  cases hpar : (σ.status h.index).kin.parent? with
  | none => exact .inl rfl
  | some parent =>
    dsimp only
    rw [status_forget]
    by_cases hp : σ.Live parent ∧ i = parent.index
    · rw [if_pos hp, Status.child?, Kin.lookup_forget]
      by_cases hpeer : peer = (σ.status h.index).peer
      · rw [if_pos hpeer]
        exact .inr ⟨parent, rfl, hp.1, hp.2, hpeer, rfl⟩
      · rw [if_neg hpeer]
        exact .inl rfl
    · rw [if_neg hp]
      exact .inl rfl

theorem child?_disown_of_parent (hpar : (σ.status h.index).kin.parent? = some parent)
    (hl : σ.Live parent) :
    ((σ.disown h).status parent.index).child? (σ.status h.index).peer = none := by
  rw [disown, hpar]
  dsimp only
  rw [status_forget, if_pos ⟨hl, rfl⟩, Status.child?, Kin.lookup_forget, if_pos rfl]

theorem child?_shut (h : Handle) (i : Nat) (peer : Peer) :
    ((σ.shut h).status i).child? peer = ((σ.disown h).status i).child? peer := by
  by_cases hi : i = h.index
  · rw [hi, status_shut_self, status_detach]
    rfl
  · rw [status_shut_of_ne hi, status_detach]

theorem live_of_live_shut {k : Handle} (hl : σ.Live h) (hk : (σ.shut h).Live k) : σ.Live k := by
  by_cases hi : k.index = h.index
  · obtain ⟨hg, -⟩ := hk
    rw [hi, status_shut_self] at hg
    refine ⟨?_, ?_⟩
    · rw [hi, ← (alike_detach h h.index).generation]
      exact hg
    · rw [hi]
      exact hl.2
  · rw [Live, (alike_shut hi).generation, (alike_shut hi).phase] at hk
    exact hk

theorem recedes_shut (hl : σ.Live h) (ha : (σ.status h.index).phase.isActive = true) :
    σ.Recedes (σ.shut h) where
  live := fun k hk => live_of_live_shut hl hk
  active := by
    intro i hact
    by_cases hi : i = h.index
    · rw [hi, phase_shut_self] at hact
      cases hact
    · exact alike_shut hi
  entry := by
    intro k peer c _ hc
    rw [child?_shut] at hc
    obtain he | ⟨-, -, -, -, -, hn⟩ := child?_disown_cases σ h k.index peer
    · rw [← he, hc]
    · rw [hn] at hc
      cases hc
  taken := by
    intro k peer c hk hc hn
    rw [child?_shut] at hn
    obtain he | ⟨parent, hpar, hlp, hidx, hpeer, -⟩ := child?_disown_cases σ h k.index peer
    · rw [he, hc] at hn
      cases hn
    · obtain rfl : k = parent := (live_of_live_shut hl hk).eq_of_index_eq hlp hidx
      exact ⟨h.index, ha, hpar, hpeer.symm, by rw [phase_shut_self]; rfl⟩
  takes := by
    intro k i hk hact hpar hend
    -- nobody else ends
    obtain rfl : i = h.index := by
      by_contra hi
      rw [(alike_shut hi).phase, hact] at hend
      cases hend
    rw [child?_shut]
    exact child?_disown_of_parent hpar (live_of_live_shut hl hk)

theorem recedes_vacate (hc : (σ.status h.index).phase = .closed) :
    σ.Recedes (σ.alter h.index Status.vacated) := by
  -- who is live afterwards is in another slot
  have hlive : ∀ k : Handle, (σ.alter h.index Status.vacated).Live k → k.index ≠ h.index := by
    intro k hk hi
    obtain ⟨-, hf⟩ := hk
    rw [hi, status_alter_self] at hf
    exact hf rfl
  refine ⟨?_, ?_, ?_, ?_, ?_⟩
  · intro k hk
    rw [Live, status_alter_of_ne (hlive k hk)] at hk
    exact hk
  · intro i ha
    by_cases hi : i = h.index
    · rw [hi, status_alter_self] at ha
      cases ha
    · rw [status_alter_of_ne hi]
      exact .refl _
  · intro k peer c hk hch
    rw [status_alter_of_ne (hlive k hk)] at hch
    exact hch
  · intro k peer c hk hch hn
    rw [status_alter_of_ne (hlive k hk), hch] at hn
    cases hn
  · intro k i hk ha hpar hend
    by_cases hi : i = h.index
    · rw [hi, hc] at ha
      cases ha
    · rw [status_alter_of_ne hi, ha] at hend
      cases hend

theorem Endings.recedes (he : Endings σ τ) : σ.Recedes τ := by
  induction he with
  | refl => exact .refl _
  | tail _ hstep ih =>
    refine ih.trans ?_
    cases hstep with
    | shut live active => exact recedes_shut live active
    | vacate live closed => exact recedes_vacate closed

theorem Recedes.childFor (hr : σ.Recedes τ) (hc : τ.ChildFor parent peer c) :
    σ.ChildFor parent peer c := by
  have ha := hr.active c.index (by rw [hc.connected]; rfl)
  exact ⟨hr.live c hc.live, ha.phase ▸ hc.connected, ha.parent ▸ hc.parent, ha.peer ▸ hc.peer⟩

theorem Recedes.listening (hr : σ.Recedes τ) (hl : τ.Listening h) : σ.Listening h := by
  have ha := hr.active h.index (by rw [hl.listens]; rfl)
  exact ⟨hr.live h hl.live, ha.phase ▸ hl.listens⟩

/-- A connected child loses its entry, because a former child of the same parent and the
same peer ended, which was only bound. -/
structure Orphan (σ τ : Census) (i : Nat) (parent : Handle) (peer : Peer) (c : Handle) : Prop where
  bound : (σ.status i).phase = .bound
  former : (σ.status i).kin.parent? = some parent
  towards : (σ.status i).peer = peer
  ended : (τ.status i).phase.isActive = false
  listened : σ.Listening parent
  listens : τ.Listening parent
  entry : (σ.status parent.index).child? peer = some c
  child : τ.ChildFor parent peer c

/-- Endings keep the agreement exactly if they leave no orphan. -/
theorem Recedes.oneEach (hr : σ.Recedes τ) (hfam : σ.Family) (hfam' : τ.Family)
    (hσ : σ.OneEach) : τ.OneEach ↔ ∀ i parent peer c, ¬ Orphan σ τ i parent peer c := by
  constructor
  · intro hτ i parent peer c o
    -- the one who ended took the entry, but the child still has one
    have hn := hr.takes parent i o.listens.live (by rw [o.bound]; rfl) o.former o.ended
    rw [o.towards, (hτ parent peer c o.listens).2 o.child] at hn
    cases hn
  · intro hno h peer c hl
    constructor
    · exact fun hc => hfam'.entry_of_live hl.live hc
    · intro hchild
      have hl' := hr.listening hl
      have hold := (hσ h peer c hl').2 (hr.childFor hchild)
      cases hnew : (τ.status h.index).child? peer with
      | some c' =>
        have hc' := hr.entry h peer c' hl.live hnew
        rw [hold] at hc'
        exact hc'.symm
      | none =>
        obtain ⟨i, ha, hpar, hpeer, hend⟩ := hr.taken h peer c hl.live hold hnew
        -- it cannot have listened, nor been connected: then it would be `c` itself
        have hb : (σ.status i).phase = .bound := by
          cases hp : (σ.status i).phase with
          | free => rw [hp] at ha; cases ha
          | closed => rw [hp] at ha; cases ha
          | bound => rfl
          | listen =>
            rw [hfam.listener i hp] at hpar
            cases hpar
          | connected =>
            have hi : σ.ChildFor h peer ⟨i, (σ.status i).generation⟩ :=
              ⟨⟨rfl, by rw [hp]; simp⟩, hp, hpar, hpeer⟩
            have hci := (hσ h peer _ hl').2 hi
            rw [hold] at hci
            obtain rfl := Option.some.inj hci
            rw [hchild.connected] at hend
            cases hend
        exact absurd ⟨hb, hpar, hpeer, hend, hl', hl, hold, hchild⟩ (hno i h peer c)

/-! ## Offered children -/

theorem Offer.family (o : σ.Offer parent c peer) (hσ : σ.Family) :
    (σ.offered parent c peer).Family := (hσ.opening o.claim).opening o.adopt

theorem Offer.oneEach (o : σ.Offer parent c peer) (hσ : σ.OneEach) :
    (σ.offered parent c peer).OneEach := by
  obtain ⟨children, hk, hn⟩ := o.server
  have hclaimed : (σ.alter c.index Status.claimed).OneEach :=
    (oneEach_set_apart (by rw [o.free]; simp) (by simp [Status.claimed])).2 hσ
  have hparent := status_alter_of_ne (σ := σ) o.ne Status.claimed
  refine hclaimed.adopt ?_ ?_ ?_ hn ?_ ?_
  · rw [Live, hparent]
    exact o.live
  · rw [hparent]
    exact o.listens
  · rw [hparent]
    exact hk
  · rw [Live, status_alter_self]
    exact ⟨o.handle, by simp [Status.claimed]⟩
  · rw [status_alter_self]
    rfl

/-- An offered child that finds no room leaves everything as it was. -/
theorem Offer.oneEach_rejected (o : σ.Offer parent c peer) (hfam : σ.Family) (hσ : σ.OneEach) :
    (((σ.offered parent c peer).shut c).alter c.index Status.vacated).OneEach := by
  have hf := o.family hfam
  have hf' : (((σ.offered parent c peer).shut c).alter c.index Status.vacated).Family :=
    Endings.invariant (fun _ _ he hP => hP.ending he) o.endings hf
  refine (o.endings.recedes.oneEach hf hf' (o.oneEach hσ)).2 ?_
  -- the one that ends is the new child, and that was connected, not bound
  rintro i k peer' c' ⟨hb, -, -, hend, -, -, -, -⟩
  by_cases hi : i = c.index
  · rw [hi, o.connected_child] at hb
    cases hb
  · rw [status_alter_of_ne hi, (alike_shut hi).phase, hb] at hend
    cases hend

end Census

end Netstack
