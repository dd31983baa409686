import Netstack.Proofs.Pool.Backlogs
import Netstack.Proofs.Pool.Ports

/-
What the end of some connections leaves to the others.

Closing a connection reaches beyond its own slot in two ways: its parent forgets a peer, and it
goes off its port. Another slot is at most without some entries for children afterwards, which
is `Slot.Spared`, and the port lists are those of before without the connection. Freeing is a
series of closings, each of them followed by giving the slot back, so what is true of one is
true of all: `Pool.Reaps` says so for the whole recursion. It says further that nobody goes who
is not among those that the recursion can come to, from the connections to be freed through the
backlogs of those that go.
-/

set_option autoImplicit false

namespace Netstack

/-! ## Slots that are spared -/

namespace Role

variable {r : Role}

/-- A server with its entries for some peers only. -/
def keeping (keep : Peer → Bool) : Role → Role
  | server backlog children => server backlog (children.filter fun c => keep c.1)
  | role => role

theorem keeping_true (r : Role) : r.keeping (fun _ => true) = r := by
  cases r with
  | client => rfl
  | server backlog children =>
    exact congrArg (server backlog) (List.filter_eq_self.2 fun _ _ => rfl)
  | child parent => rfl

theorem keeping_keeping (r : Role) (keep keep' : Peer → Bool) :
    (r.keeping keep).keeping keep' = r.keeping fun peer => keep' peer && keep peer := by
  cases r with
  | client => rfl
  | server backlog children => exact congrArg (server backlog) List.filter_filter
  | child parent => rfl

theorem forget_eq_keeping (r : Role) (peer : Peer) :
    r.forget peer = r.keeping fun peer' => peer' ≠ peer := by
  cases r <;> rfl

theorem pending_of_backlog?_eq {r' : Role} (h : r'.backlog? = r.backlog?) :
    r'.pending = r.pending := by
  cases r <;> cases r' <;> cases h <;> rfl

theorem pending_keeping (r : Role) (keep : Peer → Bool) : (r.keeping keep).pending = r.pending := by
  cases r <;> rfl

end Role

namespace Slot

variable {s t u : Slot}

/-- A slot is as it was, but that a server may be without entries for children that it had. -/
structure Spared (s t : Slot) : Prop where
  generation : t.generation = s.generation
  phase : t.phase = s.phase
  options : t.options = s.options
  registered : t.registered = s.registered
  opened : t.opened = s.opened
  rxQueue : t.rxQueue = s.rxQueue
  events : t.events = s.events
  role : ∃ keep, t.role = s.role.keeping keep

theorem Spared.refl (s : Slot) : s.Spared s :=
  ⟨rfl, rfl, rfl, rfl, rfl, rfl, rfl, _, (s.role.keeping_true).symm⟩

theorem Spared.trans (h₁ : s.Spared t) (h₂ : t.Spared u) : s.Spared u := by
  obtain ⟨keep₁, hr₁⟩ := h₁.role
  obtain ⟨keep₂, hr₂⟩ := h₂.role
  refine ⟨h₂.generation.trans h₁.generation, h₂.phase.trans h₁.phase,
    h₂.options.trans h₁.options, h₂.registered.trans h₁.registered, h₂.opened.trans h₁.opened,
    h₂.rxQueue.trans h₁.rxQueue, h₂.events.trans h₁.events,
    fun peer => keep₂ peer && keep₁ peer, ?_⟩
  rw [hr₂, hr₁, Role.keeping_keeping]

theorem spared_forget (s : Slot) (peer : Peer) :
    s.Spared { s with role := s.role.forget peer } :=
  ⟨rfl, rfl, rfl, rfl, rfl, rfl, rfl, _, s.role.forget_eq_keeping peer⟩

/-- Who is spared keeps the children in its backlog. -/
theorem Spared.pending (h : s.Spared t) : t.role.pending = s.role.pending := by
  obtain ⟨keep, hr⟩ := h.role
  rw [hr, Role.pending_keeping]

end Slot

namespace Pool

variable {p q r : Pool} {h k : Handle} {s t : Slot} {i : Nat}

theorem slot?_of_spared (hs : (p.slotAt k.index).Spared (q.slotAt k.index))
    (ht : p.slot? k = some t) : ∃ u, q.slot? k = some u ∧ t.Spared u := by
  obtain ⟨hat, hg, hp⟩ := slot?_eq_some_iff_slotAt.1 ht
  rw [hat] at hs
  refine ⟨q.slotAt k.index, slot?_eq_some_iff_slotAt.2 ⟨rfl, ?_, ?_⟩, hs⟩
  · rw [hs.generation, hg]
  · rw [hs.phase]
    exact hp

theorem spared_forgetChild (p : Pool) (parent : Handle) (peer : Peer) (i : Nat) :
    (p.slotAt i).Spared ((p.forgetChild parent peer).slotAt i) := by
  unfold forgetChild
  split
  · obtain ⟨-, -, hset⟩ | hsame := slotAt_modify_cases p parent.index i
      fun s => { s with role := s.role.forget peer }
    · rw [hset]
      exact Slot.spared_forget _ peer
    · rw [hsame]
      exact .refl _
  · exact .refl _

theorem slotAt_unregister (p : Pool) (port : UInt8) (h : Handle) (i : Nat) :
    (p.unregister port h).slotAt i = p.slotAt i := by
  unfold unregister
  split <;> rfl

theorem spared_detach (p : Pool) (h : Handle) (s : Slot) (i : Nat) :
    (p.slotAt i).Spared ((p.detach h s).slotAt i) := by
  -- the port table is no part of the slots
  have hport : ∀ q : Pool, (p.slotAt i).Spared (q.slotAt i) →
      (p.slotAt i).Spared
        ((if s.registered then q.unregister s.options.lport h else q).slotAt i) := by
    intro q hq
    split
    · rw [slotAt_unregister]
      exact hq
    · exact hq
  unfold detach
  cases s.role.parent? with
  | none => exact hport p (.refl _)
  | some parent => exact hport _ (spared_forgetChild p parent s.peer i)

/-- Closing a connection spares all other slots. -/
theorem spared_close (hi : i ≠ h.index) : (p.slotAt i).Spared ((p.close h).1.slotAt i) := by
  cases hs : p.slot? h with
  | none =>
    rw [close, hs]
    exact .refl _
  | some s =>
    cases ha : s.phase.isActive with
    | false =>
      rw [close, hs]
      dsimp only
      rw [ha]
      exact .refl _
    | true =>
      rw [close_of_active hs ha, slotAt_emit, slotAt_modify_of_ne hi.symm]
      exact spared_detach p h s i

end Pool

/-! ## Port lists without the connection -/

namespace PortEntry

/-- Where a connection is in a list once, taking it out leaves all others. -/
theorem filter_of_extract {conn : Handle} {xs rest : List PortMember} {m : PortMember}
    (h : extract conn xs = some (m, rest)) (honce : (xs.map PortMember.conn).count conn = 1) :
    rest = xs.filter fun m => m.conn ≠ conn := by
  induction xs generalizing rest with
  | nil => cases h
  | cons x xs ih =>
    rw [List.map_cons] at honce
    unfold extract at h
    split at h
    · next hx =>
      obtain ⟨rfl, rfl⟩ := Prod.mk.inj (Option.some.inj h)
      rw [hx, List.count_cons_self] at honce
      have hnone : (xs.map PortMember.conn).count conn = 0 := Nat.succ.inj honce
      rw [List.filter_cons_of_neg (by simp [hx]), eq_comm, List.filter_eq_self]
      intro m' hm'
      refine decide_eq_true fun hc => List.count_eq_zero.1 hnone ?_
      exact hc ▸ List.mem_map_of_mem hm'
    · next hx =>
      obtain ⟨⟨m', rest'⟩, he, heq⟩ := Option.map_eq_some_iff.1 h
      obtain ⟨rfl, rfl⟩ := Prod.mk.inj heq
      rw [List.count_cons_of_ne hx] at honce
      rw [List.filter_cons_of_pos (by simp [hx]), ih he honce]

end PortEntry

namespace Census

variable {σ : Census} {h : Handle} {j : Fin Port.slotCount}

theorem ports_disown (σ : Census) (h : Handle) : (σ.disown h).ports = σ.ports := by
  unfold disown forget
  split
  · split <;> rfl
  · rfl

/-- On any port but its own a connection is not. -/
theorem Filed.filter_eq_self (hσ : σ.Filed)
    (hj : (σ.status h.index).registered = false ∨
      (σ.status h.index).options.lport.toNat ≠ j.val) :
    (σ.ports.entry j).members.filter (fun m => m.conn ≠ h) = (σ.ports.entry j).members := by
  rw [List.filter_eq_self]
  intro m hm
  refine decide_eq_true fun hc => ?_
  have hfiles := hσ.member j m hm
  rw [hc] at hfiles
  obtain hr | hport := hj
  · have hreg := hfiles.registered
    rw [hr] at hreg
    cases hreg
  · exact hport hfiles.lport

/-- Taking a connection off its port leaves the others on every port in their order. -/
theorem Filed.members_shut (hσ : σ.Filed) (hl : σ.Live h) (j : Fin Port.slotCount) :
    ((σ.shut h).ports.entry j).members =
      (σ.ports.entry j).members.filter fun m => m.conn ≠ h := by
  change ((σ.detach h).ports.entry j).members = _
  unfold detach
  cases hr : (σ.status h.index).registered with
  | false =>
    rw [if_neg (by simp), ports_disown, hσ.filter_eq_self (.inl hr)]
  | true =>
    obtain ⟨j₀, hj₀, honce⟩ := hσ.once h.index hr
    rw [hl.1] at honce
    rw [if_pos rfl, unregister, ports_disown, PortTable.remove, PortTable.index_eq_ok_iff.2 hj₀]
    dsimp only [bind, Except.bind]
    cases he : PortEntry.extract h (σ.ports.entry j₀).members with
    | none =>
      -- it is on its port
      obtain ⟨m, hm, hc⟩ := PortTable.occurrences_pos_iff.1 (honce ▸ Nat.one_pos)
      exact absurd hc (PortEntry.extract_eq_none_iff.1 he m hm)
    | some found =>
      obtain ⟨m, rest⟩ := found
      dsimp only [pure, Except.pure]
      rw [ports_withPorts]
      by_cases hj : j₀ = j
      · subst hj
        rw [PortTable.entry_setEntry]
        exact PortEntry.filter_of_extract he honce
      · rw [PortTable.entry_setEntry_of_ne hj, hσ.filter_eq_self (.inr ?_)]
        rw [hj₀]
        exact fun heq => hj (Fin.ext heq)

end Census

namespace Pool

variable {p q r : Pool} {h k : Handle} {j : Fin Port.slotCount}

/-- Closing takes a connection off its port and leaves all others there. -/
theorem members_close (hp : p.census.Filed) (hl : p.census.Live h) (j : Fin Port.slotCount) :
    ((p.close h).1.ports.entry j).members =
      (p.ports.entry j).members.filter fun m => m.conn ≠ h := by
  obtain ⟨hn, -⟩ | ⟨-, hclosed, he⟩ | ⟨-, -, -, hc⟩ := close_cases p h
  · exact absurd hl hn
  · have hr := hp.not_registered (i := h.index) (by rw [hclosed]; simp) (by rw [hclosed]; simp)
    rw [he]
    exact (hp.filter_eq_self (.inl hr)).symm
  · have hshut := hp.members_shut hl j
    rw [← hc] at hshut
    exact hshut

end Pool

/-! ## Freeing -/

namespace Pool

variable {p q r : Pool} {h c : Handle} {roots roots' : List Handle} {X : Handle → Prop}

/-- Whoever of these connections has others in its backlog has such of them there. -/
def Follows (p : Pool) (X : Handle → Prop) : Prop :=
  ∀ k, X k → p.census.Live k → ∀ c ∈ p.backlogOf k, p.census.Live c → X c

/-- What freeing some connections does to a pool. Who is left was there before and is spared,
the port lists are those of before without the connections that went, and nobody went but the
connections and those that follow from them. -/
structure Reaps (p : Pool) (roots : List Handle) (q : Pool) : Prop where
  spared : ∀ i, (q.slotAt i).phase ≠ .free → (p.slotAt i).Spared (q.slotAt i)
  filed : p.census.Filed → q.census.Filed ∧ ∀ j, (q.ports.entry j).members =
    (p.ports.entry j).members.filter fun m => q.census.Live m.conn
  confined : ∀ X, p.Follows X → (∀ k ∈ roots, p.census.Live k → X k) →
    ∀ c, p.census.Live c → ¬ q.census.Live c → X c

theorem live_iff_of_spared (hs : (p.slotAt c.index).Spared (q.slotAt c.index)) :
    q.census.Live c ↔ p.census.Live c := by
  show (q.slotAt c.index).generation = c.generation ∧ (q.slotAt c.index).phase ≠ .free ↔
    (p.slotAt c.index).generation = c.generation ∧ (p.slotAt c.index).phase ≠ .free
  rw [hs.generation, hs.phase]

theorem live_of_member (hp : p.census.Filed) {j : Fin Port.slotCount} {m : PortMember}
    (hm : m ∈ (p.ports.entry j).members) : p.census.Live m.conn := by
  have hfiles := hp.member j m hm
  refine ⟨hfiles.generation, ?_⟩
  obtain ha | ha := hp.active _ hfiles.registered <;> rw [ha] <;> simp

namespace Reaps

theorem live (hr : p.Reaps roots q) (hl : q.census.Live c) : p.census.Live c :=
  (live_iff_of_spared (hr.spared c.index hl.2)).1 hl

theorem refl (p : Pool) (roots : List Handle) : p.Reaps roots p := by
  refine ⟨fun _ _ => .refl _, fun hp => ⟨hp, fun j => ?_⟩, fun _ _ _ c hl hn => absurd hl hn⟩
  rw [eq_comm, List.filter_eq_self]
  exact fun m hm => decide_eq_true (live_of_member hp hm)

/-- What follows before follows also from those who are left. -/
theorem follows (hr : p.Reaps roots q) (hX : p.Follows X) : q.Follows X := by
  intro k hk hl c hc hcl
  rw [backlogOf, (hr.spared k.index hl.2).pending] at hc
  exact hX k hk (hr.live hl) c hc (hr.live hcl)

theorem trans (h₁ : p.Reaps roots q) (h₂ : q.Reaps roots' r) : p.Reaps (roots ++ roots') r := by
  refine ⟨fun i hi => ?_, fun hp => ?_, fun X hX hroots c hl hn => ?_⟩
  · have hs := h₂.spared i hi
    exact (h₁.spared i (hs.phase ▸ hi)).trans hs
  · obtain ⟨hq, hmem₁⟩ := h₁.filed hp
    obtain ⟨hr, hmem₂⟩ := h₂.filed hq
    refine ⟨hr, fun j => ?_⟩
    rw [hmem₂, hmem₁, List.filter_filter]
    refine List.filter_congr fun m _ => ?_
    -- who is live at the end was live half-way
    by_cases hl : r.census.Live m.conn
    · rw [decide_eq_true hl, decide_eq_true (h₂.live hl), Bool.and_self]
    · rw [decide_eq_false hl, Bool.false_and]
  · by_cases hq : q.census.Live c
    · exact h₂.confined X (h₁.follows hX)
        (fun k hk hkl => hroots k (List.mem_append_right _ hk) (h₁.live hkl)) c hq hn
    · exact h₁.confined X hX (fun k hk => hroots k (List.mem_append_left _ hk)) c hl hq

/-- Roots that follow from the others need not be mentioned. -/
theorem of_append (h : p.Reaps (roots ++ roots') q)
    (hf : ∀ X, p.Follows X → (∀ k ∈ roots, p.census.Live k → X k) →
      ∀ k ∈ roots', p.census.Live k → X k) : p.Reaps roots q := by
  refine ⟨h.spared, h.filed, fun X hX hroots => h.confined X hX fun k hk => ?_⟩
  obtain hk | hk := List.mem_append.1 hk
  · exact hroots k hk
  · exact hf X hX hroots k hk

end Reaps

theorem reaps_emit (p : Pool) (event : ConnEvent) : p.Reaps [] (p.emit event) :=
  ⟨(Reaps.refl p []).spared, (Reaps.refl p []).filed, (Reaps.refl p []).confined⟩

theorem pending_close (p : Pool) (h : Handle) (i : Nat) :
    ((p.close h).1.slotAt i).role.pending = (p.slotAt i).role.pending :=
  Role.pending_of_backlog?_eq ((sameBacklogs_close h).backlog_eq i)

/-- Closing a connection and giving its slot back. -/
theorem reaps_giveBack (hl : p.census.Live h) :
    p.Reaps [h] ((p.close h).1.modify h.index Slot.vacated) := by
  have hclosed := closed_of_close_eq_ok (close_eq_ok_of_live hl)
  obtain ⟨s, hs⟩ := live_iff.1 hclosed.2.1
  have hfree : (((p.close h).1.modify h.index Slot.vacated).slotAt h.index).phase = .free := by
    rw [slotAt_modify (index_lt_of_slot? hs)]
    rfl
  have hspared : ∀ i, i ≠ h.index →
      (p.slotAt i).Spared (((p.close h).1.modify h.index Slot.vacated).slotAt i) := by
    intro i hi
    rw [slotAt_modify_of_ne hi.symm]
    exact spared_close hi
  refine ⟨fun i hi => hspared i ?_, fun hp => ⟨?_, fun j => ?_⟩, fun X _ hroots c hc hn => ?_⟩
  · rintro rfl
    exact hi hfree
  · rw [census_vacate hclosed.2.1]
    exact ((endings_close p h).invariant (fun _ _ he hσ => hσ.ending he) hp).ending
      (.vacate hclosed.2.1 hclosed.2.2)
  · rw [ports_modify, members_close hp hl]
    refine List.filter_congr fun m hm => ?_
    have hml := live_of_member hp hm
    by_cases hmh : m.conn = h
    · rw [hmh, decide_eq_false (fun h => h rfl), decide_eq_false fun hlive => hlive.2 hfree]
    · have hi : m.conn.index ≠ h.index := fun heq => hmh (hml.eq_of_index_eq hl heq)
      rw [decide_eq_true hmh, decide_eq_true ((live_iff_of_spared (hspared _ hi)).2 hml)]
  · by_cases hi : c.index = h.index
    · rw [hc.eq_of_index_eq hl hi]
      exact hroots h List.mem_cons_self hl
    · exact absurd ((live_iff_of_spared (hspared _ hi)).2 hc) hn

theorem reaps_foldl {f : Pool → Handle → Pool} (hf : ∀ (q : Pool) c, q.Reaps [c] (f q c))
    (roots : List Handle) (p : Pool) : p.Reaps roots (roots.foldl f p) := by
  induction roots generalizing p with
  | nil => exact .refl p []
  | cons c roots ih => exact (hf p c).trans (ih _)

/-- The recursion of `free` goes from a connection to the children in its backlog. -/
theorem reaps_freeWithin (depth : Nat) (p : Pool) (h : Handle) :
    p.Reaps [h] (freeWithin depth p h).1 := by
  induction depth generalizing p h with
  | zero => exact .refl p [h]
  | succ depth ih =>
    by_cases hl : p.census.Live h
    · have hclose : p.close h = ((p.close h).1, .ok ()) := Prod.ext rfl (close_eq_ok_of_live hl)
      have hrest := reaps_foldl (fun q c => ih q c)
        (((p.close h).1.slotAt h.index).role.pending) ((p.close h).1.modify h.index Slot.vacated)
      rw [freeWithin, hclose]
      dsimp only
      refine Reaps.of_append ((reaps_giveBack hl).trans (hrest.trans (reaps_emit _ _))) ?_
      intro X hX hroots k hk hkl
      rw [List.append_nil, pending_close] at hk
      exact hX h (hroots h List.mem_cons_self hl) hl k hk hkl
    · have hfail : p.close h = (p, .error .staleHandle) := by
        rw [close, not_live_iff.1 hl]
      rw [freeWithin, hfail]
      exact .refl p [h]

theorem reaps_free (p : Pool) (h : Handle) : p.Reaps [h] (p.free h).1 := reaps_freeWithin _ p h

end Pool

end Netstack
