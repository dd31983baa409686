import Mathlib.Logic.Relation
import Netstack.Proofs.Pool.Census

/-
What the operations of a pool do to its census.

There are nine moves, each with the condition under which it is made. Seven begin or
change something and are *openings*; closing a connection and giving its slot back take
something away and are *endings*. Every operation makes some openings and then some
endings: most make one opening or none, an offered child that the backlog has no room for
makes two of each, and `free` makes as many endings as its recursion reaches. An invariant
of the census is proved once for each move, and then holds after every operation.
-/

set_option autoImplicit false

namespace Netstack

namespace Status

/-- Of another priority. -/
def ranked (priority : UInt8) (s : Status) : Status :=
  { s with options := { s.options with priority := priority } }

/-- With other timeouts. -/
def retimed (recv send : Timeout) (s : Status) : Status :=
  { s with options := { s.options with recvTimeout := recv, sendTimeout := send } }

/-- The same but for the children, of which some may be gone. -/
structure Alike (s t : Status) : Prop where
  generation : s.generation = t.generation
  phase : s.phase = t.phase
  parent : s.kin.parent? = t.kin.parent?
  options : s.options = t.options
  registered : s.registered = t.registered

theorem Alike.refl (s : Status) : s.Alike s := ⟨rfl, rfl, rfl, rfl, rfl⟩

theorem Alike.trans {s t u : Status} (h₁ : s.Alike t) (h₂ : t.Alike u) : s.Alike u :=
  ⟨h₁.generation.trans h₂.generation, h₁.phase.trans h₂.phase, h₁.parent.trans h₂.parent,
    h₁.options.trans h₂.options, h₁.registered.trans h₂.registered⟩

theorem Alike.peer {s t : Status} (h : s.Alike t) : s.peer = t.peer := by
  rw [Status.peer, Status.peer, h.options]

end Status

namespace Census

variable {σ τ : Census}

/-- A connection gets another priority, and another place on its port. -/
def rank (σ : Census) (h : Handle) (priority : UInt8) : Census :=
  let τ := σ.alter h.index (Status.ranked priority)
  if (σ.status h.index).registered then
    match σ.ports.reprioritize (σ.status h.index).options.lport h priority with
    | .ok (t, _) => τ.withPorts t
    | .error _ => τ
  else τ

/-- The moves that begin or change something. -/
inductive Opening : Census → Census → Prop
  | claim {σ : Census} {i : Nat} (size : i < σ.size) (free : (σ.status i).phase = .free) :
      Opening σ (σ.alter i Status.claimed)
  | attach {σ : Census} {h : Handle} {port lport : UInt8} (live : σ.Live h)
      (closed : (σ.status h.index).phase = .closed)
      (bindable : σ.ports.checkBind port = .ok lport) :
      Opening σ (σ.alter h.index (Status.attached lport))
  | listen {σ : Census} {h : Handle} {t : PortTable} (live : σ.Live h)
      (bound : (σ.status h.index).phase = .bound)
      (table : σ.ports.listen (σ.status h.index).options.lport h
        (σ.status h.index).options.priority = .ok t) :
      Opening σ ((σ.alter h.index Status.listening).withPorts t)
  | link {σ : Census} {h : Handle} {peer : Peer} {lport : UInt8} {t : PortTable}
      (live : σ.Live h)
      (idle : (σ.status h.index).phase = .closed ∨ (σ.status h.index).phase = .bound)
      (table : σ.ports.insert lport h (σ.status h.index).options.priority = .ok t) :
      Opening σ ((σ.alter h.index (Status.linked lport peer)).withPorts t)
  | rank {σ : Census} {h : Handle} {priority : UInt8} (live : σ.Live h) :
      Opening σ (σ.rank h priority)
  | retime {σ : Census} {h : Handle} {recv send : Timeout} (live : σ.Live h) :
      Opening σ (σ.alter h.index (Status.retimed recv send))
  | adopt {σ : Census} {parent child : Handle} {peer : Peer} {children : List (Peer × Handle)}
      (live : σ.Live parent) (listens : (σ.status parent.index).phase = .listen)
      (server : (σ.status parent.index).kin = .server children)
      (unknown : children.lookup peer = none)
      (childLive : σ.Live child)
      (fresh : (σ.status child.index).phase = .closed ∧ (σ.status child.index).kin = .client ∧
        (σ.status child.index).registered = false) :
      Opening σ (σ.adopt parent child peer)

/-- The moves that end something. -/
inductive Ending : Census → Census → Prop
  | shut {σ : Census} {h : Handle} (live : σ.Live h)
      (active : (σ.status h.index).phase.isActive = true) : Ending σ (σ.shut h)
  | vacate {σ : Census} {h : Handle} (live : σ.Live h)
      (closed : (σ.status h.index).phase = .closed) :
      Ending σ (σ.alter h.index Status.vacated)

/-- Any number of openings. -/
abbrev Openings : Census → Census → Prop := Relation.ReflTransGen Opening

/-- Any number of endings. -/
abbrev Endings : Census → Census → Prop := Relation.ReflTransGen Ending

/-- What one operation does: some openings and then some endings. -/
def Moves (σ τ : Census) : Prop := ∃ ρ, Openings σ ρ ∧ Endings ρ τ

theorem Moves.refl (σ : Census) : Moves σ σ := ⟨σ, .refl, .refl⟩

theorem Openings.moves (h : Openings σ τ) : Moves σ τ := ⟨τ, h, .refl⟩

theorem Endings.moves (h : Endings σ τ) : Moves σ τ := ⟨σ, .refl, h⟩

theorem Endings.invariant {P : Census → Prop} (hend : ∀ σ τ, Ending σ τ → P σ → P τ)
    (h : Endings σ τ) (hσ : P σ) : P τ := by
  induction h with
  | refl => exact hσ
  | tail _ he ih => exact hend _ _ he ih

/-- What holds before the moves holds after them, if every move keeps it. -/
theorem Moves.invariant {P : Census → Prop} (hopen : ∀ σ τ, Opening σ τ → P σ → P τ)
    (hend : ∀ σ τ, Ending σ τ → P σ → P τ) (h : Moves σ τ) (hσ : P σ) : P τ := by
  obtain ⟨ρ, ho, he⟩ := h
  -- first the openings, then the endings
  refine Endings.invariant hend he ?_
  clear he
  induction ho with
  | refl => exact hσ
  | tail _ ho ih => exact hopen _ _ ho ih

/-! ## Detaching -/

theorem status_forget (parent : Handle) (peer : Peer) (i : Nat) :
    (σ.forget parent peer).status i =
      if σ.Live parent ∧ i = parent.index then
        { σ.status i with kin := (σ.status i).kin.forget peer }
      else σ.status i := by
  unfold forget
  by_cases hl : σ.Live parent
  · by_cases hi : i = parent.index
    · subst hi
      simp [hl]
    · rw [if_pos hl, status_alter_of_ne hi]
      simp [hi]
  · simp [hl]

theorem alike_forget (parent : Handle) (peer : Peer) (i : Nat) :
    ((σ.forget parent peer).status i).Alike (σ.status i) := by
  rw [status_forget]
  split
  · exact ⟨rfl, rfl, Kin.parent?_forget _ _, rfl, rfl⟩
  · exact .refl _

@[simp] theorem status_unregister (port : UInt8) (h : Handle) :
    (σ.unregister port h).status = σ.status := by
  unfold unregister
  split <;> rfl

theorem alike_disown (h : Handle) (i : Nat) : ((σ.disown h).status i).Alike (σ.status i) := by
  unfold disown
  split
  · exact alike_forget _ _ i
  · exact .refl _

/-- Detaching a connection changes nothing in the slots but the children of its parent. -/
theorem status_detach (h : Handle) : (σ.detach h).status = (σ.disown h).status := by
  unfold detach
  split
  · exact status_unregister _ _
  · rfl

theorem alike_detach (h : Handle) (i : Nat) : ((σ.detach h).status i).Alike (σ.status i) := by
  rw [status_detach]
  exact alike_disown h i

theorem status_shut_self (h : Handle) : (σ.shut h).status h.index =
    ((σ.detach h).status h.index).shut := status_alter_self _ _

theorem status_shut_of_ne {h : Handle} {i : Nat} (hi : i ≠ h.index) :
    (σ.shut h).status i = (σ.detach h).status i := status_alter_of_ne hi _

/-- Closing a connection changes no other, children apart. -/
theorem alike_shut {h : Handle} {i : Nat} (hi : i ≠ h.index) :
    ((σ.shut h).status i).Alike (σ.status i) := by
  rw [status_shut_of_ne hi]
  exact alike_detach h i

theorem live_shut {h : Handle} (hl : σ.Live h) : (σ.shut h).Live h := by
  rw [Live, status_shut_self]
  refine ⟨?_, by simp [Status.shut]⟩
  exact (alike_detach h h.index).generation.trans hl.1

theorem phase_shut_self (h : Handle) : ((σ.shut h).status h.index).phase = .closed := by
  rw [status_shut_self]
  rfl

/-! ## Offering a child -/

theorem status_adopt_child {parent child : Handle} (hne : parent.index ≠ child.index)
    (peer : Peer) : (σ.adopt parent child peer).status child.index =
      (σ.status child.index).fostered parent (σ.status parent.index).options peer := by
  rw [adopt, status_alter_of_ne hne.symm, status_alter_self]

theorem status_adopt_parent {parent child : Handle} (hne : parent.index ≠ child.index)
    (peer : Peer) : (σ.adopt parent child peer).status parent.index =
      { σ.status parent.index with kin := (σ.status parent.index).kin.adopt peer child } := by
  rw [adopt, status_alter_self, status_alter_of_ne hne]

theorem status_adopt_of_ne {parent child : Handle} {i : Nat} (hp : i ≠ parent.index)
    (hc : i ≠ child.index) (peer : Peer) :
    (σ.adopt parent child peer).status i = σ.status i := by
  rw [adopt, status_alter_of_ne hp, status_alter_of_ne hc]

/-- A listening connection has no child for a peer yet, and there is a slot for one. -/
structure Offer (σ : Census) (parent child : Handle) (peer : Peer) : Prop where
  live : σ.Live parent
  listens : (σ.status parent.index).phase = .listen
  server : ∃ children, (σ.status parent.index).kin = .server children ∧
    children.lookup peer = none
  size : child.index < σ.size
  free : (σ.status child.index).phase = .free
  handle : (σ.status child.index).generation = child.generation

/-- The slot is claimed and adopted. -/
def offered (σ : Census) (parent child : Handle) (peer : Peer) : Census :=
  (σ.alter child.index Status.claimed).adopt parent child peer

namespace Offer

variable {parent child : Handle} {peer : Peer}

/-- The parent listens and the slot is free, so they are two slots. -/
theorem ne (o : σ.Offer parent child peer) : parent.index ≠ child.index := by
  intro heq
  have hl := o.listens
  rw [heq, o.free] at hl
  cases hl

theorem claim (o : σ.Offer parent child peer) :
    Opening σ (σ.alter child.index Status.claimed) := .claim o.size o.free

theorem adopt (o : σ.Offer parent child peer) :
    Opening (σ.alter child.index Status.claimed) (σ.offered parent child peer) := by
  obtain ⟨children, hk, hn⟩ := o.server
  refine @Opening.adopt _ _ _ _ children ?_ ?_ ?_ hn ?_ ?_
  · rw [Live, status_alter_of_ne o.ne]
    exact o.live
  · rw [status_alter_of_ne o.ne]
    exact o.listens
  · rw [status_alter_of_ne o.ne]
    exact hk
  · rw [Live, status_alter_self]
    exact ⟨o.handle, by simp [Status.claimed]⟩
  · rw [status_alter_self]
    exact ⟨rfl, rfl, rfl⟩

theorem status_child (o : σ.Offer parent child peer) :
    (σ.offered parent child peer).status child.index =
      (σ.status child.index).claimed.fostered parent (σ.status parent.index).options peer := by
  rw [offered, status_adopt_child o.ne, status_alter_self, status_alter_of_ne o.ne]

theorem status_parent (o : σ.Offer parent child peer) :
    (σ.offered parent child peer).status parent.index =
      { σ.status parent.index with kin := (σ.status parent.index).kin.adopt peer child } := by
  rw [offered, status_adopt_parent o.ne, status_alter_of_ne o.ne]

theorem status_of_ne (o : σ.Offer parent child peer) {i : Nat} (hi : i ≠ child.index) :
    ((σ.offered parent child peer).status i).phase = (σ.status i).phase ∧
      ((σ.offered parent child peer).status i).generation = (σ.status i).generation := by
  by_cases hp : i = parent.index
  · rw [hp, o.status_parent]
    exact ⟨rfl, rfl⟩
  · rw [offered, status_adopt_of_ne hp hi, status_alter_of_ne hi]
    exact ⟨rfl, rfl⟩

theorem live_child (o : σ.Offer parent child peer) : (σ.offered parent child peer).Live child := by
  rw [Live, o.status_child]
  exact ⟨o.handle, by simp [Status.fostered]⟩

theorem connected_child (o : σ.Offer parent child peer) :
    ((σ.offered parent child peer).status child.index).phase = .connected := by
  rw [o.status_child]
  rfl

/-- An offered child that finds no room is ended again. -/
theorem endings (o : σ.Offer parent child peer) :
    Endings (σ.offered parent child peer)
      (((σ.offered parent child peer).shut child).alter child.index Status.vacated) := by
  have hshut : Ending (σ.offered parent child peer) ((σ.offered parent child peer).shut child) :=
    .shut o.live_child (by rw [o.connected_child]; rfl)
  exact (Relation.ReflTransGen.single hshut).tail
    (.vacate (live_shut o.live_child) (phase_shut_self child))

end Offer

/-- What an operation does to the census: it begins, or it ends, or it offers a child that
finds no room. -/
inductive Turns (σ : Census) : Census → Prop
  | opens {τ : Census} (openings : Openings σ τ) : Turns σ τ
  | ends {τ : Census} (endings : Endings σ τ) : Turns σ τ
  | rejects {parent child : Handle} {peer : Peer} (offer : σ.Offer parent child peer) :
      Turns σ (((σ.offered parent child peer).shut child).alter child.index Status.vacated)

theorem Turns.moves (h : σ.Turns τ) : Moves σ τ := by
  cases h with
  | opens openings => exact openings.moves
  | ends endings => exact endings.moves
  | rejects offer =>
    exact ⟨_, (Relation.ReflTransGen.single offer.claim).tail offer.adopt, offer.endings⟩

end Census

/-! ## Closing and freeing -/

namespace Pool

open Census (Ending Endings)

variable {p : Pool}

/-- Closing fails on a stale handle, does nothing to a closed connection and shuts an
active one. -/
theorem close_cases (p : Pool) (h : Handle) :
    (¬ p.census.Live h ∧ p.close h = (p, .error .staleHandle)) ∨
    (p.census.Live h ∧ (p.census.status h.index).phase = .closed ∧ p.close h = (p, .ok ())) ∨
    (p.census.Live h ∧ (p.census.status h.index).phase.isActive = true ∧
      (p.close h).2 = .ok () ∧ (p.close h).1.census = p.census.shut h) := by
  unfold close
  cases hs : p.slot? h with
  | none =>
    left
    exact ⟨not_live_iff.2 hs, rfl⟩
  | some s =>
    right
    have hl : p.census.Live h := live_of_slot? hs
    have hstatus : p.census.status h.index = s.status := status_of_slot? hs
    rw [hstatus]
    dsimp only
    cases ha : s.phase.isActive with
    | false =>
      left
      refine ⟨hl, ?_, rfl⟩
      have hfree := (slot?_eq_some_iff.1 hs).2.2
      show s.phase = .closed
      cases hp : s.phase <;> simp_all [Phase.isActive]
    | true =>
      right
      refine ⟨hl, ha, rfl, ?_⟩
      have hi : h.index < (p.detach h s).slots.size := by
        rw [size_detach hs]
        exact index_lt_of_slot? hs
      have hshut : ((p.detach h s).modify h.index Slot.shut).census = p.census.shut h := by
        rw [census_modify hi (Slot.status_shut _), census_detach hs]
        rfl
      rw [Bool.not_true, if_neg (by simp), census_emit]
      -- giving up the queue and the event group does not show
      split
      · rw [census_modify_eq _ Slot.status_released, hshut]
      · exact hshut

theorem endings_close (p : Pool) (h : Handle) : Endings p.census (p.close h).1.census := by
  obtain ⟨-, he⟩ | ⟨-, -, he⟩ | ⟨hl, ha, -, he⟩ := close_cases p h
  · rw [he]
  · rw [he]
  · rw [he]
    exact .single (.shut hl ha)

/-- After closing without error the connection is closed and still there. -/
theorem closed_of_close_eq_ok {h : Handle} (hok : (p.close h).2 = .ok ()) :
    p.census.Live h ∧ (p.close h).1.census.Live h ∧
      ((p.close h).1.census.status h.index).phase = .closed := by
  obtain ⟨-, he⟩ | ⟨hl, hc, he⟩ | ⟨hl, -, -, he⟩ := close_cases p h
  · rw [he] at hok
    cases hok
  · rw [he]
    exact ⟨hl, hl, hc⟩
  · rw [he]
    exact ⟨hl, Census.live_shut hl, Census.phase_shut_self h⟩

theorem close_eq_ok_of_live {h : Handle} (hl : p.census.Live h) : (p.close h).2 = .ok () := by
  obtain ⟨hn, -⟩ | ⟨-, -, he⟩ | ⟨-, -, he, -⟩ := close_cases p h
  · exact absurd hl hn
  · rw [he]
  · exact he

theorem census_vacate {h : Handle} (hl : p.census.Live h) :
    (p.modify h.index Slot.vacated).census = p.census.alter h.index Status.vacated := by
  obtain ⟨s, hs⟩ := live_iff.1 hl
  exact census_modify (index_lt_of_slot? hs) (Slot.status_vacated _)

/-- What `free` keeps. A relation that holds from before to after a closing, a slot given
back and an event told to the monitor, and can be chained, holds from before to after the
whole recursion, however deep it goes. -/
theorem freeWithin_induction {R : Pool → Pool → Prop} (refl : ∀ p, R p p)
    (trans : ∀ p q r, R p q → R q r → R p r) (close : ∀ p h, R p (p.close h).1)
    (vacate : ∀ p h, p.census.Live h → (p.census.status h.index).phase = .closed →
      R p (p.modify h.index Slot.vacated))
    (emit : ∀ p event, R p (p.emit event)) (depth : Nat) (p : Pool) (h : Handle) :
    R p (freeWithin depth p h).1 := by
  induction depth generalizing p h with
  | zero => exact refl p
  | succ depth ih =>
    -- the children that are left in the backlog, one after another
    have hpending : ∀ (pending : List Handle) (q : Pool),
        R q (pending.foldl (fun p child => (freeWithin depth p child).1) q) := by
      intro pending
      induction pending with
      | nil => exact refl
      | cons child rest ihp => exact fun q => trans _ _ _ (ih q child) (ihp _)
    have hclose := close p h
    unfold freeWithin
    split
    · next q e hq =>
      rw [hq] at hclose
      exact hclose
    · next q hq =>
      have hc := closed_of_close_eq_ok (p := p) (h := h) (by rw [hq])
      rw [hq] at hclose hc
      exact trans _ _ _ (trans _ _ _ hclose (vacate q h hc.2.1 hc.2.2))
        (trans _ _ _ (hpending _ _) (emit _ _))

theorem endings_freeWithin (depth : Nat) (p : Pool) (h : Handle) :
    Endings p.census (freeWithin depth p h).1.census := by
  refine freeWithin_induction (R := fun p q => Endings p.census q.census) (fun _ => .refl)
    (fun _ _ _ => .trans) endings_close ?_ (fun _ _ => .refl) depth p h
  intro q k hl hc
  rw [census_vacate hl]
  exact .single (.vacate hl hc)

theorem endings_free (p : Pool) (h : Handle) : Endings p.census (p.free h).1.census :=
  endings_freeWithin _ p h

/-- Freeing succeeds on a live handle, and has no effect on a stale one. -/
theorem free_cases (p : Pool) (h : Handle) :
    (¬ p.census.Live h ∧ p.free h = (p, .error .staleHandle)) ∨
    (p.census.Live h ∧ (p.free h).2 = .ok () ∧
      Endings ((p.close h).1.census.alter h.index Status.vacated) (p.free h).1.census) := by
  unfold free
  by_cases hl : p.census.Live h
  · right
    refine ⟨hl, ?_⟩
    obtain ⟨s, hs⟩ := live_iff.1 hl
    -- there is a slot, so the recursion has at least one level
    obtain ⟨depth, hd⟩ := Nat.exists_eq_succ_of_ne_zero
      (Nat.ne_of_gt (Nat.lt_of_le_of_lt (Nat.zero_le _) (index_lt_of_slot? hs)))
    have hok := close_eq_ok_of_live hl
    have hc := closed_of_close_eq_ok hok
    have hclose : p.close h = ((p.close h).1, .ok ()) := Prod.ext rfl hok
    rw [hd, freeWithin, hclose]
    refine ⟨rfl, ?_⟩
    dsimp only
    rw [census_emit, ← census_vacate hc.2.1]
    -- which children are pending does not matter, nor in which pool they are freed
    generalize (((p.close h).1.slotAt h.index).role.pending) = pending
    generalize (p.close h).1.modify h.index Slot.vacated = q
    induction pending generalizing q with
    | nil => exact .refl
    | cons child rest ih => exact (endings_freeWithin depth q child).trans (ih _)
  · left
    refine ⟨hl, ?_⟩
    -- a pool without slots has no live handle, and refuses before it closes anything
    cases hsize : p.slots.size with
    | zero => rfl
    | succ depth =>
      obtain ⟨-, he⟩ | ⟨hl', -⟩ | ⟨hl', -⟩ := close_cases p h
      · rw [freeWithin, he]
      · exact absurd hl' hl
      · exact absurd hl' hl

end Pool

end Netstack
