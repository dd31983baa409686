import Mathlib.Data.List.Perm.Subperm
import Netstack.Proofs.Pool.Waiting

/-
Who is accepted.

A listening connection that is asked for a child without waiting gives the first one in its
backlog that is its child by now. That is the child that waits longest, as it should be, with one
exception: a child that was closed while it waited and has been connected again by its own handle
still has its parent, and its handle still stands in the backlog. It passes for a child that was
never closed, and is handed over when its handle comes up. What is passed over on the way was
closed or freed, and nobody is handed over more often than offered.
-/

set_option autoImplicit false

namespace Netstack

open Pool (Op)

/-! ## Listeners are servers -/

namespace Census

variable {σ τ : Census} {s : Status} {i : Nat}

/-- Who listens is a server. -/
def Served (σ : Census) : Prop :=
  ∀ i, (σ.status i).phase = .listen → ∃ children, (σ.status i).kin = .server children

theorem Served.set (hσ : σ.Served)
    (hs : s.phase = .listen → ∃ children, s.kin = .server children) : (σ.set i s).Served := by
  intro j hj
  by_cases hi : j = i
  · subst hi
    rw [status_set_self] at hj ⊢
    exact hs hj
  · rw [status_set_of_ne hi] at hj ⊢
    exact hσ j hj

theorem served_congr (hs : τ.status = σ.status) (hσ : σ.Served) : τ.Served := by
  unfold Served
  rw [hs]
  exact hσ

theorem Served.forget (hσ : σ.Served) (parent : Handle) (peer : Peer) :
    (σ.forget parent peer).Served := by
  unfold Census.forget
  split
  · refine hσ.set fun hlisten => ?_
    obtain ⟨children, hkin⟩ := hσ parent.index hlisten
    refine ⟨children.filter fun c => c.1 ≠ peer, ?_⟩
    dsimp only
    rw [hkin]
    rfl
  · exact hσ

theorem Served.opening (hσ : σ.Served) (ho : Opening σ τ) : τ.Served := by
  cases ho with
  | claim | attach => exact hσ.set (by rintro ⟨⟩)
  | listen => exact served_congr (status_withPorts _) (hσ.set fun _ => ⟨[], rfl⟩)
  | link => exact served_congr (status_withPorts _) (hσ.set (by rintro ⟨⟩))
  | rank => exact served_congr (status_rank _ _ _) (hσ.set (hσ _))
  | retime => exact hσ.set (hσ _)
  | @adopt parent child peer children live listens server unknown childLive fresh =>
    unfold Census.adopt
    have hchild : (σ.alter child.index
        (Status.fostered parent (σ.status parent.index).options peer)).Served :=
      hσ.set (by rintro ⟨⟩)
    refine hchild.set fun hlisten => ?_
    obtain ⟨children', hkin⟩ := hchild parent.index hlisten
    refine ⟨(peer, child) :: children', ?_⟩
    dsimp only
    rw [hkin]
    rfl

theorem Served.ending (hσ : σ.Served) (he : Ending σ τ) : τ.Served := by
  cases he with
  | @shut h live active =>
    refine Served.set ?_ (by rintro ⟨⟩)
    refine served_congr (status_detach h) ?_
    unfold disown
    split
    · exact hσ.forget _ _
    · exact hσ
  | vacate => exact hσ.set (by rintro ⟨⟩)

end Census

/-! ## The answer -/

namespace Pool

variable {p q : Pool} {h c : Handle} {w : Nat → List Handle} {cfg : Config}

/-- What accepting answers to somebody who does not wait, if this is the child to accept. -/
def acceptance : Option Handle → Except Error Handle
  | some c => .ok c
  | none => .error .queueEmpty

theorem acceptance_injective : Function.Injective acceptance := by
  rintro (_ | c) (_ | c') heq <;> cases heq <;> rfl

theorem events_isOk {s : Slot} (hs : p.slot? h = some s) :
    (p.events h).isOk = s.events.isSome := by
  have hslot : p.slot h = .ok s := slot_eq_ok_iff.2 hs
  unfold events
  rw [hslot]
  cases hev : s.events <;> simp only [Bind.bind, Except.bind, hev] <;> rfl

/-- A listening connection that has its event group accepts the first in its backlog that is its
child. -/
theorem accept_of_listening (hw : p.Backlogs w) (hserved : p.census.Served) (hl : p.In h .listen) :
    ((p.events h).isOk = false ∧ p.accept h (some .zero) = (p, .error .destroyed)) ∨
    ((p.events h).isOk = true ∧
      (p.accept h (some .zero)).2 = acceptance ((p.backlogOf h).find? (p.isPendingChild h)) ∧
      (p.accept h (some .zero)).1.backlogOf h =
        ((p.backlogOf h).dropWhile fun c => !p.isPendingChild h c).tail) := by
  obtain ⟨s, hs, hlisten⟩ := hl
  have hslot : p.slot h = .ok s := slot_eq_ok_iff.2 hs
  obtain ⟨children, hkin⟩ := hserved h.index (by rw [status_of_slot? hs]; exact hlisten)
  rw [status_of_slot? hs] at hkin
  obtain ⟨backlog, hrole⟩ := Role.kin_eq_server_iff.1 hkin
  cases hev : s.events with
  | none =>
    refine .inl ⟨by rw [events_isOk hs, hev]; rfl, ?_⟩
    rw [accept, lookChild, hslot]
    dsimp only
    rw [hrole, hlisten, hev]
  | some g =>
    refine .inr ⟨by rw [events_isOk hs, hev]; rfl, ?_⟩
    obtain ⟨e, he⟩ | ⟨-, hfound, hback⟩ := hw.find h
    · -- there is nothing to fail on
      exfalso
      rw [lookChild, hslot] at he
      dsimp only at he
      rw [hrole, hlisten, hev] at he
      dsimp only at he
      split at he <;> cases congrArg Prod.snd he
    · rw [hw.backlogOf_eq, accept_fst, hback.backlogOf_eq, Function.update_self]
      refine ⟨?_, rfl⟩
      unfold accept
      generalize p.lookChild h = looked at hfound
      obtain ⟨q, answer⟩ := looked
      obtain rfl : answer = .ok _ := hfound
      cases (w h.index).find? (p.isPendingChild h) <;> rfl

end Pool

/-! ## Nobody is handed over more often than offered -/

namespace System

variable {s : System} {op : Op} {h c : Handle} {xs xs' : List Handle}

theorem length_handover (s : System) (op : Op) : (s.handover op).length ≤ 1 := by
  unfold handover
  split <;> simp

/-- A handle that is handed over leaves the backlog, and one that joins was offered. -/
theorem Passes.count_le (hpass : s.Passes op h xs xs') (c : Handle) :
    xs'.count c + (s.handover op).count (h, c) ≤ xs.count c + (s.offers op).count (h, c) := by
  cases hpass with
  | relists begins =>
    -- who begins to listen accepts nobody
    have hnone : s.handover op = [] := by
      refine handover_of_acceptor?_none ?_
      cases op <;> first | rfl | cases begins
    rw [hnone]
    simp
  | looks quiet finds =>
    have hsplit := congrArg (List.count c)
      (takeWhile_append_find?_append_tail (s.pool.isPendingChild h) xs)
    rw [List.count_append, List.count_append] at hsplit
    have hfound : (s.handover op).count (h, c) ≤
        (xs.find? (s.pool.isPendingChild h)).toList.count c := by
      by_cases hin : (h, c) ∈ s.handover op
      · rw [(finds c).1 hin, Option.toList_some, List.count_singleton_self]
        exact List.count_le_length.trans (s.length_handover op)
      · rw [List.count_eq_zero_of_not_mem hin]
        exact Nat.zero_le _
    omega
  | joins begins hands =>
    rw [List.count_append, count_offersTo, List.count_eq_zero_of_not_mem (hands c)]
    exact Nat.le_refl _

/-- Who is handed a child over listens, before and after. -/
theorem live_of_handover (hc : (h, c) ∈ s.handover op) :
    s.pool.census.Live h ∧ (s.step op).1.pool.census.Live h := by
  obtain ⟨hquiet, hlisten, -⟩ := (mem_handover.1 hc).childFor
  rw [census_step_of_quiet s hquiet]
  exact ⟨hlisten.live, hlisten.live⟩

end System

namespace Site

variable {s : Site} {d : Deed} {deeds : List Deed} {h c : Handle}

section Gather

variable {α : Type} {f : System → Op → List α}

/-- What a deed comes to, if it is asked of the pool. -/
def asked (f : System → Op → List α) (s : Site) : Deed → List α
  | .ask op => f s.system op
  | _ => []

/-- What the operations that are asked of the pool in a run come to, one after another. -/
def gather (f : System → Op → List α) : Site → List Deed → List α
  | _, [] => []
  | s, d :: deeds => asked f s d ++ gather f (s.perform d) deeds

theorem gather_snoc :
    gather f s (deeds ++ [d]) = gather f s deeds ++ asked f (s.run deeds) d := by
  induction deeds generalizing s with
  | nil => exact List.append_nil _
  | cons d₀ deeds ih =>
    rw [List.cons_append, gather, gather, ih, List.append_assoc]
    rfl

theorem gather_snoc_ask (op : Op) :
    gather f s (deeds ++ [.ask op]) = gather f s deeds ++ f (s.run deeds).system op := gather_snoc

theorem gather_snoc_of_touch (hd : ∀ op, d ≠ .ask op) :
    gather f s (deeds ++ [d]) = gather f s deeds := by
  refine gather_snoc.trans ?_
  cases d with
  | ask op => exact absurd rfl (hd op)
  | call | wake | expire | clear | destroy | set | unset => exact List.append_nil _

end Gather

/-- The children that are accepted in a run, each with its listener. -/
def handovers : Site → List Deed → List (Handle × Handle) := gather System.handover

/-- The children that are offered in a run, each with its listener. -/
def offers : Site → List Deed → List (Handle × Handle) := gather System.offers

/-- A child comes before its time: it was closed while it waited, is connected as a child of the
listener again, and stands in the backlog before all who wait. -/
def CutsIn (s : Site) (h c : Handle) (deeds : List Deed) : Prop :=
  ∃ before after, (s.run deeds).pool.backlogOf h = before ++ c :: after ∧
    (∀ b ∈ before, b ∉ s.waiting h deeds) ∧ (s.waiting h deeds).head? ≠ some c ∧
    (s.run deeds).pool.parentOf? c = some h ∧ s.Abandoned h c deeds

/-- Nobody cuts in where the only child in the backlog is the one that waits longest. -/
theorem not_cutsIn (hsole : ∀ c ∈ (s.run deeds).pool.backlogOf h,
    (s.run deeds).pool.parentOf? c = some h → (s.waiting h deeds).head? = some c) :
    ¬ s.CutsIn h c deeds := by
  rintro ⟨before, after, hback, -, hne, hparent, -⟩
  refine hne (hsole c ?_ hparent)
  rw [hback]
  exact List.mem_append_right _ List.mem_cons_self

/-- How often a slot is given back in a run of deeds. -/
def turnover (i : Nat) (s : Site) (deeds : List Deed) : Nat :=
  Netstack.turnover perform (·.system.generation i) s deeds

theorem turnover_snoc {i : Nat} : turnover i s (deeds ++ [d]) = turnover i s deeds +
    if ((s.run deeds).perform d).system.generation i = (s.run deeds).system.generation i
      then 0 else 1 := turnover_append s deeds [d]

/-- A deed gives a slot back at most once. -/
theorem ages_perform (s : Site) (d : Deed) (i : Nat) :
    (s.pool.census.status i).Stays ((s.perform d).pool.census.status i) ∨
      (s.pool.census.status i).Retires ((s.perform d).pool.census.status i) := by
  obtain hd | ⟨op, rfl⟩ := d.touch_or_ask
  · rw [(touch_perform s hd).census]
    exact .inl (.refl _)
  · exact s.system.ages_step op i

/-- A connection has not ended, or its slot has been given back so often since it ended that the
generation has gone on from its own by so much. -/
def LiveOrPast (s : Site) (c : Handle) (n : Nat) : Prop :=
  s.pool.census.Live c ∨ ∃ k, 0 < k ∧ k ≤ n ∧
    s.system.generation c.index = c.generation + UInt32.ofNat k

theorem LiveOrPast.perform {n : Nat} (hc : s.LiveOrPast c n) (d : Deed) :
    (s.perform d).LiveOrPast c (n + if (s.perform d).system.generation c.index =
      s.system.generation c.index then 0 else 1) := by
  obtain hstays | hretires := s.ages_perform d c.index
  · have hgen : (s.perform d).system.generation c.index = s.system.generation c.index :=
      hstays.generation
    rw [if_pos hgen, Nat.add_zero]
    obtain hl | ⟨k, hk, hkn, hg⟩ := hc
    · exact .inl ⟨hstays.generation.trans hl.1, hstays.phase hl.2⟩
    · exact .inr ⟨k, hk, hkn, hgen.trans hg⟩
  · have hgen : (s.perform d).system.generation c.index =
        s.system.generation c.index + 1 := hretires.generation
    rw [hgen, if_neg (System.add_one_ne _)]
    obtain hl | ⟨k, hk, hkn, hg⟩ := hc
    · refine .inr ⟨1, Nat.one_pos, Nat.le_add_left 1 n, ?_⟩
      rw [hgen, show s.system.generation c.index = c.generation from hl.1]
      rfl
    · refine .inr ⟨k + 1, Nat.succ_pos k, Nat.succ_le_succ hkn, ?_⟩
      rw [hgen, hg, UInt32.ofNat_add, UInt32.add_assoc]
      rfl

/-- A connection cannot begin again before the counter of its slot has gone around. -/
theorem LiveOrPast.not_begins {n : Nat} (hc : s.LiveOrPast c n) (hn : n < 2 ^ 32) {op : Op} :
    ¬ s.system.Begins op c := by
  intro hb
  obtain hl | ⟨k, hk, hkn, hg⟩ := hc
  · exact hl.2 hb.free
  · -- the generation would have gone on by nothing, up to full rounds
    have hzero : UInt32.ofNat k = 0 :=
      (UInt32.add_right_inj _).1 ((hg.symm.trans hb.generation).trans (UInt32.add_zero _).symm)
    have hmod := congrArg UInt32.toNat hzero
    rw [UInt32.toNat_ofNat', Nat.mod_eq_of_lt (Nat.lt_of_le_of_lt hkn hn)] at hmod
    exact Nat.ne_of_gt hk hmod

end Site

namespace System

theorem map_snd_offers_sublist (s : System) (op : Op) :
    ((s.offers op).map Prod.snd).Sublist (s.made op) := by
  unfold offers
  induction s.made op with
  | nil => exact .slnil
  | cons c cs ih =>
    rw [List.filterMap_cons]
    cases (s.step op).1.pool.parentOf? c with
    | none => exact ih.cons _
    | some h => exact ih.cons_cons _

end System

namespace Pool

variable {p q r : Pool} {h c : Handle} {cfg : Config} {answer : Except Error Handle}

theorem offers_live_or_past (hnew : new cfg = .ok p) (deeds : List Deed) :
    ∀ x ∈ p.unattended.offers deeds,
      (p.unattended.run deeds).LiveOrPast x.2 (Site.turnover x.2.index p.unattended deeds) := by
  unfold Site.offers
  induction deeds using List.reverseRecOn with
  | nil => rintro x ⟨⟩
  | append_singleton deeds d ih =>
    intro x hx
    rw [Site.run_snoc, Site.turnover_snoc]
    obtain hd | ⟨op, rfl⟩ := d.touch_or_ask
    · rw [Site.gather_snoc_of_touch hd] at hx
      exact (ih x hx).perform d
    · rw [Site.gather_snoc_ask] at hx
      obtain hx | hx := List.mem_append.1 hx
      · exact (ih x hx).perform _
      · exact .inl (System.begins_of_mem_made (orderly_run hnew deeds).family
          (System.mem_made_of_mem_offers hx)).live

/-- No handle is offered twice, as long as no counter goes around. -/
theorem nodup_offers (hnew : new cfg = .ok p) (deeds : List Deed)
    (hlt : ∀ i, Site.turnover i p.unattended deeds < 2 ^ 32) :
    ((p.unattended.offers deeds).map Prod.snd).Nodup := by
  unfold Site.offers
  induction deeds using List.reverseRecOn with
  | nil => exact List.nodup_nil
  | append_singleton deeds d ih =>
    have hbefore : ∀ i, Site.turnover i p.unattended deeds < 2 ^ 32 := fun i => by
      have hi := hlt i
      rw [Site.turnover_snoc] at hi
      exact Nat.lt_of_le_of_lt (Nat.le_add_right _ _) hi
    obtain hd | ⟨op, rfl⟩ := d.touch_or_ask
    · rw [Site.gather_snoc_of_touch hd]
      exact ih hbefore
    · have hfam := (orderly_run hnew deeds).family
      rw [Site.gather_snoc_ask, List.map_append]
      refine List.nodup_append.2 ⟨ih hbefore,
        (System.map_snd_offers_sublist _ op).nodup (System.nodup_made _ op), ?_⟩
      rintro _ hold _ hnow rfl
      obtain ⟨x, hx, rfl⟩ := List.mem_map.1 hold
      exact (offers_live_or_past hnew deeds x hx).not_begins (hbefore _)
        (System.begins_of_mem_made hfam ((System.map_snd_offers_sublist _ op).subset hnow))

/-- Who is handed over to a listener was offered to it. What is handed over in a run, and what
stands in a backlog after it, was offered as often. -/
theorem count_handovers_le (hnew : new cfg = .ok p) (deeds : List Deed) (h c : Handle) :
    (p.unattended.handovers deeds).count (h, c) ≤ (p.unattended.offers deeds).count (h, c) ∧
      ((p.unattended.run deeds).pool.census.Live h →
        (p.unattended.handovers deeds).count (h, c) +
          ((p.unattended.run deeds).pool.backlogOf h).count c ≤
            (p.unattended.offers deeds).count (h, c)) := by
  unfold Site.handovers Site.offers
  -- a backlog that goes with its connection is the reason for the first part
  induction deeds using List.reverseRecOn with
  | nil =>
    refine ⟨Nat.le_refl _, fun _ => ?_⟩
    rw [show (p.unattended.run []).pool.backlogOf h = [] from (backlogs_new hnew).backlogOf_eq h]
    exact Nat.le_refl _
  | append_singleton deeds d ih =>
    obtain ⟨ih, ihlive⟩ := ih
    have ho := orderly_run hnew deeds
    obtain ⟨w, hw⟩ := ho.backlogs
    obtain hd | ⟨op, rfl⟩ := d.touch_or_ask
    · have ht := Site.touch_perform (p.unattended.run deeds) hd
      rw [Site.gather_snoc_of_touch hd, Site.gather_snoc_of_touch hd, Site.run_snoc, ht.census,
        (ht.sameBacklogs.backlogs hw).backlogOf_eq, ← hw.backlogOf_eq]
      exact ⟨ih, ihlive⟩
    · obtain ⟨-, hpass⟩ := System.passes_step hw ho.family op
      rw [Site.gather_snoc_ask, Site.gather_snoc_ask, List.count_append, List.count_append,
        Site.pool, Site.system_snoc]
      -- a connection that is handed a child is there before and after
      have hnone : ¬ ((p.unattended.run deeds).pool.census.Live h ∧
          ((p.unattended.run deeds).system.step op).1.pool.census.Live h) →
          ((p.unattended.run deeds).system.handover op).count (h, c) = 0 := fun hn =>
        List.count_eq_zero.2 fun hin => hn (System.live_of_handover hin)
      by_cases hl : ((p.unattended.run deeds).system.step op).1.pool.census.Live h
      · obtain ⟨hbefore, hpass⟩ | ⟨hbefore, hnil⟩ := hpass h hl
        · have hcount := hpass.count_le c
          have hlive : (Site.gather System.handover p.unattended deeds).count (h, c) +
              ((p.unattended.run deeds).system.pool.backlogOf h).count c ≤ _ := ihlive hbefore
          exact ⟨by omega, fun _ => by omega⟩
        · rw [hnil, hnone fun hboth => hbefore hboth.1]
          exact ⟨by omega, fun _ => by rw [List.count_nil]; omega⟩
      · rw [hnone fun hboth => hl hboth.2]
        exact ⟨by omega, fun hlive => absurd hlive hl⟩

/-! ## Every accept of every run -/

theorem served_deeds (hnew : new cfg = .ok p) (deeds : List Deed) :
    (p.unattended.run deeds).pool.census.Served := by
  refine Site.census_run (fun _ _ ho hσ => hσ.opening ho) (fun _ _ he hσ => hσ.ending he)
    (s := p.unattended) ?_ deeds
  show p.census.Served
  rw [census_new hnew]
  rintro i ⟨⟩

/-- After every run, a listening connection that is asked for a child and need not wait gives the
one that waits longest, and finds no child exactly if nobody waits; that is, if it has its event
group and nobody cuts in, and only then. What it passes over was closed or freed while it waited.
Nobody is accepted by a listener more often than offered to it, and as long as no slot is used so
often that its counter goes around, no handle is accepted twice by anyone. -/
theorem accept_in_turn_iff (hnew : new cfg = .ok p) (deeds : List Deed)
    (hq : (p.unattended.run deeds).pool = q) (hl : q.In h .listen)
    (haccept : q.accept h (some .zero) = (r, answer)) :
    (answer = acceptance (p.unattended.waiting h deeds).head? ↔
      (q.events h).isOk = true ∧ ∀ c, ¬ p.unattended.CutsIn h c deeds) ∧
    (∃ taken, q.backlogOf h = taken ++ r.backlogOf h ∧
      ∀ c ∈ taken, answer ≠ .ok c → p.unattended.Abandoned h c deeds) ∧
    (p.unattended.handovers deeds).Subperm (p.unattended.offers deeds) ∧
    ((∀ i, Site.turnover i p.unattended deeds < 2 ^ 32) →
      ((p.unattended.handovers deeds).map Prod.snd).Nodup) := by
  subst hq
  obtain rfl : ((p.unattended.run deeds).pool.accept h (some .zero)).1 = r :=
    congrArg Prod.fst haccept
  obtain rfl : ((p.unattended.run deeds).pool.accept h (some .zero)).2 = answer :=
    congrArg Prod.snd haccept
  have ho := orderly_run hnew deeds
  obtain ⟨w, hw⟩ := ho.backlogs
  have hwin := ho.winnow h (in_iff.1 hl).1
  have honce : (p.unattended.handovers deeds).Subperm (p.unattended.offers deeds) :=
    List.subperm_ext_iff.2 fun x _ => (count_handovers_le hnew deeds x.1 x.2).1
  refine ⟨?_, ?_, honce, fun hlt => ?_⟩
  · -- the first in the backlog that passes for a child, against the first that waits
    obtain ⟨hnone, he⟩ | ⟨hsome, hanswer, -⟩ := accept_of_listening hw (served_deeds hnew deeds) hl
    · rw [he]
      refine iff_of_false (fun heq => ?_) fun hboth => Bool.eq_false_iff.1 hnone hboth.1
      cases hhead : (p.unattended.waiting h deeds).head? <;> rw [hhead] at heq <;> cases heq
    · rw [hanswer, acceptance_injective.eq_iff, and_iff_right hsome]
      simp only [Site.CutsIn, parentOf?_eq_some_iff]
      exact hwin.find?_eq_head?_iff
  · -- what comes before the child does not wait, and so it has ended
    obtain ⟨-, he⟩ | ⟨-, hanswer, hback⟩ := accept_of_listening hw (served_deeds hnew deeds) hl
    · rw [he]
      exact ⟨[], rfl, by simp⟩
    · rw [hback, hanswer]
      refine ⟨_, (takeWhile_append_find?_append_tail _ _).symm, fun c hc hne => ?_⟩
      obtain hc | hc := List.mem_append.1 hc
      · exact hwin.gone_of_mem_takeWhile hc
      · rw [Option.mem_toList] at hc
        exact absurd (congrArg acceptance hc) hne
  · -- what is handed over is part of what is offered, in some order
    obtain ⟨l, hperm, hsub⟩ := honce
    exact (hperm.map Prod.snd).nodup_iff.1 ((hsub.map Prod.snd).nodup (nodup_offers hnew deeds hlt))

/-- A listener with two children, of which the first is closed: the second is accepted. -/
theorem accept_in_turn_of_second :
    ∃ p, new { maxConnections := 3 } = .ok p ∧ ∃ q r,
      (p.unattended.run [.ask .alloc, .ask (.bind ⟨0, 0⟩ 5), .ask (.listen ⟨0, 0⟩ 4),
        .ask (.offerChild ⟨0, 0⟩ ⟨0x42, 3⟩), .ask (.offerChild ⟨0, 0⟩ ⟨0x43, 3⟩),
        .ask (.close ⟨1, 0⟩)]).pool = q ∧ q.accept ⟨0, 0⟩ (some .zero) = (r, .ok ⟨2, 0⟩) := by
  refine ⟨_, rfl, _, _, rfl, Prod.ext rfl ?_⟩
  have hnew : new { maxConnections := 3 } = .ok _ := rfl
  obtain ⟨hturn, -⟩ := accept_in_turn_iff (h := ⟨0, 0⟩) hnew
    [.ask .alloc, .ask (.bind ⟨0, 0⟩ 5), .ask (.listen ⟨0, 0⟩ 4),
      .ask (.offerChild ⟨0, 0⟩ ⟨0x42, 3⟩), .ask (.offerChild ⟨0, 0⟩ ⟨0x43, 3⟩),
      .ask (.close ⟨1, 0⟩)] rfl (by decide +kernel) rfl
  exact (hturn.2 ⟨by decide +kernel, fun c => Site.not_cutsIn (by decide +kernel)⟩).trans
    (by decide +kernel)

/-- A child is closed while it waits, and connected again by its own handle. It is accepted,
although nobody waits. -/
theorem accept_of_closed_child :
    ∃ p, new { maxConnections := 2 } = .ok p ∧ ∃ q r,
      (p.unattended.run [.ask .alloc, .ask (.bind ⟨0, 0⟩ 5), .ask (.listen ⟨0, 0⟩ 4),
        .ask (.offerChild ⟨0, 0⟩ ⟨0x42, 3⟩), .ask (.close ⟨1, 0⟩),
        .ask (.connect ⟨1, 0⟩ ⟨0x43, 4⟩)]).pool = q ∧
      p.unattended.waiting ⟨0, 0⟩ [.ask .alloc, .ask (.bind ⟨0, 0⟩ 5), .ask (.listen ⟨0, 0⟩ 4),
        .ask (.offerChild ⟨0, 0⟩ ⟨0x42, 3⟩), .ask (.close ⟨1, 0⟩),
        .ask (.connect ⟨1, 0⟩ ⟨0x43, 4⟩)] = [] ∧
      q.accept ⟨0, 0⟩ (some .zero) = (r, .ok ⟨1, 0⟩) := by
  refine ⟨_, rfl, _, _, rfl, ?_, Prod.ext rfl ?_⟩ <;> decide +kernel

end Pool

end Netstack
