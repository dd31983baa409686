import Netstack.Proofs.Pool.Backlogs
import Netstack.Proofs.Pool.Handles

/-
Who can still give a connection back.

An application knows the connections that it was handed out and those that it accepted. A
child that it has not accepted is known to nobody, and waits in the backlog of its listener;
whoever frees the listener frees the child. So every live connection is known, or waits in
the backlog of a connection that is (`Census.Owned`), or is lost: it lives, nobody knows it,
and it waits nowhere (`Census.Lost`). Connections that are lost stay so, and there is one step
that loses any: to listen again starts with an empty backlog, whoever waited in the old one.

The last section draws the conclusion. When the application has freed everything it knows,
the pool is empty exactly if no step has lost a child.
-/

set_option autoImplicit false

namespace Netstack

namespace Census

variable {σ τ : Census} {w w' : Nat → List Handle} {K : List Handle} {h c parent : Handle}
  {peer : Peer} {i : Nat}

/-- Who waits in a backlog and is not known is a child of the connection with this backlog. -/
def Owned (σ : Census) (w : Nat → List Handle) (K : List Handle) : Prop :=
  ∀ i, ∀ c ∈ w i, c ∉ K → ∃ peer, σ.ChildFor ⟨i, (σ.status i).generation⟩ peer c

/-- A connection lives that is not known and waits nowhere. -/
def Lost (σ : Census) (w : Nat → List Handle) (K : List Handle) : Prop :=
  ∃ c, σ.Live c ∧ c ∉ K ∧ ∀ i, c ∉ w i

theorem ChildFor.of_alike (hc : σ.ChildFor parent peer c)
    (ha : (τ.status c.index).Alike (σ.status c.index)) : τ.ChildFor parent peer c :=
  ⟨(live_iff_of_alike ha).2 hc.live, ha.phase.trans hc.connected, ha.parent.trans hc.parent,
    ha.peer.trans hc.peer⟩

/-- A child is in the backlog of no other connection. -/
theorem Owned.index_eq (ho : σ.Owned w K) {j : Nat} (hi : c ∈ w i) (hj : c ∈ w j) (hK : c ∉ K) :
    i = j := by
  obtain ⟨_, hci⟩ := ho i c hi hK
  obtain ⟨_, hcj⟩ := ho j c hj hK
  exact congrArg Handle.index (Option.some.inj (hci.parent.symm.trans hcj.parent))

/-! ## One connection changes -/

/-- Only the slot of `h` changes, within one use. -/
structure Touches (σ τ : Census) (h : Handle) : Prop where
  before : (σ.status h.index).generation = h.generation
  after : (τ.status h.index).generation = h.generation
  others : ∀ i, i ≠ h.index → (τ.status i).Alike (σ.status i)

namespace Touches

theorem generation (ht : σ.Touches τ h) (i : Nat) :
    (τ.status i).generation = (σ.status i).generation := by
  by_cases hi : i = h.index
  · rw [hi, ht.before, ht.after]
  · exact (ht.others i hi).generation

/-- Any other connection lives in another slot. -/
theorem alike (ht : σ.Touches τ h) (hc : c ≠ h) (hl : σ.Live c ∨ τ.Live c) :
    (τ.status c.index).Alike (σ.status c.index) := by
  refine ht.others _ fun hi => hc ?_
  have hg : (σ.status c.index).generation = c.generation := by
    obtain hl | hl := hl
    · exact hl.1
    · exact (ht.generation _).symm.trans hl.1
  have hgen : c.generation = h.generation := by
    rw [← hg, hi, ht.before]
  cases c
  cases h
  exact congr (congrArg Handle.mk hi) hgen

theorem owned (ht : σ.Touches τ h) (hh : h ∈ K) (ho : σ.Owned w K) : τ.Owned w K := by
  intro i c hc hK
  obtain ⟨peer, hchild⟩ := ho i c hc hK
  rw [ht.generation i]
  exact ⟨peer, hchild.of_alike (ht.alike (ne_of_mem_of_not_mem hh hK).symm (.inl hchild.live))⟩

theorem lost_iff (ht : σ.Touches τ h) (hh : h ∈ K) : τ.Lost w K ↔ σ.Lost w K := by
  constructor <;> rintro ⟨c, hl, hK, hw⟩
  · have ha := ht.alike (ne_of_mem_of_not_mem hh hK).symm (.inr hl)
    exact ⟨c, (live_iff_of_alike ha).1 hl, hK, hw⟩
  · have ha := ht.alike (ne_of_mem_of_not_mem hh hK).symm (.inl hl)
    exact ⟨c, (live_iff_of_alike ha).2 hl, hK, hw⟩

end Touches

theorem touches_alter {f : Status → Status} (hg : (σ.status h.index).generation = h.generation)
    (hf : (f (σ.status h.index)).generation = (σ.status h.index).generation) :
    σ.Touches (σ.alter h.index f) h := by
  refine ⟨hg, ?_, fun i hi => ?_⟩
  · rw [status_alter_self, hf, hg]
  · rw [status_alter_of_ne hi]
    exact .refl _

theorem Touches.withPorts (ht : σ.Touches τ h) (t : PortTable) : σ.Touches (τ.withPorts t) h :=
  ⟨ht.before, ht.after, ht.others⟩

theorem touches_shut (hl : σ.Live h) : σ.Touches (σ.shut h) h :=
  ⟨hl.1, (live_shut hl).1, fun _ hi => alike_shut hi⟩

theorem touches_rank (hl : σ.Live h) (priority : UInt8) : σ.Touches (σ.rank h priority) h := by
  have ht := touches_alter (f := Status.ranked priority) hl.1 rfl
  refine ⟨ht.before, ?_, ?_⟩
  · rw [status_rank]
    exact ht.after
  · rw [status_rank]
    exact ht.others

/-! ## The backlog of one connection changes -/

theorem mem_update_nil {j : Nat} : c ∈ Function.update w i [] j ↔ j ≠ i ∧ c ∈ w j := by
  by_cases hj : j = i
  · subst hj
    simp
  · simp [hj]

/-- A backlog is emptied. -/
theorem Owned.clear (ho : σ.Owned w K) (i : Nat) : σ.Owned (Function.update w i []) K :=
  fun j c hc hK => ho j c (mem_update_nil.1 hc).2 hK

/-- Who waited in it is lost, if nobody knows it. -/
theorem Owned.lost_clear (ho : σ.Owned w K) (i : Nat) :
    σ.Lost (Function.update w i []) K ↔ σ.Lost w K ∨ ∃ c ∈ w i, σ.Live c ∧ c ∉ K := by
  constructor
  · rintro ⟨c, hl, hK, hw⟩
    by_cases hi : c ∈ w i
    · exact .inr ⟨c, hi, hl, hK⟩
    · refine .inl ⟨c, hl, hK, fun j hj => hw j (mem_update_nil.2 ⟨?_, hj⟩)⟩
      rintro rfl
      exact hi hj
  · rintro (⟨c, hl, hK, hw⟩ | ⟨c, hi, hl, hK⟩) <;> refine ⟨c, hl, hK, fun j hj => ?_⟩
    · exact hw j (mem_update_nil.1 hj).2
    · -- a child waits in one backlog only
      obtain ⟨hne, hcj⟩ := mem_update_nil.1 hj
      exact hne (ho.index_eq hcj hi hK)

/-- Handles are taken out of a backlog. None of them is lost if every child among them is
known afterwards, and only they become known. -/
theorem Owned.take {taken rest learned : List Handle} (ho : σ.Owned w K) (hl : σ.Live h)
    (hw : w h.index = taken ++ rest)
    (hfound : ∀ c ∈ taken, (∃ peer, σ.ChildFor h peer c) → c ∈ learned)
    (htaken : ∀ c ∈ learned, c ∈ taken) :
    σ.Owned (Function.update w h.index rest) (learned ++ K) ∧
      (σ.Lost (Function.update w h.index rest) (learned ++ K) ↔ σ.Lost w K) := by
  have hless : ∀ i c, c ∈ Function.update w h.index rest i → c ∈ w i := by
    intro i c hc
    by_cases hi : i = h.index
    · rw [hi, Function.update_self] at hc
      rw [hi, hw]
      exact List.mem_append_right _ hc
    · rwa [Function.update_of_ne hi] at hc
  refine ⟨fun i c hc hK => ho i c (hless i c hc) fun h => hK (List.mem_append_right _ h), ?_⟩
  constructor
  · rintro ⟨c, hc, hK, hno⟩
    have hKc : c ∉ K := fun h => hK (List.mem_append_right _ h)
    refine ⟨c, hc, hKc, fun i hi => ?_⟩
    -- it would have been taken out, and then it is known
    by_cases hih : i = h.index
    · subst hih
      obtain ⟨peer, hchild⟩ := ho _ c hi hKc
      rw [hl.eta] at hchild
      rw [hw] at hi
      obtain hi | hi := List.mem_append.1 hi
      · exact hK (List.mem_append_left _ (hfound c hi ⟨peer, hchild⟩))
      · exact hno h.index (by rw [Function.update_self]; exact hi)
    · exact hno i (by rw [Function.update_of_ne hih]; exact hi)
  · rintro ⟨c, hc, hK, hno⟩
    refine ⟨c, hc, fun hk => ?_, fun i hi => hno i (hless i c hi)⟩
    obtain hk | hk := List.mem_append.1 hk
    · refine hno h.index ?_
      rw [hw]
      exact List.mem_append_left _ (htaken c hk)
    · exact hK hk

/-! ## A child is made -/

/-- A slot that is not in use has no backlog. -/
def Tidy (σ : Census) (w : Nat → List Handle) : Prop := ∀ i, (σ.status i).phase = .free → w i = []

theorem Tidy.used (hσ : σ.Tidy w) (hc : c ∈ w i) : (σ.status i).phase ≠ .free := by
  intro hfree
  rw [hσ i hfree] at hc
  cases hc

namespace Spawns

variable {child : Handle}

theorem index_ne (hs : σ.Spawns τ child) (hl : σ.Live c) : c.index ≠ child.index := by
  intro hi
  rw [Live, hi] at hl
  exact hl.2 hs.free

theorem live (hs : σ.Spawns τ child) (hl : σ.Live c) : τ.Live c :=
  (live_iff_of_alike (hs.others _ (hs.index_ne hl))).2 hl

theorem live_of_ne (hs : σ.Spawns τ child) (hi : c.index ≠ child.index) (hl : τ.Live c) :
    σ.Live c := (live_iff_of_alike (hs.others _ hi)).1 hl

theorem owned (hs : σ.Spawns τ child) (hσ : σ.Tidy w) (ho : σ.Owned w K) : τ.Owned w K := by
  intro i c hc hK
  have hi : i ≠ child.index := by
    rintro rfl
    exact hσ.used hc hs.free
  obtain ⟨peer, hchild⟩ := ho i c hc hK
  rw [(hs.others i hi).generation]
  exact ⟨peer, hchild.of_alike (hs.others _ (hs.index_ne hchild.live))⟩

/-- The child did not last. -/
theorem lost_iff (hs : σ.Spawns τ child) (hfree : (τ.status child.index).phase = .free) :
    τ.Lost w K ↔ σ.Lost w K := by
  constructor <;> rintro ⟨c, hl, hK, hw⟩
  · have hi : c.index ≠ child.index := by
      intro hi
      rw [Live, hi] at hl
      exact hl.2 hfree
    exact ⟨c, hs.live_of_ne hi hl, hK, hw⟩
  · exact ⟨c, hs.live hl, hK, hw⟩

theorem mem_update_append {i j : Nat} : c ∈ Function.update w i (w i ++ [child]) j ↔
    c ∈ w j ∨ j = i ∧ c = child := by
  by_cases hj : j = i
  · subst hj
    simp
  · simp [hj]

/-- The child waits for its parent. -/
theorem owned_of_waiting (hs : σ.Spawns τ child) (hσ : σ.Tidy w) (ho : σ.Owned w K)
    (hp : σ.Live parent) (hc : τ.ChildFor parent peer child) :
    τ.Owned (Function.update w parent.index (w parent.index ++ [child])) K := by
  intro i c hcw hK
  obtain hcw | ⟨rfl, rfl⟩ := mem_update_append.1 hcw
  · exact hs.owned hσ ho i c hcw hK
  · rw [(hs.live hp).eta]
    exact ⟨peer, hc⟩

theorem lost_iff_of_waiting (hs : σ.Spawns τ child) (hl : τ.Live child) :
    τ.Lost (Function.update w parent.index (w parent.index ++ [child])) K ↔ σ.Lost w K := by
  constructor
  · rintro ⟨c, hc, hK, hno⟩
    have hi : c.index ≠ child.index := by
      intro hi
      obtain rfl := hc.eq_of_index_eq hl hi
      exact hno parent.index (mem_update_append.2 (.inr ⟨rfl, rfl⟩))
    exact ⟨c, hs.live_of_ne hi hc, hK, fun i hcw => hno i (mem_update_append.2 (.inl hcw))⟩
  · rintro ⟨c, hc, hK, hno⟩
    refine ⟨c, hs.live hc, hK, fun i hcw => ?_⟩
    obtain hcw | ⟨-, rfl⟩ := mem_update_append.1 hcw
    · exact hno i hcw
    · exact hs.index_ne hc rfl

end Spawns

/-! ## Connections are freed -/

namespace Frees

variable {roots : List Handle}

/-- Who is left still has the listener that it waits for. -/
theorem stays (hf : σ.Frees w roots τ w') (hσ : σ.Tidy w) (hc : c ∈ w i) (hl : τ.Live c) :
    (τ.status i).phase ≠ .free :=
  fun hfree => hf.taken i (hσ.used hc) hfree c hc hl

/-- Who is not freed and waits nowhere is left. -/
theorem spares (hf : σ.Frees w roots τ w') (hl : σ.Live c) (hr : c ∉ roots)
    (hw : ∀ i, c ∉ w i) : τ.Live c := by
  by_contra hn
  obtain hroot | ⟨i, -, -, hi⟩ := hf.cause c hl hn
  · exact hr hroot
  · exact hw i hi

theorem owned (hf : σ.Frees w roots τ w') (hτ : τ.Tidy w') (hr : ∀ h ∈ roots, h ∈ K)
    (ho : σ.Owned w K) : τ.Owned w' K := by
  intro i c hc hK
  have hi := hτ.used hc
  rw [hf.kept i hi] at hc
  obtain ⟨peer, hchild⟩ := ho i c hc hK
  rw [(hf.alike i hi).generation]
  refine ⟨peer, hchild.of_alike (hf.alike _ ?_)⟩
  -- it would have gone with a connection that it waits for, and that is still there
  intro hfree
  obtain hroot | ⟨j, -, hj, hcj⟩ := hf.cause c hchild.live fun hl => hl.2 hfree
  · exact hK (hr c hroot)
  · exact hi (ho.index_eq hc hcj hK ▸ hj)

theorem lost_iff (hf : σ.Frees w roots τ w') (hσ : σ.Tidy w) (hτ : τ.Tidy w')
    (hr : ∀ h ∈ roots, h ∈ K) : τ.Lost w' K ↔ σ.Lost w K := by
  constructor <;> rintro ⟨c, hl, hK, hw⟩
  · refine ⟨c, hf.live hl, hK, fun i hi => hw i ?_⟩
    rw [hf.kept i (hf.stays hσ hi hl)]
    exact hi
  · refine ⟨c, hf.spares hl (fun hroot => hK (hr c hroot)) hw, hK, fun i hi => hw i ?_⟩
    rw [← hf.kept i (hτ.used hi)]
    exact hi

/-- Everything that is known is freed. Who is left then was lost before: a child that waits
goes with its listener, and a listener waits nowhere itself. -/
theorem exists_live_iff (hf : σ.Frees w roots τ w') (hσ : σ.Tidy w)
    (hr : ∀ h, h ∈ roots ↔ h ∈ K ∧ σ.Live h) (ho : σ.Owned w K)
    (hleaf : ∀ parent peer c, σ.ChildFor parent peer c → w c.index = []) :
    (∃ c, τ.Live c) ↔ σ.Lost w K := by
  have hunknown : ∀ c, τ.Live c → c ∉ K := fun c hl hK =>
    hf.freed c ((hr c).2 ⟨hK, hf.live hl⟩) hl
  constructor
  · rintro ⟨c, hl⟩
    by_contra hnone
    have hwaits : ∀ c, τ.Live c → ∃ i, c ∈ w i := by
      intro c hl
      by_contra hno
      exact hnone ⟨c, hf.live hl, hunknown c hl, fun i hi => hno ⟨i, hi⟩⟩
    obtain ⟨i, hi⟩ := hwaits c hl
    -- its listener is left as well, and waits for somebody, which makes it a child
    have hparent : τ.Live ⟨i, (τ.status i).generation⟩ := ⟨rfl, hf.stays hσ hi hl⟩
    obtain ⟨j, hj⟩ := hwaits _ hparent
    obtain ⟨peer, hchild⟩ := ho j _ hj (hunknown _ hparent)
    rw [hleaf _ _ _ hchild] at hi
    cases hi
  · rintro ⟨c, hl, hK, hw⟩
    exact ⟨c, hf.spares hl (fun hroot => hK ((hr c).1 hroot).1) hw⟩

end Frees

end Census

/-! ## One operation -/

namespace Pool

open Census (Touches)

variable {p q : Pool} {K : List Handle} {h : Handle} {lost : Prop}

/-- Every live connection is known or waits for one that is, but for those that were lost. -/
def Accounted (p : Pool) (K : List Handle) (lost : Prop) : Prop :=
  ∃ w, p.Backlogs w ∧ p.census.Owned w K ∧ (p.census.Lost w K ↔ lost)

theorem Backlogs.tidy {w : Nat → List Handle} (hw : p.Backlogs w) (hfam : p.census.Family) :
    p.census.Tidy w := fun _ hi => hw.vacant hfam hi

theorem Accounted.same (ha : p.Accounted K lost) (hs : p.SameBacklogs q)
    (hc : q.census = p.census) : q.Accounted K lost := by
  obtain ⟨w, hw, ho, hlost⟩ := ha
  refine ⟨w, hs.backlogs hw, ?_⟩
  rw [hc]
  exact ⟨ho, hlost⟩

theorem Accounted.touch (ha : p.Accounted K lost) (hs : p.SameBacklogs q)
    (ht : p.census.Touches q.census h) (hh : h ∈ K) : q.Accounted K lost := by
  obtain ⟨w, hw, ho, hlost⟩ := ha
  exact ⟨w, hs.backlogs hw, ht.owned hh ho, (ht.lost_iff hh).trans hlost⟩

theorem Accounted.bind (ha : p.Accounted K lost) (hh : h ∈ K) (port : UInt8) :
    (p.bind h port).1.Accounted K lost := by
  obtain ⟨e, he⟩ | ⟨lport, hl, -, -, hc⟩ := bind_cases p h port
  · rw [he]
    exact ha
  · refine ha.touch (sameStores_bind h port).sameBacklogs ?_ hh
    rw [hc]
    exact Census.touches_alter hl.1 rfl

theorem Accounted.connect (ha : p.Accounted K lost) (hh : h ∈ K) (peer : Peer) :
    (p.connect h peer).1.Accounted K lost := by
  obtain ⟨e, he⟩ | ⟨lport, t, hl, -, -, hc⟩ := connect_cases p h peer
  · rw [he]
    exact ha
  · refine ha.touch (sameStores_connect h peer).sameBacklogs ?_ hh
    rw [hc]
    exact (Census.touches_alter hl.1 rfl).withPorts t

theorem Accounted.setPriority (ha : p.Accounted K lost) (hh : h ∈ K) (priority : UInt8) :
    (p.setPriority h priority).1.Accounted K lost := by
  obtain ⟨-, he⟩ | ⟨hl, hc⟩ := setPriority_cases p h priority
  · rw [he]
    exact ha
  · refine ha.touch (sameStores_setPriority h priority).sameBacklogs ?_ hh
    rw [hc]
    exact Census.touches_rank hl priority

theorem Accounted.updateOptions (ha : p.Accounted K lost) (hh : h ∈ K) (f : Options → Options) :
    (p.updateOptions h f).1.Accounted K lost := by
  obtain he | ⟨hl, hc⟩ := updateOptions_cases p h f
  · rw [he]
    exact ha
  · refine ha.touch (sameStores_updateOptions h f).sameBacklogs ?_ hh
    rw [hc]
    exact Census.touches_alter hl.1 rfl

theorem Accounted.close (ha : p.Accounted K lost) (hh : h ∈ K) :
    (p.close h).1.Accounted K lost := by
  obtain ⟨-, he⟩ | ⟨-, -, he⟩ | ⟨hl, -, -, hc⟩ := close_cases p h
  · rw [he]
    exact ha
  · rw [he]
    exact ha
  · refine ha.touch (sameBacklogs_close h) ?_ hh
    rw [hc]
    exact Census.touches_shut hl

theorem Accounted.free (ha : p.Accounted K lost) (hfam : p.census.Family) (hh : h ∈ K) :
    (p.free h).1.Accounted K lost := by
  obtain ⟨w, hw, ho, hlost⟩ := ha
  obtain ⟨w', hw', hf⟩ := free_frees hw h
  have hfam' := (endings_free p h).invariant (fun _ _ he hσ => hσ.ending he) hfam
  have hroot : ∀ k ∈ [h], k ∈ K := fun k hk => List.mem_singleton.1 hk ▸ hh
  exact ⟨w', hw', hf.owned (hw'.tidy hfam') hroot ho,
    (hf.lost_iff (hw.tidy hfam) (hw'.tidy hfam') hroot).trans hlost⟩

theorem mem_toList_toOption {α : Type} {result : Except Error α} {a : α} :
    a ∈ result.toOption.toList ↔ result = .ok a := by
  cases result <;> simp [Except.toOption, eq_comm]

/-- A slot that is handed out is known from then on. -/
theorem Accounted.alloc (ha : p.Accounted K lost) (hfam : p.census.Family) :
    p.alloc.1.Accounted (p.alloc.2.toOption.toList ++ K) lost := by
  obtain ⟨w, hw, ho, hlost⟩ := ha
  obtain ⟨e, he⟩ | ⟨i, -, hfree, hok, hc⟩ := alloc_cases p
  · rw [he]
    exact ⟨w, hw, ho, hlost⟩
  · have ht : p.census.Touches p.alloc.1.census ⟨i, (p.census.status i).generation⟩ := by
      rw [hc]
      exact Census.touches_alter (h := ⟨i, _⟩) (f := Status.claimed) rfl rfl
    have hhead := List.mem_cons_self (a := (⟨i, (p.census.status i).generation⟩ : Handle)) (l := K)
    rw [hok]
    refine ⟨w, hw.alloc hfam, ht.owned hhead fun j c hcw hK => ?_, (ht.lost_iff hhead).trans ?_⟩
    · exact ho j c hcw fun hk => hK (.tail _ hk)
    · -- nobody had this handle: the slot was free
      rw [← hlost]
      constructor <;> rintro ⟨c, hl, hK, hno⟩ <;> refine ⟨c, hl, fun hk => ?_, hno⟩
      · exact hK (.tail _ hk)
      · obtain rfl | hk := List.mem_cons.1 hk
        · exact hl.2 hfree
        · exact hK hk

/-- A child that is accepted is known from then on. -/
theorem Accounted.accept (ha : p.Accounted K lost) (timeout : Timeout) :
    (p.accept h timeout).1.Accounted ((p.accept h timeout).2.toOption.toList ++ K) lost := by
  obtain ⟨w, hw, ho, hlost⟩ := ha
  obtain ⟨e, he⟩ | ⟨hl, taken, rest, hxs, hback, hfound, htaken⟩ := hw.accept h timeout
  · rw [he]
    exact ⟨w, hw, ho, hlost⟩
  · obtain ⟨ho', hlost'⟩ := ho.take hl hxs
      (fun c hc hchild => mem_toList_toOption.2 (hfound c hc (isPendingChild_iff.2 hchild)))
      (fun c hc => htaken c (mem_toList_toOption.1 hc))
    refine ⟨_, hback, ?_⟩
    rw [census_accept]
    exact ⟨ho', hlost'.trans hlost⟩

/-- A child that is offered waits for its listener. -/
theorem Accounted.offerChild (ha : p.Accounted K lost) (hfam : p.census.Family)
    (parent : Handle) (peer : Peer) : (p.offerChild parent peer).1.Accounted K lost := by
  obtain ⟨w, hw, ho, hlost⟩ := ha
  obtain he | ⟨child, q, he, hs, ⟨hp, -, hc, hback⟩ | ⟨hfree, hback⟩⟩ :=
    hw.offerChild hfam parent peer
  · rw [he]
    exact ⟨w, hw, ho, hlost⟩
  · rw [he]
    exact ⟨_, hback, hs.owned_of_waiting (hw.tidy hfam) ho hp hc,
      (hs.lost_iff_of_waiting hc.live).trans hlost⟩
  · rw [he]
    exact ⟨w, hback, hs.owned (hw.tidy hfam) ho, (hs.lost_iff hfree).trans hlost⟩

theorem Accounted.resolveInbound (ha : p.Accounted K lost) (hfam : p.census.Family)
    (dstPort : UInt8) (peer : Peer) : (p.resolveInbound dstPort peer).1.Accounted K lost := by
  unfold Pool.resolveInbound
  split
  · exact ha
  · exact ha
  · next conn _ =>
    have h := ha.offerChild hfam conn peer
    split <;> rename_i hq <;> rw [hq] at h <;> exact h

/-- Whether a step drops a child that nobody knows: a connection listens again, and in its
old backlog there is such a child. -/
def drops (p : Pool) (known : List Handle) : Op → Bool
  | .listen h backlog =>
    (p.slotAt h.index).phase = .bound && ((p.listen h backlog).1.slotAt h.index).phase = .listen &&
      (p.slotAt h.index).role.pending.any fun c => (p.slot? c).isSome && c ∉ known
  | _ => false

theorem Accounted.listen (ha : p.Accounted K lost) (hh : h ∈ K) (backlog : Nat) :
    (p.listen h backlog).1.Accounted K (lost ∨ p.drops K (.listen h backlog) = true) := by
  obtain ⟨w, hw, ho, hlost⟩ := ha
  obtain ⟨e, he⟩ | ⟨t, hl, hbound, hc, hback⟩ := hw.listen h backlog
  · have hno : p.drops K (.listen h backlog) = false := by
      rw [drops, he]
      cases hp : (p.slotAt h.index).phase <;> simp
    rw [he, hno]
    exact ⟨w, hw, ho, hlost.trans (by simp)⟩
  · have hlisten : ((p.listen h backlog).1.slotAt h.index).phase = .listen := by
      show ((p.listen h backlog).1.census.status h.index).phase = .listen
      rw [hc, Census.status_withPorts, Census.status_alter_self]
      rfl
    have hdrops : p.drops K (.listen h backlog) = true ↔
        ∃ c ∈ w h.index, p.census.Live c ∧ c ∉ K := by
      rw [drops, show (p.slotAt h.index).phase = .bound from hbound, hlisten, hw.pending]
      simp [live_iff, Option.isSome_iff_exists]
    have ht := (Census.touches_alter (f := Status.listening) hl.1 rfl).withPorts t
    refine ⟨_, hback, ?_⟩
    rw [hc, hdrops]
    exact ⟨ht.owned hh (ho.clear _), (ht.lost_iff hh).trans
      ((ho.lost_clear _).trans (or_congr hlost Iff.rfl))⟩

theorem Accounted.congr {K' : List Handle} {lost' : Prop} (ha : p.Accounted K lost)
    (hK : ∀ c, c ∈ K' ↔ c ∈ K) (hlost : lost' ↔ lost) : p.Accounted K' lost' := by
  obtain ⟨w, hw, ho, hl⟩ := ha
  refine ⟨w, hw, fun i c hc hk => ho i c hc fun h => hk ((hK c).2 h), Iff.trans ?_ hlost.symm⟩
  rw [← hl]
  exact exists_congr fun c => and_congr_right fun _ => and_congr_left fun _ => not_congr (hK c)

end Pool

/-! ## Runs -/

open Pool (Op)

/-- Whether an operation is open to an application that knows these connections. Packets may
be delivered to any connection, which is how children come about; anything else is done to
one that is known, and nobody waits. -/
def Pool.Op.openTo (known : List Handle) : Op → Bool
  | offerChild _ _ | resolveInbound _ _ | rxPush _ _ => true
  | beginPush _ _ | beginPop _ | beginAccept _ | wake _ | expire _ => false
  | op => op.subject.all (· ∈ known)

namespace System

variable {s : System} {K : List Handle} {c : Handle} {op : Op} {ops : List Op}

/-- The handles that an application learns from a step: it is handed out a connection, or
accepts one. -/
def learned (s : System) : Op → List Handle
  | .alloc => s.pool.alloc.2.toOption.toList
  | .accept h timeout => (s.pool.accept h timeout).2.toOption.toList
  | _ => []

/-- The handles that an application learns from a run. -/
def known : System → List Op → List Handle
  | _, [] => []
  | s, op :: ops => s.learned op ++ known (s.step op).1 ops

theorem mem_known_snoc :
    c ∈ s.known (ops ++ [op]) ↔ c ∈ (s.run ops).learned op ++ s.known ops := by
  induction ops generalizing s with
  | nil => rw [List.nil_append, known, known, run_nil, known]
  | cons o ops ih =>
    rw [List.cons_append, known, known, run_cons]
    simp only [List.mem_append] at ih ⊢
    rw [ih]
    exact or_left_comm

theorem accounted_step {lost : Prop} (hfam : s.pool.census.Family)
    (ha : s.pool.Accounted K lost) (hop : op.openTo K = true) :
    (s.step op).1.pool.Accounted (s.learned op ++ K) (lost ∨ s.pool.drops K op = true) := by
  -- all operations but one drop nobody
  have hkeep : ∀ {q : Pool} {K' : List Handle}, q.Accounted K' lost →
      q.Accounted K' (lost ∨ false = true) := fun h => h.congr (fun _ => Iff.rfl) (by simp)
  cases op with
  | alloc => exact hkeep (ha.alloc hfam)
  | bind h port => exact hkeep (ha.bind (of_decide_eq_true hop) port)
  | listen h backlog => exact ha.listen (of_decide_eq_true hop) backlog
  | connect h peer => exact hkeep (ha.connect (of_decide_eq_true hop) peer)
  | setPriority h priority => exact hkeep (ha.setPriority (of_decide_eq_true hop) priority)
  | setRecvTimeout h timeout => exact hkeep (ha.updateOptions (of_decide_eq_true hop) _)
  | setSendTimeout h timeout => exact hkeep (ha.updateOptions (of_decide_eq_true hop) _)
  | offerChild parent peer => exact hkeep (ha.offerChild hfam parent peer)
  | resolveInbound dstPort peer => exact hkeep (ha.resolveInbound hfam dstPort peer)
  | accept h timeout => exact hkeep (ha.accept timeout)
  | rxPush h packet =>
    exact hkeep (ha.same (Pool.sameBacklogs_rxPush h packet) (Pool.census_rxPush h packet))
  | rxPop h timeout =>
    exact hkeep (ha.same (Pool.sameBacklogs_rxPop h timeout) (Pool.census_rxPop h timeout))
  | rxFlush h => exact hkeep (ha.same (Pool.sameBacklogs_rxFlush h) (Pool.census_rxFlush h))
  | close h => exact hkeep (ha.close (of_decide_eq_true hop))
  | free h => exact hkeep (ha.free hfam (of_decide_eq_true hop))
  | options _ | phase _ | info _ | events _ | rxQueue _ => exact hkeep ha
  | attachMonitor | dropMonitor | readEvents => exact hkeep (ha.same ⟨fun _ => rfl⟩ rfl)
  | beginPush _ _ | beginPop _ | beginAccept _ | wake _ | expire _ => cases hop

theorem pool_run_free (s : System) (hs : List Handle) :
    (s.run (hs.map .free)).pool = hs.foldl (fun p h => (p.free h).1) s.pool := by
  induction hs generalizing s with
  | nil => rfl
  | cons h hs ih => exact ih _

end System

namespace Pool

theorem accounted_new {c : Config} {p : Pool} (h : new c = .ok p) : p.Accounted [] False := by
  refine ⟨fun _ => [], fun i => ?_, by rintro i c ⟨⟩, iff_of_false ?_ id⟩
  · rw [slotAt_new h]
    exact rfl
  · rintro ⟨c, hl, -, -⟩
    rw [census_new h] at hl
    exact hl.2 rfl

theorem accounted_run {c : Config} {p : Pool} (hnew : new c = .ok p) {ops : List Op}
    (hops : ∀ pre op, pre ++ [op] <+: ops → op.openTo (p.atRest.known pre) = true) :
    (p.atRest.run ops).pool.Accounted (p.atRest.known ops)
      (∃ pre op, pre ++ [op] <+: ops ∧
        (p.atRest.run pre).pool.drops (p.atRest.known pre) op = true) := by
  induction ops using List.reverseRecOn with
  | nil =>
    refine (accounted_new hnew).congr (fun _ => Iff.rfl) (iff_false_intro ?_)
    rintro ⟨pre, op, hpre, -⟩
    exact absurd (List.prefix_nil.1 hpre) (by simp)
  | append_singleton ops op ih =>
    have ha := ih fun pre op' hpre => hops pre op' (hpre.trans (List.prefix_append _ _))
    have hstep := System.accounted_step (family_run hnew ops) ha (hops ops op List.prefix_rfl)
    rw [System.run_snoc]
    refine hstep.congr (fun _ => System.mem_known_snoc) ⟨?_, ?_⟩
    · rintro ⟨pre, op', hpre, hd⟩
      obtain heq | hpre := List.prefix_concat_iff.1 hpre
      · obtain ⟨rfl, hop⟩ := List.append_inj' heq rfl
        obtain rfl := List.singleton_inj.1 hop
        exact .inr hd
      · exact .inl ⟨pre, op', hpre, hd⟩
    · rintro (⟨pre, op', hpre, hd⟩ | hd)
      · exact ⟨pre, op', hpre.trans (List.prefix_append _ _), hd⟩
      · exact ⟨ops, op, List.prefix_rfl, hd⟩

theorem inUse_eq_zero_iff {p : Pool} : p.inUse = 0 ↔ ¬ ∃ h, p.census.Live h := by
  rw [inUse, Array.countP_eq_zero, not_exists]
  constructor
  · intro hfree h hl
    obtain ⟨s, hs⟩ := live_iff.1 hl
    obtain ⟨hget, -, hp⟩ := slot?_eq_some_iff.1 hs
    exact hfree s (Array.mem_of_getElem? hget) (decide_eq_true hp)
  · intro hnone s hs hp
    obtain ⟨i, hi⟩ := Array.mem_iff_getElem?.1 hs
    exact hnone ⟨i, s.generation⟩
      (live_of_slot? (slot?_eq_some_iff.2 ⟨hi, rfl, of_decide_eq_true hp⟩))

/-- An application frees all connections that it was handed out or accepted. The pool is then
empty exactly if it never listened again on a connection in whose backlog a child waited that
it does not know. -/
theorem no_slot_leaks_iff {c : Config} {p : Pool} (hnew : new c = .ok p) (ops : List Op)
    (hops : ∀ pre op, pre ++ [op] <+: ops → op.openTo (p.atRest.known pre) = true)
    (hs : List Handle) (hhs : ∀ h, h ∈ hs ↔ h ∈ p.atRest.known ops ∧
      (p.atRest.run ops).pool.census.Live h) :
    (p.atRest.run (ops ++ hs.map .free)).pool.inUse = 0 ↔
      ∀ pre op, pre ++ [op] <+: ops →
        (p.atRest.run pre).pool.drops (p.atRest.known pre) op = false := by
  obtain ⟨w, hw, ho, hlost⟩ := accounted_run hnew hops
  have hfam := family_run hnew ops
  rw [System.run_append, System.pool_run_free, inUse_eq_zero_iff]
  obtain ⟨w', -, hf⟩ := foldl_frees (f := fun p h => (p.free h).1)
    (fun q v c hv _ => free_frees hv c) hs hw (Nat.le_refl _)
  -- a child has no backlog of its own
  have hleaf : ∀ parent peer c, (p.atRest.run ops).pool.census.ChildFor parent peer c →
      w c.index = [] := fun _ _ c hchild =>
    (hw c.index).of_parent? ((Role.parent?_kin _).symm.trans hchild.parent)
  rw [hf.exists_live_iff (hw.tidy hfam) hhs ho hleaf, hlost]
  simp only [not_exists, not_and, Bool.not_eq_true]

/-- A listener closes and listens again after its first child was accepted. A second one waits
in the new backlog, and goes with the listener. -/
theorem no_slot_leaks_after_accept :
    ∃ p, new { maxConnections := 3 } = .ok p ∧
      (p.atRest.run ([.alloc, .bind ⟨0, 0⟩ 5, .listen ⟨0, 0⟩ 4, .offerChild ⟨0, 0⟩ ⟨0x42, 3⟩,
          .accept ⟨0, 0⟩ none, .close ⟨0, 0⟩, .bind ⟨0, 0⟩ 5, .listen ⟨0, 0⟩ 4,
          .offerChild ⟨0, 0⟩ ⟨0x43, 3⟩] ++ [⟨1, 0⟩, ⟨0, 0⟩].map .free)).pool.inUse = 0 := by
  refine ⟨_, rfl, (no_slot_leaks_iff (c := { maxConnections := 3 }) rfl _ ?_ _ fun h => ?_).2 ?_⟩
  · exact System.forall_prefix_iff.2 (by decide +kernel)
  · rw [show System.known _ _ = [⟨0, 0⟩, ⟨1, 0⟩] by decide +kernel]
    constructor
    · intro hm
      obtain rfl | rfl : h = ⟨1, 0⟩ ∨ h = ⟨0, 0⟩ := by simpa using hm
      all_goals exact ⟨by decide, by decide +kernel⟩
    · rintro ⟨hm, -⟩
      simpa [or_comm] using hm
  · exact System.forall_prefix_iff.2 (by decide +kernel)

/-- A listener closes and listens again while a child waits to be accepted. When the one
connection that was handed out is freed, the child keeps its slot. -/
theorem slot_kept_by_dropped_child :
    ∃ p, new { maxConnections := 2 } = .ok p ∧
      (∀ pre op, pre ++ [op] <+: [Op.alloc, .bind ⟨0, 0⟩ 5, .listen ⟨0, 0⟩ 4,
          .offerChild ⟨0, 0⟩ ⟨0x42, 3⟩, .close ⟨0, 0⟩, .bind ⟨0, 0⟩ 5, .listen ⟨0, 0⟩ 4] →
        op.openTo (p.atRest.known pre) = true) ∧
      p.atRest.known [.alloc, .bind ⟨0, 0⟩ 5, .listen ⟨0, 0⟩ 4, .offerChild ⟨0, 0⟩ ⟨0x42, 3⟩,
        .close ⟨0, 0⟩, .bind ⟨0, 0⟩ 5, .listen ⟨0, 0⟩ 4] = [⟨0, 0⟩] ∧
      (p.atRest.run [.alloc, .bind ⟨0, 0⟩ 5, .listen ⟨0, 0⟩ 4, .offerChild ⟨0, 0⟩ ⟨0x42, 3⟩,
        .close ⟨0, 0⟩, .bind ⟨0, 0⟩ 5, .listen ⟨0, 0⟩ 4]).pool.census.Live ⟨0, 0⟩ ∧
      (p.atRest.run ([.alloc, .bind ⟨0, 0⟩ 5, .listen ⟨0, 0⟩ 4, .offerChild ⟨0, 0⟩ ⟨0x42, 3⟩,
        .close ⟨0, 0⟩, .bind ⟨0, 0⟩ 5, .listen ⟨0, 0⟩ 4] ++
          [⟨0, 0⟩].map .free)).pool.inUse = 1 := by
  refine ⟨_, rfl, System.forall_prefix_iff.2 ?_, ?_⟩ <;> decide +kernel

end Pool

end Netstack
