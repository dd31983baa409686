import Netstack.Proofs.Pool.Backlogs
import Netstack.Proofs.Pool.Freshness
import Netstack.Proofs.Pool.MonitorLog

/-
Freeing a connection comes to an end.

A connection that is freed frees whoever stands in its backlog, and these free whoever stands in
theirs. Nothing in a backlog says that this ends: its handles may be stale, and one that is live
may be listening with a backlog of its own. It ends because a connection gives its slot back
before its backlog is gone through, so there is one connection less to be found there. Below are
the calls themselves, as they are made (`Unwinds`), with no bound on how deep they go, and the
account of what they do to the slots (`Tally`).
-/

set_option autoImplicit false

namespace Netstack

namespace Pool

variable {p q r : Pool} {h k : Handle} {roots roots' gone gone' : List Handle} {depth i : Nat}

/-! ## The calls -/

/-- Connections are freed one after the other. Told are those whose freeing succeeded, each of
them in front of those that were freed with it. -/
inductive Unwinds : Pool → List Handle → Pool → List Handle → Prop
  | done (p : Pool) : Unwinds p [] p []
  | stale {p q r : Pool} {h : Handle} {roots gone : List Handle} {e : Error}
      (closed : p.close h = (q, .error e)) (left : Unwinds q roots r gone) :
      Unwinds p (h :: roots) r gone
  | freed {p q r s : Pool} {h : Handle} {roots gone gone' : List Handle}
      (closed : p.close h = (q, .ok ()))
      (drained : Unwinds (q.modify h.index Slot.vacated) (q.slotAt h.index).role.pending r gone)
      (left : Unwinds (r.emit (.freed h)) roots s gone') :
      Unwinds p (h :: roots) s (h :: gone ++ gone')

theorem Unwinds.append (h₁ : Unwinds p roots q gone) (h₂ : Unwinds q roots' r gone') :
    Unwinds p (roots ++ roots') r (gone ++ gone') := by
  induction h₁ with
  | done => exact h₂
  | stale closed _ ih => exact .stale closed (ih h₂)
  | freed closed drained _ _ ih =>
    rw [List.append_assoc]
    exact .freed closed drained (ih h₂)

/-- What is done, and to whom, is settled by the pool and the connections. -/
theorem Unwinds.unique (h₁ : Unwinds p roots q gone) (h₂ : Unwinds p roots r gone') :
    q = r ∧ gone = gone' := by
  induction h₁ generalizing r gone' with
  | done =>
    cases h₂
    exact ⟨rfl, rfl⟩
  | stale closed _ ih =>
    cases h₂ with
    | stale closed' left' =>
      obtain rfl := (Prod.ext_iff.1 (closed.symm.trans closed')).1
      exact ih left'
    | freed closed' => cases (Prod.ext_iff.1 (closed.symm.trans closed')).2
  | freed closed _ _ ihdrained ihleft =>
    cases h₂ with
    | stale closed' => cases (Prod.ext_iff.1 (closed.symm.trans closed')).2
    | freed closed' drained' left' =>
      obtain rfl := (Prod.ext_iff.1 (closed.symm.trans closed')).1
      obtain ⟨rfl, rfl⟩ := ihdrained drained'
      obtain ⟨rfl, rfl⟩ := ihleft left'
      exact ⟨rfl, rfl⟩

/-! ## What they do to the slots -/

/-- The slots after these connections were freed: they were live, in a slot each, and of these
slots the generation went up by one. Nothing else begins or ends. -/
structure Tally (p : Pool) (gone : List Handle) (q : Pool) : Prop where
  live : ∀ k ∈ gone, p.census.Live k
  slots : (gone.map Handle.index).Nodup
  generation : ∀ i, (q.census.status i).generation =
    if i ∈ gone.map Handle.index then (p.census.status i).generation + 1
    else (p.census.status i).generation
  phase : ∀ i, (q.census.status i).phase = .free ↔
    (p.census.status i).phase = .free ∨ i ∈ gone.map Handle.index

theorem Tally.of_same (hgeneration : ∀ i, (q.census.status i).generation =
      (p.census.status i).generation)
    (hphase : ∀ i, (q.census.status i).phase = .free ↔ (p.census.status i).phase = .free) :
    p.Tally [] q :=
  ⟨by simp, List.nodup_nil, by simpa using hgeneration, by simpa using hphase⟩

theorem Tally.refl (p : Pool) : p.Tally [] p := .of_same (fun _ => rfl) fun _ => Iff.rfl

theorem tally_emit (p : Pool) (event : ConnEvent) : p.Tally [] (p.emit event) :=
  .of_same (fun _ => rfl) fun _ => Iff.rfl

theorem tally_close (p : Pool) (h : Handle) : p.Tally [] (p.close h).1 := by
  obtain ⟨-, he⟩ | ⟨-, -, he⟩ | ⟨hl, -, -, he⟩ := close_cases p h
  · rw [he]
    exact .refl p
  · rw [he]
    exact .refl p
  · refine .of_same (fun i => ?_) fun i => ?_ <;> rw [he] <;> by_cases hi : i = h.index
    · subst hi
      exact (Census.live_shut hl).1.trans hl.1.symm
    · exact (Census.alike_shut hi).generation
    · subst hi
      exact iff_of_false (Census.live_shut hl).2 hl.2
    · rw [(Census.alike_shut hi).phase]

theorem tally_vacate (hl : p.census.Live h) : p.Tally [h] (p.modify h.index Slot.vacated) := by
  have hgone : ∀ i, i ∈ [h].map Handle.index ↔ i = h.index := fun i => List.mem_singleton
  refine ⟨fun k hk => List.mem_singleton.1 hk ▸ hl, List.nodup_singleton _, fun i => ?_,
    fun i => ?_⟩ <;> simp only [census_vacate hl, hgone] <;> by_cases hi : i = h.index
  · subst hi
    rw [Census.status_alter_self, if_pos rfl]
    rfl
  · rw [Census.status_alter_of_ne hi, if_neg hi]
  · subst hi
    rw [Census.status_alter_self]
    exact iff_of_true rfl (.inr rfl)
  · rw [Census.status_alter_of_ne hi, or_iff_left hi]

/-- Whoever is live afterwards was live before, and in none of the slots. -/
theorem Tally.live_iff (ht : p.Tally gone q) :
    q.census.Live k ↔ p.census.Live k ∧ k.index ∉ gone.map Handle.index := by
  unfold Census.Live
  rw [ne_eq, ht.phase, not_or, ht.generation]
  constructor
  · rintro ⟨hgeneration, hphase, hi⟩
    rw [if_neg hi] at hgeneration
    exact ⟨⟨hgeneration, hphase⟩, hi⟩
  · rintro ⟨⟨hgeneration, hphase⟩, hi⟩
    rw [if_neg hi]
    exact ⟨hgeneration, hphase, hi⟩

theorem Tally.trans (h₁ : p.Tally gone q) (h₂ : q.Tally gone' r) : p.Tally (gone ++ gone') r := by
  -- a slot that was given back has nobody in it
  have hother : ∀ k ∈ gone', p.census.Live k ∧ k.index ∉ gone.map Handle.index :=
    fun k hk => h₁.live_iff.1 (h₂.live k hk)
  refine ⟨fun k hk => ?_, ?_, fun i => ?_, fun i => ?_⟩
  · exact (List.mem_append.1 hk).elim (h₁.live k) fun hk => (hother k hk).1
  · rw [List.map_append, List.nodup_append]
    refine ⟨h₁.slots, h₂.slots, ?_⟩
    rintro i hi j hj rfl
    obtain ⟨k, hk, rfl⟩ := List.mem_map.1 hj
    exact (hother k hk).2 hi
  · rw [h₂.generation, h₁.generation]
    simp only [List.map_append, List.mem_append]
    by_cases hi : i ∈ gone.map Handle.index
    · have hi' : i ∉ gone'.map Handle.index := by
        rintro hj
        obtain ⟨k, hk, rfl⟩ := List.mem_map.1 hj
        exact (hother k hk).2 hi
      simp only [hi, hi', if_true, if_false, true_or]
    · simp only [hi, if_false, false_or]
  · rw [h₂.phase, h₁.phase, List.map_append, List.mem_append, or_assoc]

theorem Unwinds.tally (hu : Unwinds p roots q gone) : p.Tally gone q := by
  induction hu with
  | done p => exact .refl p
  | @stale p q r h roots gone e closed _ ih =>
    have hclose := tally_close p h
    rw [closed] at hclose
    exact hclose.trans ih
  | @freed p q r s h roots gone gone' closed _ _ ihdrained ihleft =>
    have hclose := tally_close p h
    have hlive := (closed_of_close_eq_ok (p := p) (h := h) (by rw [closed])).2.1
    rw [closed] at hclose hlive
    have hdrained := (tally_vacate hlive).trans ihdrained
    exact hclose.trans (hdrained.trans ((tally_emit r (.freed h)).trans ihleft))

/-! ## How many there are -/

theorem Tally.mem_iff (ht : p.Tally gone q) :
    k ∈ gone ↔ p.census.Live k ∧ ¬ q.census.Live k := by
  constructor
  · exact fun hk => ⟨ht.live k hk, fun hl => (ht.live_iff.1 hl).2 (List.mem_map_of_mem hk)⟩
  · rintro ⟨hl, hn⟩
    -- its slot is that of one who is gone, and two of them are not in one slot
    have hslot : k.index ∈ gone.map Handle.index :=
      not_not.1 fun hi => hn (ht.live_iff.2 ⟨hl, hi⟩)
    obtain ⟨k', hk', hindex⟩ := List.mem_map.1 hslot
    exact (ht.live k' hk').eq_of_index_eq hl hindex ▸ hk'

/-- Each of them makes one connection less. -/
theorem Tally.length_add_inUse (ht : p.Tally gone q) : gone.length + q.inUse = p.inUse := by
  have hnodup : (gone ++ q.live).Nodup :=
    List.nodup_append.2 ⟨ht.slots.of_map, q.nodup_live, by
      rintro k hk _ hl rfl
      exact (ht.mem_iff.1 hk).2 (mem_live_iff.1 hl)⟩
  have hperm : (gone ++ q.live).Perm p.live := by
    refine (List.perm_ext_iff_of_nodup hnodup p.nodup_live).2 fun k => ?_
    rw [List.mem_append, mem_live_iff, mem_live_iff, ht.mem_iff]
    by_cases hl : q.census.Live k
    · exact iff_of_true (.inr hl) (ht.live_iff.1 hl).1
    · simp [hl]
  rw [← length_live, ← length_live, ← hperm.length_eq, List.length_append]

/-! ## The end of the recursion -/

theorem not_live_of_inUse_eq_zero (hp : p.inUse = 0) (h : Handle) : ¬ p.census.Live h := by
  rw [← mem_live_iff, List.eq_nil_of_length_eq_zero (p.length_live.trans hp)]
  exact List.not_mem_nil

/-- Connections are freed one after the other, where freeing one of them comes to an end. -/
theorem exists_unwinds_foldl {f : Pool → Handle → Pool}
    (hf : ∀ q c, q.inUse ≤ depth → ∃ gone, Unwinds q [c] (f q c) gone) (roots : List Handle)
    (hp : p.inUse ≤ depth) : ∃ gone, Unwinds p roots (roots.foldl f p) gone := by
  induction roots generalizing p with
  | nil => exact ⟨[], .done p⟩
  | cons c roots ih =>
    obtain ⟨gone, hfirst⟩ := hf p c hp
    have hless := hfirst.tally.length_add_inUse
    obtain ⟨gone', hleft⟩ := ih (p := f p c) (by omega)
    exact ⟨gone ++ gone', hfirst.append hleft⟩

/-- A depth of as many calls as there are connections is enough for all calls. -/
theorem exists_unwinds_freeWithin (hp : p.inUse ≤ depth) (h : Handle) :
    ∃ gone, Unwinds p [h] (freeWithin depth p h).1 gone := by
  induction depth generalizing p h with
  | zero =>
    have hn := not_live_of_inUse_eq_zero (Nat.le_zero.1 hp) h
    exact ⟨[], .stale (by rw [close, not_live_iff.1 hn]) (.done p)⟩
  | succ depth ih =>
    rw [freeWithin]
    cases hclose : p.close h with
    | mk q answer =>
      cases answer with
      | error e => exact ⟨[], .stale hclose (.done q)⟩
      | ok =>
        have hq : (p.close h).1 = q := congrArg Prod.fst hclose
        have hlive := (closed_of_close_eq_ok (p := p) (h := h) (by rw [hclose])).2.1
        have hclosed := (tally_close p h).length_add_inUse
        rw [hq] at hlive hclosed
        have hvacated := (tally_vacate hlive).length_add_inUse
        rw [List.length_nil] at hclosed
        rw [List.length_singleton] at hvacated
        -- the slot is given back first, so there is one connection less in the backlog
        obtain ⟨gone, hdrained⟩ := exists_unwinds_foldl (fun q c hq => ih hq c)
          (q.slotAt h.index).role.pending (p := q.modify h.index Slot.vacated) (by omega)
        exact ⟨h :: gone ++ [], .freed hclose hdrained (.done _)⟩

/-- In every pool and for every handle, freeing comes to an end: the calls that it makes, each
of them freeing whoever stands in the backlog of a connection after it gave its slot back, are
finitely many, and `free` does what they do. It succeeds exactly if the handle is live. The calls
that succeed are for the connections that are gone afterwards, one for each, so there are never
more than there were connections, and each of their slots, and no other, is a generation
further. -/
theorem free_comes_to_an_end (p : Pool) (h : Handle) : ∃ gone,
    Unwinds p [h] (p.free h).1 gone ∧
    (∀ q gone', Unwinds p [h] q gone' → q = (p.free h).1 ∧ gone' = gone) ∧
    (p.free h).2 = (if p.census.Live h then .ok () else .error .staleHandle) ∧
    (∀ k, k ∈ gone ↔ p.census.Live k ∧ ¬ (p.free h).1.census.Live k) ∧
    gone.length + (p.free h).1.inUse = p.inUse ∧
    (gone.map Handle.index).Nodup ∧
    ∀ i, ((p.free h).1.slotAt i).generation =
      if i ∈ gone.map Handle.index then (p.slotAt i).generation + 1
      else (p.slotAt i).generation := by
  obtain ⟨gone, hu⟩ := exists_unwinds_freeWithin p.inUse_le_capacity h
  have htally : p.Tally gone (p.free h).1 := hu.tally
  refine ⟨gone, hu, fun q gone' hu' => hu'.unique hu, ?_, fun k => htally.mem_iff,
    htally.length_add_inUse, htally.slots, htally.generation⟩
  obtain ⟨hn, he⟩ | ⟨hl, he, -⟩ := free_cases p h
  · rw [he, if_neg hn]
  · rw [he, if_pos hl]

/-- In the backlog of a listener stands a child that was closed and listens itself, with a child
in its own backlog, and a handle that is stale. The three connections go, and each of the three
calls that succeed gives back one slot. -/
theorem free_comes_to_an_end_of_nested_listener :
    ∃ p, new { maxConnections := 4 } = .ok p ∧ ∃ q,
      (p.unattended.run [.ask .alloc, .ask (.bind ⟨0, 0⟩ 5), .ask (.listen ⟨0, 0⟩ 4),
        .ask (.offerChild ⟨0, 0⟩ ⟨0x42, 3⟩), .ask (.offerChild ⟨0, 0⟩ ⟨0x43, 3⟩),
        .ask (.free ⟨2, 0⟩), .ask (.close ⟨1, 0⟩), .ask (.bind ⟨1, 0⟩ 6),
        .ask (.listen ⟨1, 0⟩ 4), .ask (.offerChild ⟨1, 0⟩ ⟨0x44, 3⟩)]).pool = q ∧
      q.backlogOf ⟨0, 0⟩ = [⟨1, 0⟩, ⟨2, 0⟩] ∧ q.backlogOf ⟨1, 0⟩ = [⟨2, 1⟩] ∧
      ¬ q.census.Live ⟨2, 0⟩ ∧ q.inUse = 3 ∧ (q.free ⟨0, 0⟩).1.inUse = 0 ∧
      ∃ gone, Unwinds q [⟨0, 0⟩] (q.free ⟨0, 0⟩).1 gone ∧ gone.length = 3 ∧
        ∀ k, k ∈ gone ↔ q.census.Live k := by
  have hends : ∀ q : Pool, q.inUse = 3 → (q.free ⟨0, 0⟩).1.inUse = 0 →
      ∃ gone, Unwinds q [⟨0, 0⟩] (q.free ⟨0, 0⟩).1 gone ∧ gone.length = 3 ∧
        ∀ k, k ∈ gone ↔ q.census.Live k := by
    intro q hthree hnone
    obtain ⟨gone, hu, -, -, hgone, hcount, -⟩ := free_comes_to_an_end q ⟨0, 0⟩
    refine ⟨gone, hu, by omega, fun k => ?_⟩
    rw [hgone, and_iff_left (not_live_of_inUse_eq_zero hnone k)]
  refine ⟨_, rfl, _, rfl, ?_, ?_, ?_, ?_, ?_, hends _ ?_ ?_⟩ <;> decide +kernel

end Pool

end Netstack
