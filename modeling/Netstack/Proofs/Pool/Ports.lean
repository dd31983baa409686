import Netstack.Proofs.Pool.Run
import Netstack.Proofs.Port.Members

/-
The slots of a pool and its port table say the same.

Being registered, the local port, the priority and whether a connection listens stand in
two places: in the slot, and in the list of a port. Operations write the two at different
times and in different orders, and `free` and an offered child that finds no room undo
what was written before.

The invariant is `Census.Filed`. It says of every member that the slot agrees with it, and
of every registered slot that it is on its port once. All moves come down to four changes,
and each of the four keeps it: a slot on no port changes, a slot changes in what no port
knows, a connection comes onto a port, and a connection goes off its port. A new priority
is a going and a coming.
-/

set_option autoImplicit false

namespace Netstack

namespace PortTable

variable {t t' : PortTable}

/-- How often a connection is on a slot. -/
def occurrences (t : PortTable) (i : Fin Port.slotCount) (h : Handle) : Nat :=
  ((t.entry i).members.map PortMember.conn).count h

theorem occurrences_pos_iff {i : Fin Port.slotCount} {h : Handle} :
    0 < t.occurrences i h ↔ ∃ m ∈ (t.entry i).members, m.conn = h := by
  rw [occurrences, List.count_pos_iff, List.mem_map]

theorem Gains.occurrences_self {i : Fin Port.slotCount} {m : PortMember}
    (h : t.Gains t' i m) : t'.occurrences i m.conn = t.occurrences i m.conn + 1 := by
  rw [occurrences, (h.perm.map PortMember.conn).count_eq, List.map_cons, List.count_cons_self]
  rfl

theorem Gains.occurrences_of_ne {i j : Fin Port.slotCount} {m : PortMember} {k : Handle}
    (h : t.Gains t' i m) (hk : k ≠ m.conn) : t'.occurrences j k = t.occurrences j k := by
  by_cases hj : j = i
  · subst hj
    rw [occurrences, (h.perm.map PortMember.conn).count_eq, List.map_cons,
      List.count_cons_of_ne hk.symm]
    rfl
  · rw [occurrences, h.other j hj]
    rfl

end PortTable

/-! ## The invariant -/

/-- What a member of a port says about its connection is so. -/
structure Status.Files (s : Status) (port : Fin Port.slotCount) (m : PortMember) : Prop where
  registered : s.registered = true
  generation : s.generation = m.conn.generation
  lport : s.options.lport.toNat = port.val
  priority : s.options.priority = m.priority
  listening : m.listening = true ↔ s.phase = .listen

/-- Two states of a slot between which no port can tell. -/
structure Status.SameFile (s t : Status) : Prop where
  registered : s.registered = t.registered
  generation : s.generation = t.generation
  phase : s.phase = t.phase
  lport : s.options.lport = t.options.lport
  priority : s.options.priority = t.options.priority

theorem Status.Alike.sameFile {s t : Status} (h : s.Alike t) : s.SameFile t :=
  ⟨h.registered, h.generation, h.phase, by rw [h.options], by rw [h.options]⟩

theorem Status.SameFile.files {s t : Status} {j : Fin Port.slotCount} {m : PortMember}
    (h : s.SameFile t) (hf : t.Files j m) : s.Files j m where
  registered := h.registered.trans hf.registered
  generation := h.generation.trans hf.generation
  lport := h.lport ▸ hf.lport
  priority := h.priority.trans hf.priority
  listening := by rw [h.phase, hf.listening]

namespace Census

variable {σ : Census} {t : PortTable} {s : Status} {h : Handle} {i : Nat}
  {j : Fin Port.slotCount} {m : PortMember}

/-- The slots and the ports agree. -/
structure Filed (σ : Census) : Prop where
  member : ∀ j, ∀ m ∈ (σ.ports.entry j).members, (σ.status m.conn.index).Files j m
  once : ∀ i, (σ.status i).registered = true →
    ∃ j : Fin Port.slotCount, (σ.status i).options.lport.toNat = j.val ∧
      σ.ports.occurrences j ⟨i, (σ.status i).generation⟩ = 1
  active : ∀ i, (σ.status i).registered = true →
    (σ.status i).phase = .listen ∨ (σ.status i).phase = .connected

/-- A slot that is not registered is on no port. -/
theorem Filed.index_ne (hσ : σ.Filed) (hi : (σ.status i).registered = false)
    (hm : m ∈ (σ.ports.entry j).members) : m.conn.index ≠ i := by
  intro heq
  have hr := (hσ.member j m hm).registered
  rw [heq, hi] at hr
  cases hr

theorem Filed.not_registered (hσ : σ.Filed) (hl : (σ.status i).phase ≠ .listen)
    (hc : (σ.status i).phase ≠ .connected) : (σ.status i).registered = false := by
  cases hr : (σ.status i).registered with
  | false => rfl
  | true =>
    obtain hp | hp := hσ.active i hr
    · exact absurd hp hl
    · exact absurd hp hc

/-- A registered connection is a member of its port. -/
theorem Filed.exists_mem (hσ : σ.Filed) (hi : (σ.status i).registered = true) :
    ∃ j : Fin Port.slotCount, (σ.status i).options.lport.toNat = j.val ∧
      ∃ m ∈ (σ.ports.entry j).members, m.conn = ⟨i, (σ.status i).generation⟩ := by
  obtain ⟨j, hj, hcount⟩ := hσ.once i hi
  exact ⟨j, hj, PortTable.occurrences_pos_iff.1 (by rw [hcount]; exact Nat.one_pos)⟩

/-! ## Four changes that keep it -/

/-- A slot that is on no port changes, and stays on no port. -/
theorem Filed.set_of_unregistered (hσ : σ.Filed) (hi : (σ.status i).registered = false)
    (hs : s.registered = false) : (σ.set i s).Filed := by
  -- who is registered afterwards is in another slot, and as before
  have hstatus : ∀ k, ((σ.set i s).status k).registered = true → k ≠ i ∧
      (σ.set i s).status k = σ.status k := by
    intro k hk
    by_cases hki : k = i
    · subst hki
      rw [status_set_self, hs] at hk
      cases hk
    · exact ⟨hki, status_set_of_ne hki s⟩
  refine ⟨?_, ?_, ?_⟩
  · intro j m hm
    rw [ports_set] at hm
    rw [status_set_of_ne (hσ.index_ne hi hm)]
    exact hσ.member j m hm
  · intro k hk
    have hk' := (hstatus k hk).2
    rw [hk'] at hk ⊢
    exact hσ.once k hk
  · intro k hk
    have hk' := (hstatus k hk).2
    rw [hk'] at hk ⊢
    exact hσ.active k hk

/-- A slot changes in what no port knows of it. -/
theorem Filed.set_of_sameFile (hσ : σ.Filed) (hs : s.SameFile (σ.status i)) :
    (σ.set i s).Filed := by
  -- no port can tell any slot from what it was, this one or another
  have hstatus : ∀ k, ((σ.set i s).status k).SameFile (σ.status k) := by
    intro k
    by_cases hki : k = i
    · subst hki
      rw [status_set_self]
      exact hs
    · rw [status_set_of_ne hki]
      exact ⟨rfl, rfl, rfl, rfl, rfl⟩
  refine ⟨?_, ?_, ?_⟩
  · intro j m hm
    exact (hstatus m.conn.index).files (hσ.member j m hm)
  · intro k hk
    rw [(hstatus k).registered] at hk
    rw [(hstatus k).lport, (hstatus k).generation]
    exact hσ.once k hk
  · intro k hk
    rw [(hstatus k).registered] at hk
    rw [(hstatus k).phase]
    exact hσ.active k hk

/-- A connection comes onto a port. -/
theorem Filed.enlist (hσ : σ.Filed) (hi : (σ.status m.conn.index).registered = false)
    (hgain : σ.ports.Gains t j m) (hs : s.Files j m)
    (ha : s.phase = .listen ∨ s.phase = .connected) :
    ((σ.set m.conn.index s).withPorts t).Filed := by
  refine ⟨?_, ?_, ?_⟩
  · intro k m' hm
    rw [ports_withPorts, hgain.mem_iff] at hm
    rw [status_withPorts]
    obtain hm | ⟨rfl, rfl⟩ := hm
    · rw [status_set_of_ne (hσ.index_ne hi hm)]
      exact hσ.member k m' hm
    · rw [status_set_self]
      exact hs
  · intro k hk
    rw [status_withPorts] at hk ⊢
    rw [ports_withPorts]
    by_cases hki : k = m.conn.index
    · subst hki
      -- it was on no port before, so now it is on this one once
      rw [status_set_self, hs.generation]
      refine ⟨j, hs.lport, ?_⟩
      have hzero : σ.ports.occurrences j m.conn = 0 := by
        by_contra hne
        obtain ⟨m', hm', hc⟩ := PortTable.occurrences_pos_iff.1 (Nat.pos_of_ne_zero hne)
        exact hσ.index_ne hi hm' (by rw [hc])
      rw [hgain.occurrences_self, hzero]
    · rw [status_set_of_ne hki] at hk ⊢
      obtain ⟨j', hj', hcount⟩ := hσ.once k hk
      refine ⟨j', hj', ?_⟩
      rw [hgain.occurrences_of_ne, hcount]
      intro heq
      exact hki (by rw [← heq])
  · intro k hk
    rw [status_withPorts] at hk ⊢
    by_cases hki : k = m.conn.index
    · subst hki
      rw [status_set_self]
      exact ha
    · rw [status_set_of_ne hki] at hk ⊢
      exact hσ.active k hk

/-- A connection goes off its port. -/
theorem Filed.strike (hσ : σ.Filed) (hgain : t.Gains σ.ports j m) (hs : s.registered = false) :
    ((σ.set m.conn.index s).withPorts t).Filed := by
  have hmem : m ∈ (σ.ports.entry j).members := hgain.mem_iff.2 (.inr ⟨rfl, rfl⟩)
  have hfiles := hσ.member j m hmem
  -- a member that agrees with the slot of `m` is of the same generation, so of the same connection
  have hconn : ∀ m' : PortMember, m'.conn.index = m.conn.index →
      m'.conn.generation = (σ.status m.conn.index).generation → m'.conn = m.conn := by
    intro m' hidx hgen
    rw [hfiles.generation] at hgen
    cases hm' : m'.conn
    cases hm : m.conn
    rw [hm', hm] at hidx hgen
    exact congr (congrArg Handle.mk hidx) hgen
  -- it was there once, so it is there no more
  have hzero : t.occurrences j m.conn = 0 := by
    obtain ⟨j', hj', hcount⟩ := hσ.once _ hfiles.registered
    have hjj : j' = j := Fin.ext (hj'.symm.trans hfiles.lport)
    rw [hjj, hfiles.generation, show (⟨m.conn.index, m.conn.generation⟩ : Handle) = m.conn from rfl,
      hgain.occurrences_self] at hcount
    exact Nat.succ.inj hcount
  -- whoever is left on any port is in another slot, which is not touched
  have hne : ∀ k, ∀ m' ∈ (t.entry k).members, m'.conn.index ≠ m.conn.index := by
    intro k m' hm' hidx
    have hf := hσ.member k m' (hgain.mem_iff.2 (.inl hm'))
    rw [hidx] at hf
    have hc := hconn m' hidx hf.generation.symm
    have hk : k = j := Fin.ext (hf.lport.symm.trans hfiles.lport)
    subst hk
    exact absurd (PortTable.occurrences_pos_iff.2 ⟨m', hm', hc⟩) (by omega)
  refine ⟨?_, ?_, ?_⟩
  · intro k m' hm'
    rw [ports_withPorts] at hm'
    rw [status_withPorts, status_set_of_ne (hne k m' hm')]
    exact hσ.member k m' (hgain.mem_iff.2 (.inl hm'))
  · intro k hk
    rw [status_withPorts] at hk ⊢
    rw [ports_withPorts]
    by_cases hki : k = m.conn.index
    · subst hki
      rw [status_set_self, hs] at hk
      cases hk
    · rw [status_set_of_ne hki] at hk ⊢
      obtain ⟨j', hj', hcount⟩ := hσ.once k hk
      refine ⟨j', hj', ?_⟩
      rw [← hgain.occurrences_of_ne, hcount]
      intro heq
      exact hki (by rw [← heq])
  · intro k hk
    rw [status_withPorts] at hk ⊢
    by_cases hki : k = m.conn.index
    · subst hki
      rw [status_set_self, hs] at hk
      cases hk
    · rw [status_set_of_ne hki] at hk ⊢
      exact hσ.active k hk

/-! ## Every move keeps it -/

theorem Filed.forget (hσ : σ.Filed) (parent : Handle) (peer : Peer) :
    (σ.forget parent peer).Filed := by
  unfold Census.forget
  split
  · exact hσ.set_of_sameFile ⟨rfl, rfl, rfl, rfl, rfl⟩
  · exact hσ

theorem Filed.disown (hσ : σ.Filed) (h : Handle) : (σ.disown h).Filed := by
  unfold Census.disown
  split
  · exact hσ.forget _ _
  · exact hσ

theorem Filed.shut (hσ : σ.Filed) (hl : σ.Live h) : (σ.shut h).Filed := by
  have hfiled := hσ.disown h
  have hsame := (alike_disown (σ := σ) h h.index).sameFile
  unfold Census.shut detach
  cases hr : (σ.status h.index).registered with
  | false =>
    exact hfiled.set_of_unregistered (hsame.registered.trans hr) rfl
  | true =>
    -- it is on its port, so taking it off succeeds
    obtain ⟨j, hj, m, hm, hc⟩ := hfiled.exists_mem (hsame.registered.trans hr)
    rw [hsame.lport] at hj
    rw [hsame.generation, hl.1] at hc
    obtain ⟨t, m', ht, hm', hgain⟩ := PortTable.remove_of_mem hj hm hc
    change (σ.disown h).ports.remove (σ.status h.index).options.lport h = _ at ht
    rw [if_pos rfl, unregister, ht]
    have hstrike := hfiled.strike (s := ((σ.disown h).status h.index).shut) hgain rfl
    rw [hm'] at hstrike
    exact hstrike

theorem set_withPorts_set (σ : Census) (t t' : PortTable) (i : Nat) (s s' : Status) :
    (((σ.set i s).withPorts t).set i s').withPorts t' = (σ.set i s').withPorts t' := by
  simp [set, withPorts, Function.update_idem]

theorem Filed.rank (hσ : σ.Filed) (hl : σ.Live h) (priority : UInt8) :
    (σ.rank h priority).Filed := by
  unfold Census.rank
  dsimp only
  generalize hs : (σ.status h.index).ranked priority = s
  cases hr : (σ.status h.index).registered with
  | false =>
    refine hσ.set_of_unregistered hr ?_
    rw [← hr]
    rfl
  | true =>
    rw [if_pos rfl]
    obtain ⟨j, hj, m, hm, hc⟩ := hσ.exists_mem hr
    rw [hl.1] at hc
    obtain ⟨t₀, t, m', ht, hm', hgone, hback⟩ :=
      @PortTable.reprioritize_of_mem _ _ _ priority _ _ hj hm hc
    change σ.ports.reprioritize (σ.status h.index).options.lport h priority = _ at ht
    rw [ht]
    have hfiles := hσ.member j m' (hgone.mem_iff.2 (.inr ⟨rfl, rfl⟩))
    rw [hm'] at hfiles
    -- off the port and on again, in one slot
    have hoff := hσ.strike (s := (σ.status h.index).shut) hgone rfl
    rw [hm'] at hoff
    have hon := hoff.enlist (m := { m' with priority := priority }) (t := t)
      (s := (σ.status h.index).ranked priority)
      (by rw [status_withPorts, hm', status_set_self]; rfl) hback
      ⟨hr, by rw [hm']; exact hl.1, hj, rfl, hfiles.listening⟩ (hσ.active _ hr)
    rw [hm', set_withPorts_set] at hon
    exact hon

theorem Filed.ending (hσ : σ.Filed) {τ : Census} (he : Ending σ τ) : τ.Filed := by
  cases he with
  | shut live active => exact hσ.shut live
  | vacate live closed =>
    have hr := hσ.not_registered (i := _) (by rw [closed]; simp) (by rw [closed]; simp)
    exact hσ.set_of_unregistered hr hr

theorem Filed.adopt (hσ : σ.Filed) {parent child : Handle} (peer : Peer)
    (hc : (σ.status child.index).registered = false) : (σ.adopt parent child peer).Filed := by
  have hchild := hσ.set_of_unregistered (s := (σ.status child.index).fostered parent
    (σ.status parent.index).options peer) hc hc
  exact hchild.set_of_sameFile ⟨rfl, rfl, rfl, rfl, rfl⟩

theorem Filed.opening (hσ : σ.Filed) {τ : Census} (hm : Opening σ τ) : τ.Filed := by
  cases hm with
  | claim size free =>
    exact hσ.set_of_unregistered (hσ.not_registered (by rw [free]; simp) (by rw [free]; simp)) rfl
  | attach live closed bindable =>
    have hr := hσ.not_registered (by rw [closed]; simp) (by rw [closed]; simp)
    exact hσ.set_of_unregistered hr hr
  | listen live bound table =>
    -- only bound so far, so on no port
    have hr := hσ.not_registered (by rw [bound]; simp) (by rw [bound]; simp)
    obtain ⟨j, hj, hgain⟩ := PortTable.gains_of_listen table
    exact hσ.enlist hr hgain ⟨rfl, live.1, hj, rfl, by simp [Status.listening]⟩ (.inl rfl)
  | link live idle table =>
    have hr := hσ.not_registered (by obtain hp | hp := idle <;> rw [hp] <;> simp)
      (by obtain hp | hp := idle <;> rw [hp] <;> simp)
    obtain ⟨j, hj, hgain⟩ := PortTable.gains_of_insert table
    exact hσ.enlist hr hgain ⟨rfl, live.1, hj, rfl, by simp [Status.linked]⟩ (.inr rfl)
  | rank live => exact hσ.rank live _
  | retime live => exact hσ.set_of_sameFile ⟨rfl, rfl, rfl, rfl, rfl⟩
  | adopt live listens server unknown childLive fresh => exact hσ.adopt _ fresh.2.2

end Census

/-! ## In terms of the pool -/

namespace PortTable

theorem members_eq_ok_iff {t : PortTable} {slot : UInt8} {ms : List PortMember} :
    t.members slot = .ok ms ↔
      ∃ j : Fin Port.slotCount, slot.toNat = j.val ∧ ms = (t.entry j).members := by
  unfold members
  cases hi : index slot with
  | error e =>
    constructor
    · rintro ⟨⟩
    · rintro ⟨j, hj, -⟩
      rw [index_eq_ok_iff.2 hj] at hi
      cases hi
  | ok j =>
    have hj := index_eq_ok_iff.1 hi
    constructor
    · rintro ⟨⟩
      exact ⟨j, hj, rfl⟩
    · rintro ⟨j', hj', rfl⟩
      obtain rfl : j = j' := Fin.ext (hj.symm.trans hj')
      rfl

end PortTable

namespace Pool

/-- The slots of a pool and its port table agree. -/
structure PortsAgree (p : Pool) : Prop where
  /-- a member of a port is a live connection, and what it says about it is so -/
  member : ∀ (slot : UInt8) (ms : List PortMember), p.ports.members slot = .ok ms → ∀ m ∈ ms, ∃ s,
    p.slot? m.conn = some s ∧ s.registered = true ∧ s.options.lport = slot ∧
      s.options.priority = m.priority ∧ (m.listening = true ↔ s.phase = .listen)
  /-- a registered connection is on its own port once and on no other -/
  once : ∀ (i : Nat) (s : Slot), p.slots[i]? = some s → s.registered = true →
    (∃ ms, p.ports.members s.options.lport = .ok ms ∧
      (ms.map PortMember.conn).count ⟨i, s.generation⟩ = 1) ∧
    ∀ (slot : UInt8) (ms : List PortMember), slot ≠ s.options.lport →
      p.ports.members slot = .ok ms →
      ⟨i, s.generation⟩ ∉ ms.map PortMember.conn
  /-- a registered connection listens or is connected -/
  registered : ∀ (i : Nat) (s : Slot), p.slots[i]? = some s → s.registered = true →
    s.phase = .listen ∨ s.phase = .connected
  /-- no member of any port names a slot that is free, closed or only bound -/
  absent : ∀ (i : Nat) (s : Slot), p.slots[i]? = some s →
    s.phase = .free ∨ s.phase = .closed ∨ s.phase = .bound →
    ∀ (slot : UInt8) (ms : List PortMember), p.ports.members slot = .ok ms →
      ∀ m ∈ ms, m.conn.index ≠ i

theorem status_of_getElem? {p : Pool} {i : Nat} {s : Slot} (h : p.slots[i]? = some s) :
    p.census.status i = s.status := by
  rw [status_census, slotAt, h]
  rfl

theorem portsAgree_of_filed {p : Pool} (hp : p.census.Filed) : p.PortsAgree := by
  refine ⟨?_, ?_, ?_, ?_⟩
  · intro slot ms hms m hm
    obtain ⟨j, hj, rfl⟩ := PortTable.members_eq_ok_iff.1 hms
    have hfiles := hp.member j m hm
    have hlive : p.census.Live m.conn := by
      refine ⟨hfiles.generation, ?_⟩
      obtain ha | ha := hp.active _ hfiles.registered <;> rw [ha] <;> simp
    obtain ⟨s, hs⟩ := live_iff.1 hlive
    rw [status_of_slot? hs] at hfiles
    refine ⟨s, hs, hfiles.registered, ?_, hfiles.priority, hfiles.listening⟩
    exact UInt8.toNat_inj.1 (hfiles.lport.trans hj.symm)
  · intro i s hi hr
    have hstatus := status_of_getElem? hi
    obtain ⟨j, hj, hcount⟩ := hp.once i (by rw [hstatus]; exact hr)
    rw [hstatus] at hj hcount
    refine ⟨⟨_, PortTable.members_eq_ok_iff.2 ⟨j, hj, rfl⟩, hcount⟩, ?_⟩
    -- a member elsewhere would make the slot say that its local port is there
    intro slot ms hslot hms hmem
    obtain ⟨k, hk, rfl⟩ := PortTable.members_eq_ok_iff.1 hms
    obtain ⟨m, hm, hc⟩ := List.mem_map.1 hmem
    have hfiles := hp.member k m hm
    rw [hc, hstatus] at hfiles
    exact hslot (UInt8.toNat_inj.1 (hk.trans hfiles.lport.symm))
  · intro i s hi hr
    have ha := hp.active i (by rw [status_of_getElem? hi]; exact hr)
    rw [status_of_getElem? hi] at ha
    exact ha
  · intro i s hi hphase slot ms hms m hm
    obtain ⟨j, -, rfl⟩ := PortTable.members_eq_ok_iff.1 hms
    refine hp.index_ne ?_ hm
    have hph : (p.census.status i).phase = s.phase := congrArg Status.phase (status_of_getElem? hi)
    apply hp.not_registered <;> rw [hph] <;> obtain h | h | h := hphase <;> rw [h] <;> simp

theorem filed_new {c : Config} {p : Pool} (h : new c = .ok p) : p.census.Filed := by
  rw [census_new h]
  refine ⟨?_, ?_, ?_⟩
  · intro j m hm
    rw [show (PortTable.empty.entry j).members = [] by rw [PortTable.entry_empty]] at hm
    cases hm
  · rintro i ⟨⟩
  · rintro i ⟨⟩

/-- Whatever is done with a pool, its slots and its port table agree. -/
theorem portsAgree_run {c : Config} {p : Pool} (hnew : new c = .ok p) (ops : List Op) :
    (p.atRest.run ops).pool.PortsAgree :=
  portsAgree_of_filed
    (System.census_run (fun _ _ ho hσ => hσ.opening ho) (fun _ _ he hσ => hσ.ending he)
      (s := p.atRest) (filed_new hnew) ops)

/-- A listener, and a connection that came to the shared slot and left it again. -/
theorem portsAgree_listener_and_guest :
    ∃ p, new { maxConnections := 2 } = .ok p ∧
      let q := (p.atRest.run [.alloc, .bind ⟨0, 0⟩ 5, .listen ⟨0, 0⟩ 1, .alloc,
        .connect ⟨1, 0⟩ ⟨0x42, 3⟩, .free ⟨1, 0⟩]).pool
      q.PortsAgree ∧ (q.ports.members 5).toOption = some [⟨⟨0, 0⟩, 127, true⟩] ∧
        (q.ports.members Port.sharedSlot).toOption = some [] :=
  ⟨_, rfl, portsAgree_run (c := { maxConnections := 2 }) rfl _, by decide +kernel,
    by decide +kernel⟩

end Pool

end Netstack
