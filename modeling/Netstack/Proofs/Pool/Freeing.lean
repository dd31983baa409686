import Netstack.Proofs.Pool.Spared
import Netstack.Proofs.Pool.Waiting

/-
Who goes with a connection that is freed.

The connection is freed, and then whoever stands in its backlog, each of them with those in its
own. Where only children that wait stand there, these go, and a child has no backlog. But a child
that was closed while it waited still stands there, and unlike `accept`, freeing does not look at
what has become of it: bound again, connected elsewhere or listening with a backlog of its own,
it goes along, with everybody in that backlog. Who is left is spared.
-/

set_option autoImplicit false

namespace Netstack

namespace Pool

variable {p q r : Pool} {h k c : Handle} {w : Nat → List Handle} {cfg : Config}

/-- Who falls with a connection: itself, and whoever stands in the backlog of one that falls. -/
inductive Falls (p : Pool) (h : Handle) : Handle → Prop
  | self : Falls p h h
  | next {k c : Handle} (falls : Falls p h k) (stands : c ∈ p.backlogOf k)
      (live : p.census.Live c) : Falls p h c

theorem Falls.live (hc : p.Falls h c) (hl : p.census.Live h) : p.census.Live c := by
  cases hc with
  | self => exact hl
  | next _ _ live => exact live

theorem free_answer (hl : p.census.Live h) : (p.free h).2 = .ok () := by
  obtain ⟨s, hs⟩ := live_iff.1 hl
  have hclose : p.close h = ((p.close h).1, .ok ()) := Prod.ext rfl (close_eq_ok_of_live hl)
  obtain ⟨depth, hdepth⟩ := Nat.exists_eq_add_one_of_ne_zero
    (Nat.ne_of_gt (Nat.lt_of_le_of_lt (Nat.zero_le _) (index_lt_of_slot? hs)))
  rw [free, hdepth, freeWithin, hclose]

/-- Exactly those are freed along with a connection who fall with it. -/
theorem not_live_free_iff (hw : p.Backlogs w) (hl : p.census.Live h) (hc : p.census.Live c) :
    ¬ (p.free h).1.census.Live c ↔ p.Falls h c := by
  obtain ⟨w', -, hfrees⟩ := free_frees hw h
  constructor
  · -- who falls is a set that the recursion does not leave
    exact (reaps_free p h).confined (p.Falls h) (fun k hk _ c hin hcl => hk.next hin hcl)
      (fun k hk _ => List.mem_singleton.1 hk ▸ .self) c hc
  · intro hfalls
    induction hfalls with
    | self => exact hfrees.freed h List.mem_cons_self
    | @next k c falls stands live ih =>
      have hk := falls.live hl
      have hgone := ih hk
      -- what is gone has its slot given back
      have hfree : ((p.free h).1.census.status k.index).phase = .free := by
        by_contra hused
        exact hgone ((Census.live_iff_of_alike (hfrees.alike k.index hused)).2 hk)
      rw [hw.backlogOf_eq] at stands
      exact hfrees.taken k.index hk.2 hfree c stands

/-- A connected child has nobody in its backlog. -/
theorem backlogOf_of_pending (hw : p.Backlogs w) (hc : p.isPendingChild h c = true) :
    p.backlogOf c = [] := by
  obtain ⟨_, hchild⟩ := isPendingChild_iff.1 hc
  rw [hw.backlogOf_eq]
  exact (hw c.index).of_parent? ((Role.parent?_kin _).symm.trans hchild.parent)

/-- Where those who wait stand in a backlog, only they and the connection fall exactly if nobody
else in the backlog is live. -/
theorem falls_iff_of_waiting {ys : List Handle} (hw : p.Backlogs w)
    (hys : ∀ c ∈ ys, p.isPendingChild h c = true) (hin : ∀ c ∈ ys, c ∈ p.backlogOf h) :
    (∀ c, p.census.Live c → (p.Falls h c ↔ c = h ∨ c ∈ ys)) ↔
      ∀ c ∈ p.backlogOf h, p.census.Live c → c = h ∨ c ∈ ys := by
  constructor
  · exact fun hall c hc hl => (hall c hl).1 (.next .self hc hl)
  · intro hsole c hl
    constructor
    · intro hfalls
      -- from a child that waits nobody else falls, for it has no backlog
      induction hfalls with
      | self => exact .inl rfl
      | @next k c falls stands live ih =>
        obtain rfl | hk : k = h ∨ k ∈ ys := by
          cases falls with
          | self => exact .inl rfl
          | next _ _ live => exact ih live
        · exact hsole c stands live
        · rw [backlogOf_of_pending hw (hys k hk)] at stands
          cases stands
    · rintro (rfl | hc)
      · exact .self
      · exact .next .self (hin c hc) hl

/-- After every run, freeing a connection succeeds, and those go who fall with it. Everybody else
is as before, but for entries for children, and the port lists are those of before without the
connections that went. Only the connection and the children that wait for it go exactly if
nobody else in its backlog is live; and who stands there and does not wait was closed or freed
while it waited. -/
theorem free_confined_iff (hnew : new cfg = .ok p) (deeds : List Deed)
    (hq : (p.unattended.run deeds).pool = q) (hl : q.census.Live h) {answer : Except Error Unit}
    (hfree : q.free h = (r, answer)) :
    answer = .ok () ∧
      (∀ c, q.census.Live c → (¬ r.census.Live c ↔ q.Falls h c)) ∧
      (∀ k t, r.census.Live k → q.slot? k = some t → ∃ u, r.slot? k = some u ∧ t.Spared u) ∧
      (∀ slot ms, q.ports.members slot = .ok ms →
        r.ports.members slot = .ok (ms.filter fun m => r.census.Live m.conn)) ∧
      ((∀ c, q.census.Live c →
          (¬ r.census.Live c ↔ c = h ∨ c ∈ p.unattended.waiting h deeds)) ↔
        ∀ c ∈ q.backlogOf h, q.census.Live c → c = h ∨ c ∈ p.unattended.waiting h deeds) ∧
      ∀ c ∈ q.backlogOf h, c ∈ p.unattended.waiting h deeds ∨ p.unattended.Abandoned h c deeds := by
  have hplaced : q.census.Placed := hq ▸ placed_deeds hnew deeds
  obtain ⟨hfam, hw, hwin, -⟩ := orderly_run hnew deeds
  have hwin := hwin h (hq ▸ hl)
  rw [hq] at hw hwin
  obtain ⟨w, hw⟩ := hw
  obtain rfl : (q.free h).1 = r := congrArg Prod.fst hfree
  have hgone := fun c (hc : q.census.Live c) => not_live_free_iff hw hl hc
  have hreaps := reaps_free q h
  refine ⟨?_, hgone, fun k t hk ht => slot?_of_spared (hreaps.spared k.index hk.2) ht, ?_, ?_,
    fun c hc => hwin.mem_or_gone hc⟩
  · rw [← free_answer hl, hfree]
  · intro slot ms hms
    obtain ⟨j, hj, rfl⟩ := PortTable.members_eq_ok_iff.1 hms
    exact PortTable.members_eq_ok_iff.2 ⟨j, hj, ((hreaps.filed hplaced.filed).2 j).symm⟩
  · -- those who wait stand in the backlog and are connected children
    rw [← falls_iff_of_waiting hw (fun c hc => hwin.stays_of_mem hc)
      fun c hc => hwin.sublist.subset hc]
    exact forall₂_congr fun c hc => iff_congr (hgone c hc) Iff.rfl

/-- A listener with two children that wait, beside a client: the children go with the listener,
and the client stays. -/
theorem free_confined_of_two_waiting :
    ∃ p, new { maxConnections := 4 } = .ok p ∧ ∃ q r,
      (p.unattended.run [.ask .alloc, .ask (.bind ⟨0, 0⟩ 5), .ask (.listen ⟨0, 0⟩ 4),
        .ask (.offerChild ⟨0, 0⟩ ⟨0x42, 3⟩), .ask (.offerChild ⟨0, 0⟩ ⟨0x43, 3⟩),
        .ask .alloc, .ask (.connect ⟨3, 0⟩ ⟨0x44, 3⟩)]).pool = q ∧
      q.free ⟨0, 0⟩ = (r, .ok ()) ∧ r.In ⟨3, 0⟩ .connected ∧
      ∀ c, q.census.Live c → (¬ r.census.Live c ↔ c = ⟨0, 0⟩ ∨ c ∈ [⟨1, 0⟩, ⟨2, 0⟩]) := by
  refine ⟨_, rfl, _, _, rfl, Prod.ext rfl (by decide +kernel), by decide +kernel, ?_⟩
  have hnew : new { maxConnections := 4 } = .ok _ := rfl
  obtain ⟨-, -, -, -, hwaiting, -⟩ := free_confined_iff (h := ⟨0, 0⟩) hnew
    [.ask .alloc, .ask (.bind ⟨0, 0⟩ 5), .ask (.listen ⟨0, 0⟩ 4),
      .ask (.offerChild ⟨0, 0⟩ ⟨0x42, 3⟩), .ask (.offerChild ⟨0, 0⟩ ⟨0x43, 3⟩),
      .ask .alloc, .ask (.connect ⟨3, 0⟩ ⟨0x44, 3⟩)] rfl (by decide +kernel) rfl
  refine fun c hc => (hwaiting.2 (by decide +kernel) c hc).trans (or_congr_right ?_)
  exact iff_of_eq (congrArg (c ∈ ·) (by decide +kernel))

/-- A child is closed while it waits, and listens on a port of its own. It goes with the listener
that it was made for, although nobody waits. -/
theorem free_takes_closed_child :
    ∃ p, new { maxConnections := 2 } = .ok p ∧ ∃ q r,
      (p.unattended.run [.ask .alloc, .ask (.bind ⟨0, 0⟩ 5), .ask (.listen ⟨0, 0⟩ 4),
        .ask (.offerChild ⟨0, 0⟩ ⟨0x42, 3⟩), .ask (.close ⟨1, 0⟩), .ask (.bind ⟨1, 0⟩ 6),
        .ask (.listen ⟨1, 0⟩ 4)]).pool = q ∧
      p.unattended.waiting ⟨0, 0⟩ [.ask .alloc, .ask (.bind ⟨0, 0⟩ 5), .ask (.listen ⟨0, 0⟩ 4),
        .ask (.offerChild ⟨0, 0⟩ ⟨0x42, 3⟩), .ask (.close ⟨1, 0⟩), .ask (.bind ⟨1, 0⟩ 6),
        .ask (.listen ⟨1, 0⟩ 4)] = [] ∧
      q.In ⟨1, 0⟩ .listen ∧ q.free ⟨0, 0⟩ = (r, .ok ()) ∧ r.slot? ⟨1, 0⟩ = none := by
  refine ⟨_, rfl, _, _, rfl, ?_, ?_, Prod.ext rfl ?_, ?_⟩ <;> decide +kernel

end Pool

end Netstack
