import Netstack.Proofs.Pool.Accepting

/-
Room in the backlog of a listener.

A connection that listens with a backlog of `n` gets a queue for `n` handles, and as long as it
listens nothing puts another one in its place. But the queue has handles and not children: the
handle of a child that was closed or freed while it waited stays where it is until an accept comes
by. So the room that is left for new children is what was promised, less those who wait, and less
those who waited once and were not cleared away.
-/

set_option autoImplicit false

namespace Netstack

open Pool (Op)

/-- What was struck out of a list, and what is left of it, are the list in some order. -/
theorem Winnow.exists_perm {α : Type} {stays gone : α → Prop} {xs ys : List α}
    (h : Winnow stays gone xs ys) : ∃ zs, xs.Perm (ys ++ zs) ∧ ∀ a ∈ zs, gone a := by
  induction h with
  | nil => exact ⟨[], .nil, by simp⟩
  | keep _ _ ih =>
    obtain ⟨zs, hperm, hgone⟩ := ih
    exact ⟨zs, hperm.cons _, hgone⟩
  | @drop a xs ys struck _ ih =>
    obtain ⟨zs, hperm, hgone⟩ := ih
    exact ⟨a :: zs, (hperm.cons a).trans List.perm_middle.symm,
      List.forall_mem_cons.2 ⟨struck, hgone⟩⟩

theorem Role.backlog?_of_kin {r : Role} (hkin : r.kin = .client) : r.backlog? = none := by
  cases r with
  | client | child parent => rfl
  | server backlog children => cases hkin

/-! ## The length of a backlog -/

namespace Slot

variable {s t : Slot} {limits : Limits}

/-- How many handles the backlog has room for, and whether it is out of service. Only a server has
one. -/
def backlogShape? (s : Slot) : Option (Nat × Bool) :=
  s.role.backlog?.map fun backlog => (backlog.ring.capacity, backlog.ring.destroyed)

theorem backlogShape?_congr (h : t.role.backlog? = s.role.backlog?) :
    t.backlogShape? = s.backlogShape? := by
  unfold backlogShape?
  rw [h]

/-- A backlog is put in the place of one that it differs from in its contents only. -/
theorem backlogShape?_of_steady {backlog backlog' : Fifo Handle} (hs : backlog.Steady backlog')
    (hbefore : s.role.backlog? = some backlog) (hafter : t.role.backlog? = some backlog') :
    t.backlogShape? = s.backlogShape? := by
  unfold backlogShape?
  rw [hbefore, hafter, Option.map_some, Option.map_some, hs.capacity, hs.destroyed]

/-- After a move a slot has no backlog, or one of the shape that it had. -/
theorem Move.backlogShape? (hm : Move limits s t) :
    t.role.backlog? = none ∨ t.backlogShape? = s.backlogShape? := by
  cases hm with
  | prepare free prepared =>
    exact .inl (Role.backlog?_of_kin (congrArg Status.kin (Slot.status_prepared prepared)))
  | foster | vacate => exact .inl rfl
  | join role steady | leave role steady | deserted role steady =>
    exact .inr (backlogShape?_of_steady steady (by rw [role]; rfl) rfl)
  | close => exact .inr (backlogShape?_congr (congrArg Role.backlog? (role_ended limits s)))
  | children same => exact .inr (backlogShape?_congr same)
  | bind | connect | options | receive | take | miss | send | wait =>
    exact .inr (backlogShape?_congr rfl)

end Slot

namespace Pool

variable {p q r : Pool} {h child : Handle} {peer : Peer} {i n : Nat} {w : Nat → List Handle}
  {cfg : Config} {answer : Except Error Handle}

/-- The shape of the backlog of a slot. -/
def backlogShape? (p : Pool) (i : Nat) : Option (Nat × Bool) := (p.slotAt i).backlogShape?

/-- Every slot that has a backlog had one of this shape before. -/
structure KeepsShapes (p q : Pool) : Prop where
  shape : ∀ i n, q.backlogShape? i = some n → p.backlogShape? i = some n

theorem KeepsShapes.trans (h₁ : p.KeepsShapes q) (h₂ : q.KeepsShapes r) : p.KeepsShapes r :=
  ⟨fun i n hn => h₁.shape i n (h₂.shape i n hn)⟩

theorem SameBacklogs.backlogShape? (hs : p.SameBacklogs q) (i : Nat) :
    q.backlogShape? i = p.backlogShape? i :=
  Slot.backlogShape?_congr (hs.backlog_eq i)

theorem SameBacklogs.keepsShapes (hs : p.SameBacklogs q) : p.KeepsShapes q :=
  ⟨fun i _ hn => (hs.backlogShape? i).symm.trans hn⟩

theorem Shifts.keepsShapes (hs : p.Shifts q) : p.KeepsShapes q := by
  refine ⟨fun i n => hs.keeps (P := fun s => s.backlogShape? = some n → p.backlogShape? i = some n)
    (fun s t made hp ht => hp ?_) i id⟩
  obtain hnone | hsame := made.backlogShape?
  · rw [Slot.backlogShape?, hnone] at ht
    cases ht
  · exact hsame.symm.trans ht

/-- A connection that begins to listen gets a backlog of the length that it asks for. -/
theorem backlogShape?_listen (p : Pool) (h : Handle) (backlog : Nat) :
    (∃ e, p.listen h backlog = (p, .error e)) ∨
    (p.In h .bound ∧ (p.listen h backlog).1.In h .listen ∧
      ∀ i, (p.listen h backlog).1.backlogShape? i =
        if i = h.index then some (backlog, false) else p.backlogShape? i) := by
  unfold Pool.listen
  cases hnew : (Fifo.new backlog : Except Error (Fifo Handle)) with
  | error e => exact .inl ⟨e, rfl⟩
  | ok queue =>
    obtain ⟨-, hs⟩ | ⟨s, hs?, hs, hl, -⟩ := slot_cases p h
    · exact .inl ⟨_, by rw [hs]⟩
    · rw [hs]
      dsimp only
      by_cases hp : s.phase = .bound
      · rw [if_neg (not_not_intro hp)]
        cases p.ports.listen s.options.lport h s.options.priority with
        | error e => exact .inl ⟨e, rfl⟩
        | ok t =>
          right
          have hsize := index_lt_of_slot? hs?
          refine ⟨⟨s, hs?, hp⟩, ?_, fun i => ?_⟩
          · dsimp only
            rw [in_iff, census_announce, census_modify (p := { p with ports := t }) hsize
              (g := Status.listening) rfl, Census.Live, Census.status_alter_self]
            exact ⟨⟨hl.1, by simp [Status.listening]⟩, rfl⟩
          · dsimp only
            rw [(sameStores_announce _ _ _ _).sameBacklogs.backlogShape?, backlogShape?]
            split
            · next hi =>
              rw [hi, slotAt_modify (by exact hsize)]
              have hrep := Fifo.represents_new hnew
              exact congrArg some (Prod.ext hrep.capacity hrep.destroyed)
            · next hi =>
              rw [slotAt_modify_of_ne (Ne.symm hi)]
              rfl
      · rw [if_pos hp]
        exact .inl ⟨_, rfl⟩

end Pool

/-! ## What was promised -/

namespace System

variable {s : System} {op : Op} {h x : Handle} {b : Nat × Bool} {n backlog : Nat}

/-- Only who begins to listen gets another backlog. -/
theorem keepsShapes_step (hno : ∀ x n, op ≠ .listen x n) :
    s.pool.KeepsShapes (s.step op).1.pool := by
  by_cases hq : op.isQuiet = true
  · cases hwho : s.acceptor? op with
    | none => exact (sameBacklogs_of_quiet hq hwho).keepsShapes
    | some k =>
      obtain ⟨hs, -⟩ | ⟨p, hs, -, hs', -⟩ := looks_of_acceptor? hwho
      · exact hs.keepsShapes
      · exact (hs.keepsShapes.trans (Pool.shifts_lookChild p k).keepsShapes).trans hs'.keepsShapes
  · -- nobody who sleeps is resumed by an operation that is not quiet
    have hshifts := @shifts_step s.pool.atRest op
    cases op <;> first
      | exact absurd rfl hq
      | exact (hshifts rfl hno (by rintro call ⟨⟩)).keepsShapes

/-- Who has a backlog that was there before was there before, too. -/
theorem live_of_backlogShape? (hfam : s.pool.census.Family)
    (hb : s.pool.backlogShape? h.index = some b) (hl : (s.step op).1.pool.census.Live h) :
    s.pool.census.Live h := by
  obtain hstays | hretires := s.ages_step op h.index
  · refine ⟨hstays.generation.symm.trans hl.1, fun hfree => ?_⟩
    have hkin : (s.pool.slotAt h.index).role.kin = .client := hfam.vacant _ hfree
    rw [Pool.backlogShape?, Slot.backlogShape?, Role.backlog?_of_kin hkin] at hb
    cases hb
  · exact absurd hretires.phase hl.2

/-- The length of backlog that a listener asked for, if it was `n` before an operation. -/
def promise (s : System) (h : Handle) (op : Op) (n : Nat) : Nat :=
  match op with
  | .listen x backlog => if s.relistens h (.listen x backlog) then backlog else n
  | _ => n

theorem promise_of_not_listen (hno : ∀ x n, op ≠ .listen x n) : s.promise h op n = n := by
  cases op <;> first | rfl | exact absurd rfl (hno _ _)

theorem promise_listen_of_error {e : Error} (he : s.pool.listen x backlog = (s.pool, .error e)) :
    s.promise h (.listen x backlog) n = n := by
  refine if_neg fun hbegins => ?_
  obtain ⟨-, hbound, hlistens⟩ := of_decide_eq_true hbegins
  rw [he] at hlistens
  cases (Pool.in_iff.1 hbound).2.symm.trans (Pool.in_iff.1 hlistens).2

theorem promise_listen_of_ne (hx : h ≠ x) : s.promise h (.listen x backlog) n = n :=
  if_neg fun hbegins => hx (of_decide_eq_true hbegins).1.symm

theorem promise_listen_self (hbound : s.pool.In h .bound)
    (hlistens : (s.pool.listen h backlog).1.In h .listen) :
    s.promise h (.listen h backlog) n = backlog :=
  if_pos (decide_eq_true ⟨rfl, hbound, hlistens⟩)

/-- A backlog is in service and has the length that was asked for. If this is so before an
operation it is so after. -/
theorem backlogShape?_step (hfam : s.pool.census.Family)
    (hbefore : ∀ b, s.pool.census.Live h → s.pool.backlogShape? h.index = some b → b = (n, false))
    (hl : (s.step op).1.pool.census.Live h)
    (hb : (s.step op).1.pool.backlogShape? h.index = some b) :
    b = (s.promise h op n, false) := by
  by_cases hlisten : ∃ x backlog, op = .listen x backlog
  · obtain ⟨x, backlog, rfl⟩ := hlisten
    obtain ⟨e, he⟩ | ⟨hbound, hlistens, hshapes⟩ := s.pool.backlogShape?_listen x backlog
    · have hsame : (s.step (.listen x backlog)).1.pool = s.pool := congrArg Prod.fst he
      rw [hsame] at hl hb
      rw [promise_listen_of_error he]
      exact hbefore b hl hb
    · rw [show (s.step (.listen x backlog)).1.pool.backlogShape? h.index = _ from
        hshapes h.index] at hb
      by_cases hx : h.index = x.index
      · obtain rfl : h = x := hl.eq_of_index_eq (Pool.in_iff.1 hlistens).1 hx
        rw [if_pos rfl] at hb
        rw [promise_listen_self hbound hlistens]
        exact (Option.some.inj hb).symm
      · -- it is the backlog of another
        rw [if_neg hx] at hb
        rw [promise_listen_of_ne fun heq => hx (by rw [heq])]
        exact hbefore b (live_of_backlogShape? hfam hb hl) hb
  · have hno : ∀ x n, op ≠ .listen x n := fun x n hop => hlisten ⟨x, n, hop⟩
    have hb' := (keepsShapes_step hno).shape _ _ hb
    rw [promise_of_not_listen hno]
    exact hbefore b (live_of_backlogShape? hfam hb' hl) hb'

end System

namespace Site

variable {s : Site} {d : Deed} {deeds : List Deed} {h : Handle}

/-- The length of backlog that a listener asked for, if it was `n` before a deed. -/
def promise (s : Site) (h : Handle) (d : Deed) (n : Nat) : Nat :=
  match d with
  | .ask op => s.system.promise h op n
  | _ => n

def promisedFrom (h : Handle) : Site → Nat → List Deed → Nat
  | _, n, [] => n
  | s, n, d :: deeds => promisedFrom h (s.perform d) (s.promise h d n) deeds

/-- The length of backlog that a listener asked for when it began to listen, the last time that it
did so in a run. -/
def promised (s : Site) (h : Handle) (deeds : List Deed) : Nat := promisedFrom h s 0 deeds

theorem promisedFrom_snoc (n : Nat) :
    promisedFrom h s n (deeds ++ [d]) = (s.run deeds).promise h d (promisedFrom h s n deeds) := by
  induction deeds generalizing s n with
  | nil => rfl
  | cons d₀ deeds ih => exact ih _

theorem promised_snoc :
    s.promised h (deeds ++ [d]) = (s.run deeds).promise h d (s.promised h deeds) :=
  promisedFrom_snoc 0

theorem promise_of_touch (hd : ∀ op, d ≠ .ask op) (n : Nat) : s.promise h d n = n := by
  cases d with
  | ask op => exact absurd rfl (hd op)
  | call | wake | expire | clear | destroy | set | unset => rfl

end Site

namespace Pool

variable {p q r : Pool} {h child : Handle} {peer : Peer} {n : Nat} {b : Nat × Bool}
  {w : Nat → List Handle} {cfg : Config} {answer : Except Error Handle}

/-- After every run, the backlog of a connection is in service and has the length that the
connection asked for last. -/
theorem backlogShape?_run (hnew : new cfg = .ok p) (deeds : List Deed)
    (hl : (p.unattended.run deeds).pool.census.Live h)
    (hb : (p.unattended.run deeds).pool.backlogShape? h.index = some b) :
    b = (p.unattended.promised h deeds, false) := by
  induction deeds using List.reverseRecOn generalizing h b with
  | nil =>
    rw [show (p.unattended.run []).pool = p from rfl, backlogShape?, slotAt_new hnew] at hb
    cases hb
  | append_singleton deeds d ih =>
    rw [Site.promised_snoc]
    obtain hd | ⟨op, rfl⟩ := d.touch_or_ask
    · have ht := Site.touch_perform (p.unattended.run deeds) hd
      rw [Site.run_snoc] at hl hb
      rw [ht.census] at hl
      rw [ht.sameBacklogs.backlogShape?] at hb
      rw [Site.promise_of_touch hd]
      exact ih hl hb
    · rw [Site.pool, Site.system_snoc] at hl hb
      exact System.backlogShape?_step (orderly_run hnew deeds).family (fun _ => ih) hl hb

/-! ## Who finds room -/

/-- A listener has a backlog. -/
theorem exists_backlog (hserved : p.census.Served) (hl : p.In h .listen) :
    ∃ s backlog children, p.slot? h = some s ∧ s.phase = .listen ∧
      s.role = .server backlog children := by
  obtain ⟨s, hs, hlisten⟩ := hl
  have hstatus := status_of_slot? hs
  obtain ⟨children, hkin⟩ := hserved h.index (by rw [hstatus]; exact hlisten)
  rw [hstatus] at hkin
  obtain ⟨backlog, hrole⟩ := Role.kin_eq_server_iff.1 hkin
  exact ⟨s, backlog, children, hs, hlisten, hrole⟩

/-- A new child joins the backlog exactly if there is room. -/
theorem Offering.joinBacklog_eq_ok_iff {s t : Slot} {backlog : Fifo Handle}
    {children : List (Peer × Handle)} {i : Nat} (o : p.Offering h peer s backlog children i t)
    (child : Handle) :
    ((p.adopted h peer s.options i t).joinBacklog h child).2 = .ok child ↔ backlog.HasRoom := by
  have hrole : ((p.adopted h peer s.options i t).slotAt h.index).role =
      .server backlog ((peer, ⟨i, t.generation⟩) :: children) := by
    rw [o.slotAt_adopted_parent, o.role]
    rfl
  rw [← Fifo.offer_eq_ok_iff backlog child, joinBacklog, hrole]
  dsimp only
  split
  · next hq =>
    rw [hq]
    split <;> simp
  · next hq => simp [hq]

/-- An offer that can fail for nothing else succeeds exactly if the listener has its event group
and there is room in its backlog. -/
theorem offerChild_eq_ok_iff {s : Slot} {backlog : Fifo Handle} {children : List (Peer × Handle)}
    (hs : p.slot? h = some s) (hlisten : s.phase = .listen)
    (hrole : s.role = .server backlog children) (halloc : p.alloc.2 = .ok child)
    (hpeer : p.listed? h peer = none) :
    (p.offerChild h peer).2 = .ok child ↔ (p.events h).isOk = true ∧ backlog.HasRoom := by
  have hslot : p.slot h = .ok s := slot_eq_ok_iff.2 hs
  have hunknown : children.lookup peer = none := by
    rw [listed?, hs, Option.bind_some, hrole] at hpeer
    exact hpeer
  rw [events_isOk hs, offerChild, hslot]
  dsimp only
  rw [hrole, hlisten]
  dsimp only
  rw [hunknown]
  cases hev : s.events with
  | none => simp
  | some group =>
    obtain ⟨e, he⟩ | ⟨i, t, hi, hfree, hprep, heq⟩ := alloc_stages p
    · rw [he] at halloc
      cases halloc
    · rw [heq] at halloc ⊢
      obtain rfl := Except.ok.inj halloc
      have o : p.Offering h peer s backlog children i t :=
        ⟨hs, hrole, hlisten, hunknown, hi, hfree, hprep⟩
      rw [Option.isSome_some, and_iff_right rfl]
      exact o.joinBacklog_eq_ok_iff _

/-- After every run, a listening connection that is offered a child for a peer that it does not
have, with a slot for the child at hand, takes it exactly if it has its event group and the
handles in its backlog are fewer than were promised: those of the children that wait, and those of
children that were closed or freed while they waited, and that no accept has come by since. -/
theorem offer_finds_room_iff (hnew : new cfg = .ok p) (deeds : List Deed)
    (hq : (p.unattended.run deeds).pool = q) (hl : q.In h .listen) (halloc : q.alloc.2 = .ok child)
    (hpeer : q.listed? h peer = none) (hoffer : q.offerChild h peer = (r, answer)) :
    ∃ stale, (q.backlogOf h).Perm (p.unattended.waiting h deeds ++ stale) ∧
      (∀ c ∈ stale, p.unattended.Abandoned h c deeds) ∧
      (answer = .ok child ↔ (q.events h).isOk = true ∧
        (p.unattended.waiting h deeds).length + stale.length < p.unattended.promised h deeds) := by
  subst hq
  obtain rfl : ((p.unattended.run deeds).pool.offerChild h peer).2 = answer :=
    congrArg Prod.snd hoffer
  have ho := orderly_run hnew deeds
  obtain ⟨w, hw⟩ := ho.backlogs
  have hlive := (in_iff.1 hl).1
  obtain ⟨s, backlog, children, hs, hlisten, hrole⟩ := exists_backlog (served_deeds hnew deeds) hl
  have hat := (slot?_eq_some_iff_slotAt.1 hs).1
  -- the queue of handles: what it holds, and that it is as it was asked for
  have hholds : backlog.Holds ((p.unattended.run deeds).pool.backlogOf h) := by
    have hawaits := hw h.index
    rw [← hw.backlogOf_eq, hat, hrole] at hawaits
    exact hawaits
  have hshape : (p.unattended.run deeds).pool.backlogShape? h.index =
      some (backlog.ring.capacity, backlog.ring.destroyed) := by
    rw [backlogShape?, hat, Slot.backlogShape?, hrole]
    rfl
  obtain ⟨hsize, hserves⟩ := Prod.mk.inj (backlogShape?_run hnew deeds hlive hshape)
  obtain ⟨stale, hperm, hgone⟩ := (ho.winnow h hlive).exists_perm
  refine ⟨stale, hperm, hgone, ?_⟩
  rw [offerChild_eq_ok_iff hs hlisten hrole halloc hpeer,
    hholds.hasRoom_iff, and_iff_right hserves, hsize, hperm.length_eq, List.length_append]

/-- A listener with a backlog of two has room for another child, although the first was closed
while it waited. -/
theorem offer_finds_room_beside_closed_child :
    ∃ p, new { maxConnections := 3 } = .ok p ∧
      let deeds : List Deed := [.ask .alloc, .ask (.bind ⟨0, 0⟩ 5), .ask (.listen ⟨0, 0⟩ 2),
        .ask (.offerChild ⟨0, 0⟩ ⟨0x42, 3⟩), .ask (.close ⟨1, 0⟩)]
      let q := (p.unattended.run deeds).pool
      (q.In ⟨0, 0⟩ .listen ∧ q.alloc.2 = .ok ⟨2, 0⟩ ∧ q.listed? ⟨0, 0⟩ ⟨0x43, 3⟩ = none) ∧
      (q.backlogOf ⟨0, 0⟩).length = 1 ∧ (q.offerChild ⟨0, 0⟩ ⟨0x43, 3⟩).2 = .ok ⟨2, 0⟩ := by
  refine ⟨_, rfl, ?_⟩
  intro deeds q
  have hnew : new { maxConnections := 3 } = .ok _ := rfl
  have hl : q.In ⟨0, 0⟩ .listen := by decide +kernel
  have halloc : q.alloc.2 = .ok ⟨2, 0⟩ := by decide +kernel
  have hpeer : q.listed? ⟨0, 0⟩ ⟨0x43, 3⟩ = none := by decide +kernel
  have hone : (q.backlogOf ⟨0, 0⟩).length = 1 := by decide +kernel
  obtain ⟨stale, hperm, -, hiff⟩ := offer_finds_room_iff hnew deeds rfl hl halloc hpeer rfl
  have hlength := hperm.length_eq
  rw [List.length_append] at hlength
  refine ⟨⟨hl, halloc, hpeer⟩, hone, hiff.2 ⟨by decide +kernel, ?_⟩⟩
  rw [← hlength]
  decide +kernel

/-- A listener with a backlog of one, whose only child was closed while it waited, has no room for
another, although nobody waits. -/
theorem offer_finds_no_room_after_close :
    ∃ p, new { maxConnections := 4 } = .ok p ∧
      let deeds : List Deed := [.ask .alloc, .ask (.bind ⟨0, 0⟩ 5), .ask (.listen ⟨0, 0⟩ 1),
        .ask (.offerChild ⟨0, 0⟩ ⟨0x42, 3⟩), .ask (.close ⟨1, 0⟩)]
      let q := (p.unattended.run deeds).pool
      q.In ⟨0, 0⟩ .listen ∧ q.alloc.2 = .ok ⟨2, 0⟩ ∧ q.listed? ⟨0, 0⟩ ⟨0x43, 3⟩ = none ∧
      p.unattended.promised ⟨0, 0⟩ deeds = 1 ∧ p.unattended.waiting ⟨0, 0⟩ deeds = [] ∧
      (q.offerChild ⟨0, 0⟩ ⟨0x43, 3⟩).2 = .error .queueFull := by
  refine ⟨_, rfl, ?_, ?_, ?_, ?_, ?_, ?_⟩ <;> decide +kernel

end Pool

end Netstack
