import Netstack.Link.Scripted
import Netstack.Proofs.Stack.Run

/-
What becomes of a packet that is dispatched.

It has one of three fates: it counts as a receive error, it counts as dropped, or it waits
behind the others in the receive queue of one connection and nothing is counted. Which one it
is depends on the bytes and on the pool alone and not on where the packet came from, so a
packet that a stack sends to itself has the fate that it would have if it came in through an
interface (`dispatch_cases`). What came from where matters for two things only: there is an
interface on which to count, and a way back to learn.

A fate can be told from the stack before and after, so there is exactly one
(`Accounts.unique`).
-/

set_option autoImplicit false

namespace Netstack

namespace RouteTable

variable {t : RouteTable} {offer r : Route} {a : Address}

/-- An offer of unknown speed replaces no route. -/
theorem add_of_unknown (t : RouteTable) (h : offer.speed = LinkSpeed.unknown) :
    (t.add offer).1 = t ∨
      (t.get offer.addr = none ∧ (t.add offer).1 = ⟨t.routes ++ [offer]⟩) := by
  unfold add
  split
  · next hnone => exact .inr ⟨hnone, rfl⟩
  · next r _ =>
    -- no speed is worse than unknown
    have hworst : ¬ offer.speed < r.speed := by
      rw [h, UInt32.lt_iff_toNat_lt]
      have hlt := r.speed.toNat_lt
      simp only [LinkSpeed.unknown, UInt32.reduceToNat]
      omega
    rw [if_neg hworst]
    exact .inl rfl

/-- A route that is put behind the others hides none of them. -/
theorem get_append (h : t.get a = some r) :
    (⟨t.routes ++ [offer]⟩ : RouteTable).get a = some r := by
  unfold get at h ⊢
  rw [List.find?_append, h]
  rfl

end RouteTable

namespace Stack

variable {δ : Type} {s t : Stack δ} {via : Option LinkId} {packet : Buffer} {index : Nat}
  {front bytes back : List UInt8} {p q : Pool}

/-! ## Fates -/

/-- Fewer bytes than a header has, or fewer behind it than it says. -/
def Truncated (bytes : List UInt8) : Prop :=
  bytes.length < headerLen ∨
    ∃ h rest, Header.decode bytes = some (h, rest) ∧ rest.length < h.payloadLen.toNat

/-- What becomes of a packet. -/
inductive Fate
  /-- it is none -/
  | rxError
  /-- nobody here takes it -/
  | dropped
  /-- it waits for a connection -/
  | queued (conn : Handle)

namespace Fate

/-- What is counted. -/
def counted : Fate → LinkCounters → LinkCounters
  | .rxError, c => { c with rxError := c.rxError + 1 }
  | .dropped, c => { c with dropped := c.dropped + 1 }
  | .queued _, c => c

/-- What is done to the pool. A packet that nobody takes comes to no slot. It may have been
for a peer that got a child for it, and if that child was given up again at once its slot is
free, as it was, and empty. -/
def Delivers (packet : Buffer) (p q : Pool) : Fate → Prop
  | .rxError => q = p
  | .dropped => ∀ k, q.packets k = p.packets k ∨
      ((p.census.status k).phase = .free ∧ q.packets k = [])
  | .queued conn => q.isOpen conn = true ∧
      q.packets = Function.update p.packets conn.index (p.packets conn.index ++ [packet])

end Fate

/-- Count what became of a packet, if it came from an interface. -/
def charge (s : Stack δ) (via : Option LinkId) (fate : Fate) : Stack δ :=
  match via with
  | some link => s.modifyLink link.index fun i => i.count fate.counted
  | none => s

theorem countRxError_eq (s : Stack δ) (via : Option LinkId) :
    s.countRxError via = s.charge via .rxError := by
  cases via <;> rfl

theorem countDrop_eq (s : Stack δ) (via : Option LinkId) :
    s.countDrop via = s.charge via .dropped := by
  cases via <;> rfl

@[simp] theorem charge_queued (s : Stack δ) (via : Option LinkId) (conn : Handle) :
    s.charge via (.queued conn) = s := by
  cases via with
  | none => rfl
  | some link =>
    have hsame : (fun i : Interface δ =>
        if i.index == link.index then i.count (Fate.queued conn).counted else i) = id := by
      funext i
      split <;> rfl
    simp only [charge, modifyLink, Registry.modify, hsame, List.map_id]

/-- Through an interface a packet has this fate: nothing but one counter, the packets of the
pool and the routes are others than before. -/
structure Accounts (fate : Fate) (index : Nat) (packet : Buffer) (s t : Stack δ) : Prop where
  stack : t = { s with
    interfaces := s.interfaces.modify index fun i => i.count fate.counted
    pool := t.pool
    routes := t.routes }
  pool : fate.Delivers packet s.pool t.pool

/-- A packet has one fate only. -/
theorem Accounts.unique {fate fate' : Fate} {i : Interface δ}
    (hi : s.interfaces.byIndex index = some i) (h : Accounts fate index packet s t)
    (h' : Accounts fate' index packet s t) : fate = fate' := by
  -- the counters of the interface tell which of the three it is
  have hlink : ∀ {f : Fate}, Accounts f index packet s t →
      t.interfaces.byIndex index = some (i.count f.counted) := by
    intro f hf
    rw [hf.stack, Registry.byIndex_modify (f := fun i => i.count f.counted) fun _ hk => hk,
      if_pos rfl, hi]
    rfl
  have hcount : fate.counted i.counters = fate'.counted i.counters :=
    congrArg Interface.counters (Option.some.inj ((hlink h).symm.trans (hlink h')))
  have hdropped := congrArg LinkCounters.dropped hcount
  have hrxError := congrArg LinkCounters.rxError hcount
  cases fate with
  | rxError =>
    cases fate' with
    | rxError => rfl
    | dropped => exact absurd hdropped.symm (System.add_one_ne _)
    | queued _ => exact absurd hrxError (System.add_one_ne _)
  | dropped =>
    cases fate' with
    | rxError => exact absurd hdropped (System.add_one_ne _)
    | dropped => rfl
    | queued _ => exact absurd hdropped (System.add_one_ne _)
  | queued conn =>
    cases fate' with
    | rxError => exact absurd hrxError.symm (System.add_one_ne _)
    | dropped => exact absurd hdropped.symm (System.add_one_ne _)
    | queued conn' =>
      -- the queue that has grown tells the slot, and a slot has one connection
      obtain ⟨hopen, hpackets⟩ := h.pool
      obtain ⟨hopen', hpackets'⟩ := h'.pool
      have hindex : conn.index = conn'.index := by
        by_contra hne
        have hgrown := congrFun (hpackets.symm.trans hpackets') conn.index
        rw [Function.update_self, Function.update_of_ne hne] at hgrown
        have hlength := congrArg List.length hgrown
        simp at hlength
      rw [Pool.eq_of_isOpen hopen hopen' hindex]

/-! ## What decides -/

theorem wellFormed?_of_truncated (hb : packet.Spans front bytes back) (ht : Truncated bytes) :
    wellFormed? packet = none := by
  unfold wellFormed? Buffer.parseHeader
  rw [hb.used_eq, hb.length_eq]
  rcases ht with hshort | ⟨h, rest, hread, hless⟩
  · rw [Header.decode_eq_none_iff.2 hshort]
    rfl
  · have hlen : headerLen ≤ bytes.length := by
      by_contra hlt
      rw [Header.decode_eq_none_iff.2 (by omega)] at hread
      cases hread
    obtain ⟨h', hread', -⟩ := Header.decode_of_length_le hlen
    obtain ⟨rfl, rfl⟩ := Prod.mk.inj (Option.some.inj (hread'.symm.trans hread))
    rw [List.length_drop] at hless
    simp [hread]
    omega

/-- A packet that is as long as it says has a header. -/
theorem wellFormed?_of_not_truncated (hb : packet.Spans front bytes back)
    (ht : ¬ Truncated bytes) :
    ∃ h, Header.decode bytes = some (h, bytes.drop headerLen) ∧ wellFormed? packet = some h := by
  have hlen : headerLen ≤ bytes.length := by
    by_contra hlt
    exact ht (.inl (by omega))
  obtain ⟨h, hread, -⟩ := Header.decode_of_length_le hlen
  have hpayload : h.payloadLen.toNat ≤ bytes.length - headerLen := by
    by_contra hlt
    refine ht (.inr ⟨h, _, hread, ?_⟩)
    rw [List.length_drop]
    omega
  refine ⟨h, hread, ?_⟩
  unfold wellFormed? Buffer.parseHeader
  rw [hb.used_eq, hb.length_eq, hread]
  simpa [Option.filter_some] using hpayload

theorem dispatch_of_truncated (hw : wellFormed? packet = none) (via : Option LinkId) :
    s.dispatch via packet = s.charge via .rxError := by
  unfold dispatch addressee
  rw [hw]
  exact s.countRxError_eq via

theorem dispatch_of_foreign {h : Header} (hw : wellFormed? packet = some h)
    (ha : s.isAddressed h = false) (via : Option LinkId) :
    s.dispatch via packet = s.charge via .dropped := by
  unfold dispatch addressee
  rw [hw]
  dsimp only
  rw [ha]
  exact s.countDrop_eq via

theorem pool_learn (s : Stack δ) (via : Option LinkId) (sender : Address) :
    (s.learn via sender).pool = s.pool := by
  unfold learn
  split
  · split <;> rfl
  · rfl

/-- A packet for this system. Its way through the pool, and with it its fate, is the same
wherever it came from. -/
theorem dispatch_of_addressed {h : Header} (hs : s.pool.Sound) (hw : wellFormed? packet = some h)
    (ha : s.isAddressed h = true) :
    ∃ q fate, fate ≠ .rxError ∧ fate.Delivers packet s.pool q ∧
      ∀ via, s.dispatch via packet =
        ({ s.learn via h.srcAddr with pool := q } : Stack δ).charge via fate := by
  unfold dispatch addressee onPool
  simp only [hw, ha, pool_learn, Bool.not_true, Bool.false_eq_true, if_false]
  obtain ⟨hkept, hcleared⟩ := hs.packets_resolveInbound h.dstPort ⟨h.srcAddr, h.srcPort⟩
  have hsound := (hs.resolveInbound h.dstPort ⟨h.srcAddr, h.srcPort⟩).sound
  generalize s.pool.resolveInbound h.dstPort ⟨h.srcAddr, h.srcPort⟩ = found at hkept hcleared hsound
  obtain ⟨q, answer⟩ := found
  dsimp only at hkept hcleared hsound ⊢
  have hlost : ∃ q' fate, fate ≠ .rxError ∧ fate.Delivers packet s.pool q' ∧
      ∀ via, ({ s.learn via h.srcAddr with pool := q } : Stack δ).countDrop via =
        ({ s.learn via h.srcAddr with pool := q' } : Stack δ).charge via fate :=
    ⟨q, .dropped, by rintro ⟨⟩, hcleared, fun via => countDrop_eq _ via⟩
  rcases answer with e | _ | conn
  · exact hlost
  · exact hlost
  · -- somebody takes the packet, if there is room
    have hpackets := hkept conn rfl
    have hcensus := Pool.census_rxPush (p := q) conn packet
    have hpush := Pool.rxPush_cases hsound conn packet
    dsimp only
    generalize q.rxPush conn packet = pushed at hcensus hpush
    obtain ⟨q', answer⟩ := pushed
    dsimp only at hcensus hpush ⊢
    obtain ⟨e, rfl, hsame⟩ | ⟨rfl, hopen, hmore⟩ := hpush
    · refine ⟨q', .dropped, by rintro ⟨⟩, fun k => ?_, fun via => countDrop_eq _ via⟩
      rw [hsame.packets_eq, hpackets]
      exact .inl rfl
    · refine ⟨q', .queued conn, by rintro ⟨⟩, ⟨?_, ?_⟩, fun via => (charge_queued _ via conn).symm⟩
      · rw [Pool.isOpen_iff, hcensus]
        exact Pool.isOpen_iff.1 hopen
      · rw [hmore.packets_eq, hpackets]

/-- The three ways of a packet. Only one for this system comes to the pool and to the routes. -/
theorem dispatch_cases (hs : s.pool.Sound) (hb : packet.Spans front bytes back) :
    (Truncated bytes ∧ ∀ via, s.dispatch via packet = s.charge via .rxError) ∨
    ∃ h, ¬ Truncated bytes ∧ Header.decode bytes = some (h, bytes.drop headerLen) ∧
      ((s.isAddressed h = false ∧ ∀ via, s.dispatch via packet = s.charge via .dropped) ∨
        (s.isAddressed h = true ∧ ∃ q fate, fate ≠ .rxError ∧ fate.Delivers packet s.pool q ∧
          ∀ via, s.dispatch via packet =
            ({ s.learn via h.srcAddr with pool := q } : Stack δ).charge via fate)) := by
  by_cases ht : Truncated bytes
  · exact .inl ⟨ht, dispatch_of_truncated (wellFormed?_of_truncated hb ht)⟩
  · obtain ⟨h, hread, hw⟩ := wellFormed?_of_not_truncated hb ht
    refine .inr ⟨h, ht, hread, ?_⟩
    cases ha : s.isAddressed h with
    | false => exact .inl ⟨rfl, dispatch_of_foreign hw ha⟩
    | true => exact .inr ⟨rfl, dispatch_of_addressed hs hw ha⟩

/-! ## Exactly one outcome -/

theorem learn_eq (s : Stack δ) (via : Option LinkId) (sender : Address) :
    s.learn via sender = { s with routes := (s.learn via sender).routes } := by
  unfold learn
  split
  · split <;> rfl
  · rfl

/-- Learning changes no route. There is a new one if there was none for the sender, who is
not everybody. -/
theorem routes_learn (s : Stack δ) (link : LinkId) (sender : Address) :
    (s.learn (some link) sender).routes = s.routes ∨
      (sender ≠ anyAddress ∧ s.routes.get sender = none ∧
        (s.learn (some link) sender).routes =
          ⟨s.routes.routes ++ [⟨link, sender, LinkSpeed.unknown⟩]⟩) := by
  unfold learn
  dsimp only
  split
  · exact .inl rfl
  · next hsender =>
    have hspeed : (Route.mk link sender LinkSpeed.unknown).speed = LinkSpeed.unknown := rfl
    rcases s.routes.add_of_unknown hspeed with hsame | ⟨hnone, hnew⟩
    · exact .inl hsame
    · exact .inr ⟨hsender, hnone, hnew⟩

/-- The routes that a packet finds are there after it. One that is new is the way back to the
sender of a packet for this system. -/
theorem routes_dispatch (hs : s.pool.Sound) (hb : packet.Spans front bytes back) (link : LinkId) :
    (s.dispatch (some link) packet).routes = s.routes ∨
      ∃ h rest, Header.decode bytes = some (h, rest) ∧ s.isAddressed h = true ∧
        h.srcAddr ≠ anyAddress ∧ s.routes.get h.srcAddr = none ∧
        (s.dispatch (some link) packet).routes =
          ⟨s.routes.routes ++ [⟨link, h.srcAddr, LinkSpeed.unknown⟩]⟩ := by
  rcases dispatch_cases hs hb with ⟨-, hd⟩ | ⟨h, -, hread, ⟨-, hd⟩ | ⟨ha, q, fate, -, -, hd⟩⟩
  · rw [hd]
    exact .inl rfl
  · rw [hd]
    exact .inl rfl
  · rw [hd]
    rcases s.routes_learn link h.srcAddr with hsame | ⟨hsender, hnone, hnew⟩
    · exact .inl hsame
    · exact .inr ⟨h, _, hread, ha, hsender, hnone, hnew⟩

/-- Without an interface the pool is changed as with one, and nothing else. -/
theorem dispatch_none (hs : s.pool.Sound) (hb : packet.Spans front bytes back) (link : LinkId) :
    s.dispatch none packet = { s with pool := (s.dispatch (some link) packet).pool } := by
  rcases dispatch_cases hs hb with ⟨-, hd⟩ | ⟨h, -, -, ⟨-, hd⟩ | ⟨-, q, fate, -, -, hd⟩⟩ <;>
    rw [hd, hd] <;> rfl

section Registered

variable {i : Interface δ}

theorem charge_of_byIndex (hi : s.interfaces.byIndex index = some i) (t : Stack δ) (fate : Fate) :
    t.charge (some i.id) fate = t.modifyLink index fun i => i.count fate.counted := by
  rw [charge, show i.id.index = index from Registry.index_of_byIndex hi]

theorem exists_accounts (hs : s.pool.Sound) (hb : packet.Spans front bytes back)
    (hi : s.interfaces.byIndex index = some i) :
    ∃ fate, Accounts fate index packet s (s.dispatch (some i.id) packet) ∧
      (fate = .rxError ↔ Truncated bytes) := by
  rcases dispatch_cases hs hb with ⟨ht, hd⟩ | ⟨h, ht, -, ⟨-, hd⟩ | ⟨-, q, fate, hne, hdel, hd⟩⟩
  · refine ⟨.rxError, ?_, iff_of_true rfl ht⟩
    rw [hd, charge_of_byIndex hi]
    exact ⟨rfl, rfl⟩
  · refine ⟨.dropped, ?_, iff_of_false (by rintro ⟨⟩) ht⟩
    rw [hd, charge_of_byIndex hi]
    exact ⟨rfl, fun _ => .inl rfl⟩
  · refine ⟨fate, ?_, iff_of_false hne ht⟩
    rw [hd, charge_of_byIndex hi, learn_eq]
    exact ⟨rfl, hdel⟩

/-- What is no packet is counted, and that is all. -/
theorem dispatch_eq_of_truncated (hb : packet.Spans front bytes back)
    (hi : s.interfaces.byIndex index = some i) (ht : Truncated bytes) :
    s.dispatch (some i.id) packet = s.modifyLink index Interface.recordRxError :=
  (dispatch_of_truncated (wellFormed?_of_truncated hb ht) _).trans (charge_of_byIndex hi _ _)

/-- So is a packet for another system. -/
theorem dispatch_eq_of_foreign {h : Header} {rest : List UInt8}
    (hb : packet.Spans front bytes back) (hi : s.interfaces.byIndex index = some i)
    (ht : ¬ Truncated bytes) (hread : Header.decode bytes = some (h, rest))
    (hother : h.dstAddr ≠ s.addr) (hany : h.dstAddr ≠ anyAddress) :
    s.dispatch (some i.id) packet = s.modifyLink index Interface.recordDrop := by
  obtain ⟨h', hread', hw⟩ := wellFormed?_of_not_truncated hb ht
  obtain ⟨rfl, -⟩ := Prod.mk.inj (Option.some.inj (hread'.symm.trans hread))
  have ha : s.isAddressed h' = false := by simp [isAddressed, hother, hany]
  exact (dispatch_of_foreign hw ha _).trans (charge_of_byIndex hi _ _)

end Registered

/-- The length from which the length of a payload is found is at least that of a header. -/
theorem headerLen_le_of_parseHeader {h : Header} (hb : packet.Spans front bytes back)
    (hparse : packet.parseHeader = some h) : headerLen ≤ packet.length := by
  unfold Buffer.parseHeader at hparse
  rw [hb.used_eq] at hparse
  rw [hb.length_eq]
  by_contra hlt
  rw [Header.decode_eq_none_iff.2 (by omega)] at hparse
  cases hparse

variable [LinkDriver δ]

/-- A packet that is dispatched through an interface counts as a receive error, exactly if it
has fewer bytes than a header or than its header says; or it counts as dropped; or it is
appended as it is to the receive queue of one connection. It has exactly one of these fates.
What is no packet, and what is for another system, changes nothing but the counter. No route
that is there is changed, and at the most one, to the sender, is new. Without an interface a
packet does the same to the pool and changes neither counters nor routes. No length
underflows. -/
theorem dispatch_accounted {conf : Config} (hs : Reachable conf s)
    (hb : packet.Spans front bytes back) :
    (∀ link, s.dispatch none packet = { s with pool := (s.dispatch (some link) packet).pool }) ∧
    (∀ h, packet.parseHeader = some h → headerLen ≤ packet.length) ∧
    ∀ index i, s.interfaces.byIndex index = some i →
      let t := s.dispatch (some i.id) packet
      (∃! fate, Accounts fate index packet s t) ∧
      (Accounts .rxError index packet s t ↔ Truncated bytes) ∧
      (Truncated bytes → t = s.modifyLink index Interface.recordRxError) ∧
      (∀ h rest, ¬ Truncated bytes → Header.decode bytes = some (h, rest) →
        h.dstAddr ≠ s.addr → h.dstAddr ≠ anyAddress →
        t = s.modifyLink index Interface.recordDrop) ∧
      (∀ a r, s.routes.get a = some r → t.routes.get a = some r) ∧
      (t.routes = s.routes ∨
        ∃ h rest, Header.decode bytes = some (h, rest) ∧ s.isAddressed h = true ∧
          h.srcAddr ≠ anyAddress ∧ s.routes.get h.srcAddr = none ∧
          t.routes = ⟨s.routes.routes ++ [⟨i.id, h.srcAddr, LinkSpeed.unknown⟩]⟩) := by
  have hsound := hs.sound.pool
  refine ⟨dispatch_none hsound hb, fun h => headerLen_le_of_parseHeader hb,
    fun index i hi => ?_⟩
  obtain ⟨fate, hfate, herror⟩ := exists_accounts hsound hb hi
  have hroutes := routes_dispatch hsound hb i.id
  refine ⟨⟨fate, hfate, fun _ h => h.unique hi hfate⟩, ⟨fun h => ?_, fun ht => ?_⟩,
    dispatch_eq_of_truncated hb hi,
    fun h rest ht hread => dispatch_eq_of_foreign hb hi ht hread, fun a r hr => ?_, hroutes⟩
  · exact herror.1 (hfate.unique hi h)
  · obtain rfl := herror.2 ht
    exact hfate
  · rcases hroutes with hsame | ⟨h, -, -, -, -, -, hnew⟩
    · rw [hsame]
      exact hr
    · rw [hnew]
      exact RouteTable.get_append hr

/-- The first packet of a neighbour for a listening socket makes a child, which gets it. -/
theorem dispatch_accounted_to_child :
    ∃ (s₀ : Stack ScriptedLink) (i : Interface ScriptedLink),
      new { addr := 0xAE55 } = .ok s₀ ∧ Interface.build { name := "radio" } {} = .ok i ∧
      let bytes : List UInt8 := [0xAE, 0x55, 0xAE, 0x56, 0, 0x40, 0, 0xE5, 9]
      let packet : Buffer := ⟨some 0, bytes, 0, 9⟩
      let s := ((((s₀.registerInterface i).1.socket).1.bind ⟨0, 0⟩ 5).1.listen ⟨0, 0⟩ 2).1
      let t := s.dispatch (some ⟨0, "radio"⟩) packet
      (Reachable { addr := 0xAE55 } s ∧ packet.Spans [] bytes []) ∧
        (∃! fate, Accounts fate 0 packet s t) ∧ t.pool.packets 1 = [packet] ∧
        t.routes.find 0xAE56 = some ⟨0, "radio"⟩ := by
  refine ⟨_, _, rfl, rfl, ?_⟩
  intro bytes packet s t
  have hnew : (new { addr := 0xAE55 } : Except Error (Stack ScriptedLink)) = .ok _ := rfl
  have hi := Interface.sound_build
    (rfl : Interface.build { name := "radio" } ({} : ScriptedLink) = .ok _)
  have hs : Reachable { addr := 0xAE55 } s :=
    ⟨_, hnew, (((Step.register _ hi).run.trans (Step.pool _ .alloc).run).trans
      (Step.pool _ (.bind ⟨0, 0⟩ 5)).run).trans (Step.pool _ (.listen ⟨0, 0⟩ 2)).run⟩
  have hb : packet.Spans [] bytes [] := ⟨rfl, rfl, rfl⟩
  refine ⟨⟨hs, hb⟩, ?_, by decide +kernel, by decide +kernel⟩
  obtain ⟨-, -, hdispatch⟩ := dispatch_accounted hs hb
  exact (hdispatch 0 _ rfl).1

end Stack

end Netstack
