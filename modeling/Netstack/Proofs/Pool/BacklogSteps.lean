import Netstack.Proofs.Pool.AcceptedChildren
import Netstack.Proofs.Pool.Handles
import Netstack.Proofs.Pool.Lookups

/-
What every operation does to every backlog.

The backlog of a connection that is there before and after an operation changes in three ways.
The connection begins to listen, and its backlog is empty; somebody accepts, and the handles up
to the first that still is a child are taken out; or new children join behind the others, mostly
none. `System.passes_step` says so of all operations, those that wait and are resumed included.
-/

set_option autoImplicit false

namespace Netstack

/-! ## Operations that leave the backlogs alone -/

namespace Pool

variable {p : Pool} {h c : Handle}

theorem sameBacklogs_setEvents (i : Nat) (g : EventGroup) : p.SameBacklogs (p.setEvents i g) :=
  sameBacklogs_modify i fun _ => rfl

theorem sameBacklogs_sleep (i : Nat) : p.SameBacklogs (p.sleep i) :=
  sameBacklogs_modify i fun _ => rfl

theorem sameBacklogs_rise (i : Nat) : p.SameBacklogs (p.rise i) :=
  sameBacklogs_modify i fun _ => rfl

theorem sameBacklogs_beginPush (h : Handle) (packet : Buffer) :
    p.SameBacklogs (p.beginPush h packet).1 := by
  unfold beginPush
  split
  · exact .refl _
  · split
    · exact (sameBacklogs_setQueue _ _).trans (sameBacklogs_afterPush _ _)
    · exact sameBacklogs_setQueue _ _

theorem sameBacklogs_beginPop (h : Handle) (waits : Bool) :
    p.SameBacklogs (p.beginPop h waits).1 := by
  obtain he | he := beginPop_fst p h waits
  · rw [he]
    exact sameBacklogs_lookPacket h
  · rw [he]
    exact (sameBacklogs_lookPacket h).trans (sameBacklogs_sleep _)

theorem sameBacklogs_wakeBits (i : Nat) (call : EventGroup.Call) :
    p.SameBacklogs (p.wakeBits i call).1 := by
  unfold wakeBits
  split
  · exact .refl _
  · split <;> exact sameBacklogs_setEvents _ _

theorem sameBacklogs_wake {call : Call} (hno : ∀ k, call ≠ .accept k) :
    p.SameBacklogs (p.wake call).1 := by
  unfold wake
  cases call with
  | accept k => exact absurd rfl (hno k)
  | push h packet =>
    dsimp only
    split
    · exact .refl _
    · split
      · exact (sameBacklogs_setQueue _ _).trans (sameBacklogs_afterPush _ _)
      · exact sameBacklogs_setQueue _ _
  | pushRaw i packet =>
    dsimp only
    split
    · exact .refl _
    · split <;> exact sameBacklogs_setQueue _ _
  | pop h =>
    have hbits := sameBacklogs_wakeBits (p := p) h.index (watching packetBits)
    dsimp only
    split <;> rename_i hq <;> rw [hq] at hbits
    · exact hbits.trans (sameBacklogs_beginPop h true)
    · exact hbits
  | bits i call =>
    have hbits := sameBacklogs_wakeBits (p := p) i call
    dsimp only
    split <;> rename_i hq <;> rw [hq] at hbits <;> exact hbits

theorem sameBacklogs_expire {call : Call} (hno : ∀ k, call ≠ .accept k) :
    p.SameBacklogs (p.expire call).1 := by
  cases call with
  | accept k => exact absurd rfl (hno k)
  | push h packet =>
    unfold expire
    dsimp only
    split
    · exact .refl _
    · exact (sameBacklogs_setQueue _ _).trans (sameBacklogs_afterPush _ _)
  | pushRaw i packet =>
    unfold expire
    dsimp only
    split
    · exact .refl _
    · exact sameBacklogs_setQueue _ _
  | pop h =>
    rw [expire_pop_fst]
    exact (sameBacklogs_rise _).trans (sameBacklogs_lookPacket h)
  | bits i call =>
    unfold expire
    dsimp only
    split
    · exact .refl _
    · exact sameBacklogs_setEvents _ _

/-! ## The answers of calls that accept -/

theorem accept_eq_ok_iff {timeout : Timeout} :
    (p.accept h timeout).2 = .ok c ↔ (p.lookChild h).2 = .ok (some c) := by
  refine ⟨lookChild_of_accept, fun hc => ?_⟩
  unfold accept
  generalize p.lookChild h = looked at hc
  obtain ⟨q, answer⟩ := looked
  obtain rfl : answer = .ok (some c) := hc
  rfl

theorem beginAccept_eq_accepted_iff {waits : Bool} :
    (p.beginAccept h waits).2 = .done (.accepted (.ok c)) ↔ (p.lookChild h).2 = .ok (some c) := by
  refine ⟨lookChild_of_beginAccept, fun hc => ?_⟩
  unfold beginAccept
  generalize p.lookChild h = looked at hc
  obtain ⟨q, answer⟩ := looked
  obtain rfl : answer = .ok (some c) := hc
  rfl

theorem expire_accept_eq_accepted_iff :
    (p.expire (.accept h)).2 = .accepted (.ok c) ↔
      ((p.rise h.index).lookChild h).2 = .ok (some c) := by
  unfold expire
  dsimp only
  generalize (p.rise h.index).lookChild h = looked
  obtain ⟨q, e | _ | child⟩ := looked <;> simp

end Pool

/-! ## Who is handed over, and who is offered -/

open Pool (Op)

namespace Pool

/-- The listener that a connected child was made for. -/
def parentOf? (p : Pool) (c : Handle) : Option Handle :=
  (p.slot? c).bind fun s => if s.phase = .connected then s.role.parent? else none

theorem parentOf?_eq_some_iff {p : Pool} {h c : Handle} :
    p.parentOf? c = some h ↔ p.isPendingChild h c = true := by
  unfold parentOf? isPendingChild
  cases p.slot? c with
  | none => simp
  | some s =>
    rw [Option.bind_some]
    split <;> simp_all

end Pool

namespace System

variable {s : System} {op : Op} {h c : Handle} {w : Nat → List Handle}

/-- The listener that an operation accepts a child for, and the child. -/
def handover (s : System) (op : Op) : List (Handle × Handle) :=
  match s.acceptor? op, (s.step op).2 with
  | some h, .handle (.ok c) => [(h, c)]
  | _, _ => []

/-- The listeners that an operation makes children for, each with the child. -/
def offers (s : System) (op : Op) : List (Handle × Handle) :=
  (s.made op).filterMap fun c => ((s.step op).1.pool.parentOf? c).map (·, c)

/-- The children that an operation makes for a listener. -/
def offersTo (s : System) (op : Op) (h : Handle) : List Handle :=
  (s.made op).filter ((s.step op).1.pool.isPendingChild h)

/-- A connection begins to listen. -/
def relistens (s : System) (h : Handle) : Op → Bool
  | .listen x backlog => x = h ∧ s.pool.In x .bound ∧ (s.pool.listen x backlog).1.In x .listen
  | _ => false

theorem mem_handover : (h, c) ∈ s.handover op ↔ s.Accepts op h c := by
  unfold handover Accepts
  split
  · next h' c' hwho hr => simp [hwho, hr, eq_comm]
  · next hno =>
    refine iff_of_false (by simp) ?_
    rintro ⟨hwho, hr⟩
    exact hno h c hwho hr

theorem handover_of_acceptor?_none (hno : s.acceptor? op = none) : s.handover op = [] := by
  unfold handover
  rw [hno]

theorem mem_offersTo :
    c ∈ s.offersTo op h ↔ c ∈ s.made op ∧ (s.step op).1.pool.isPendingChild h c = true :=
  List.mem_filter

theorem mem_made_of_mem_offers {x : Handle × Handle} (hx : x ∈ s.offers op) : x.2 ∈ s.made op := by
  obtain ⟨c, hc, hpar⟩ := List.mem_filterMap.1 hx
  obtain ⟨h, -, rfl⟩ := Option.map_eq_some_iff.1 hpar
  exact hc

/-- A child that is offered is offered to one listener. -/
theorem count_offersTo (s : System) (op : Op) (h c : Handle) :
    (s.offersTo op h).count c = (s.offers op).count (h, c) := by
  unfold offersTo offers
  rw [List.count_filterMap, List.count_eq_countP, List.countP_filter]
  refine List.countP_congr fun a _ => ?_
  have hmap : ((s.step op).1.pool.parentOf? a).map (·, a) = some (h, c) ↔
      a = c ∧ (s.step op).1.pool.isPendingChild h a = true := by
    rw [← Pool.parentOf?_eq_some_iff, Option.map_eq_some_iff]
    constructor
    · rintro ⟨h', hh, heq⟩
      obtain ⟨rfl, rfl⟩ := Prod.mk.inj heq
      exact ⟨rfl, hh⟩
    · rintro ⟨rfl, hh⟩
      exact ⟨h, hh, rfl⟩
  simp [hmap]

theorem made_of_quiet (hq : op.isQuiet = true) : s.made op = [] := by
  cases op <;> first | rfl | cases hq

theorem offersTo_of_made (hmade : s.made op = []) : s.offersTo op h = [] := by
  rw [offersTo, hmade, List.filter_nil]

/-- Nobody is offered to a connection unless a slot that was free has its child. -/
theorem offersTo_eq_nil (hfam : s.pool.census.Family)
    (hno : ∀ c, (s.pool.census.status c.index).phase = .free →
      (s.step op).1.pool.isPendingChild h c = true → ¬ (s.step op).1.pool.census.Live c) :
    s.offersTo op h = [] := by
  rw [List.eq_nil_iff_forall_not_mem]
  intro c hc
  obtain ⟨hmade, hpending⟩ := mem_offersTo.1 hc
  have hbegins := begins_of_mem_made hfam hmade
  exact hno c hbegins.free hpending hbegins.live

/-! ## Calls that accept -/

theorem settle_eq_accepted_iff {o : Pool.Outcome} :
    (s.settle o).2 = .handle (.ok c) ↔ o.2 = .done (.accepted (.ok c)) := by
  refine ⟨accepted_of_settle, fun ho => ?_⟩
  obtain ⟨p, progress⟩ := o
  obtain rfl : progress = .done (.accepted (.ok c)) := ho
  rfl

/-- A call that accepts a child looks into the backlog as it finds it, or it does not look, since
it was woken for nothing. -/
theorem looks_of_acceptor? (hwho : s.acceptor? op = some h) :
    (s.pool.SameBacklogs (s.step op).1.pool ∧ ∀ c, (s.step op).2 ≠ .handle (.ok c)) ∨
    ∃ p, s.pool.SameBacklogs p ∧ p.census = s.pool.census ∧
      (p.lookChild h).1.SameBacklogs (s.step op).1.pool ∧
      ∀ c, (s.step op).2 = .handle (.ok c) ↔ (p.lookChild h).2 = .ok (some c) := by
  -- to begin is to look, and perhaps to go to sleep
  have hbegin : ∀ p : Pool,
      (p.lookChild h).1.SameBacklogs (p.beginAccept h true).1 := by
    intro p
    obtain he | he := Pool.beginAccept_fst p h true
    · rw [he]
      exact .refl _
    · rw [he]
      exact Pool.sameBacklogs_sleep _
  cases op with
  | accept h' timeout =>
    obtain rfl := Option.some.inj hwho
    refine .inr ⟨s.pool, .refl _, rfl, ?_, fun c => ?_⟩
    · show (s.pool.lookChild h').1.SameBacklogs (s.pool.accept h' timeout).1
      rw [Pool.accept_fst]
      exact .refl _
    · exact .trans ⟨Pool.Reply.handle.inj, congrArg Pool.Reply.handle⟩ Pool.accept_eq_ok_iff
  | beginAccept h' =>
    obtain rfl := Option.some.inj hwho
    refine .inr ⟨s.pool, .refl _, rfl, ?_, fun c => ?_⟩
    · rw [step, pool_settle]
      exact hbegin s.pool
    · exact settle_eq_accepted_iff.trans Pool.beginAccept_eq_accepted_iff
  | wake k =>
    have hstep : s.step (.wake k) = (s.rouse k).settle (s.pool.wake (.accept h)) := by
      rw [step, asleep_of_acceptor? hwho]
    have hbits := Pool.sameBacklogs_wakeBits (p := s.pool) h.index (Pool.watching Pool.childBits)
    have hcensus := Pool.census_wakeBits (p := s.pool) h.index (Pool.watching Pool.childBits)
    rw [hstep, pool_settle]
    simp only [settle_eq_accepted_iff, ne_eq]
    unfold Pool.wake
    dsimp only
    split <;> rename_i hq <;> rw [hq] at hbits hcensus
    · exact .inr ⟨_, hbits, hcensus, hbegin _, fun c => Pool.beginAccept_eq_accepted_iff⟩
    · exact .inl ⟨hbits, by rintro c ⟨⟩⟩
  | expire k =>
    have hstep : s.step (.expire k) =
        (s.rouse k).act (·.expire (.accept h)) .ofAnswer := by
      rw [step, asleep_of_acceptor? hwho]
    refine .inr ⟨s.pool.rise h.index, Pool.sameBacklogs_rise _, Pool.census_rise _, ?_, fun c => ?_⟩
    · rw [hstep]
      show Pool.SameBacklogs _ (s.pool.expire (.accept h)).1
      rw [Pool.expire_accept_fst]
      exact .refl _
    · rw [hstep, ← Pool.expire_accept_eq_accepted_iff]
      show Pool.Reply.ofAnswer (s.pool.expire (.accept h)).2 = _ ↔ _
      cases (s.pool.expire (.accept h)).2 <;> simp [Pool.Reply.ofAnswer]
  | _ => cases hwho

/-- Whoever accepts no child and only moves packets or bits leaves the backlogs alone. -/
theorem sameBacklogs_of_quiet (hq : op.isQuiet = true) (hno : s.acceptor? op = none) :
    s.pool.SameBacklogs (s.step op).1.pool := by
  cases op with
  | alloc | bind _ _ | listen _ _ | connect _ _ | setPriority _ _ | setRecvTimeout _ _
  | setSendTimeout _ _ | offerChild _ _ | resolveInbound _ _ | close _ | free _ => cases hq
  | accept h timeout | beginAccept h => cases hno
  | rxPush h packet => exact Pool.sameBacklogs_rxPush h packet
  | rxPop h timeout => exact Pool.sameBacklogs_rxPop h timeout
  | rxFlush h => exact Pool.sameBacklogs_rxFlush h
  | options _ | phase _ | info _ | events _ | rxQueue _ => exact .refl _
  | attachMonitor | dropMonitor | readEvents => exact ⟨fun _ => rfl⟩
  | beginPush h packet =>
    rw [step, pool_settle]
    exact Pool.sameBacklogs_beginPush h packet
  | beginPop h =>
    rw [step, pool_settle]
    exact Pool.sameBacklogs_beginPop h true
  | wake k =>
    obtain he | ⟨call, hk, he⟩ := step_wake_cases s k
    · rw [he]
      exact .refl _
    · rw [he, pool_settle]
      refine Pool.sameBacklogs_wake ?_
      rintro j rfl
      rw [acceptor?, hk] at hno
      cases hno
  | expire k =>
    obtain he | ⟨call, hk, he⟩ := step_expire_cases s k
    · rw [he]
      exact .refl _
    · rw [he]
      refine Pool.sameBacklogs_expire ?_
      rintro j rfl
      rw [acceptor?, hk] at hno
      cases hno

/-! ## All operations -/

/-- What an operation does to the handles in the backlog of a connection that is there before
and after. -/
inductive Passes (s : System) (op : Op) (h : Handle) (xs : List Handle) : List Handle → Prop
  /-- the connection begins to listen, and starts with none -/
  | relists (begins : s.relistens h op = true) : Passes s op h xs []
  /-- somebody accepts, and takes the first child out, with what comes before it -/
  | looks (quiet : op.isQuiet = true)
      (finds : ∀ c, (h, c) ∈ s.handover op ↔ xs.find? (s.pool.isPendingChild h) = some c) :
      Passes s op h xs (xs.dropWhile fun c => !s.pool.isPendingChild h c).tail
  /-- new children go behind the others -/
  | joins (begins : s.relistens h op = false) (hands : ∀ c, (h, c) ∉ s.handover op) :
      Passes s op h xs (xs ++ s.offersTo op h)

/-- What an operation does to all backlogs: it passes on those of the connections that stay, and
the others have none. -/
def PassesAll (s : System) (op : Op) (w w' : Nat → List Handle) : Prop :=
  (s.step op).1.pool.Backlogs w' ∧
    (∀ h, s.pool.census.Live h → (s.step op).1.pool.census.Live h →
      s.Passes op h (w h.index) (w' h.index)) ∧
    ∀ i, (s.pool.census.status i).phase = .free →
      ((s.step op).1.pool.census.status i).phase ≠ .free → w' i = w i

theorem relistens_of_quiet (hq : op.isQuiet = true) : s.relistens h op = false := by
  cases op <;> first | rfl | cases hq

theorem acceptor?_of_not_quiet (hq : op.isQuiet = false) : s.acceptor? op = none := by
  cases op <;> first | rfl | cases hq

/-- Where no child comes and none goes the backlog is passed on as it is. -/
theorem passes_of_same (hbegins : s.relistens h op = false) (hhands : ∀ c, (h, c) ∉ s.handover op)
    (hoffers : s.offersTo op h = []) (xs : List Handle) : s.Passes op h xs xs := by
  have hjoins : s.Passes op h xs (xs ++ s.offersTo op h) := .joins hbegins hhands
  rwa [hoffers, List.append_nil] at hjoins

/-- An operation that makes no child and leaves the backlogs alone. -/
theorem passesAll_of_same (hw : s.pool.Backlogs w) (hs : s.pool.SameBacklogs (s.step op).1.pool)
    (hmade : ∀ h, s.offersTo op h = []) (hbegins : ∀ h, s.relistens h op = false)
    (hhands : s.handover op = []) : s.PassesAll op w w := by
  exact ⟨hs.backlogs hw, fun h _ _ => passes_of_same (hbegins h) (by simp [hhands]) (hmade h) _,
    fun _ _ _ => rfl⟩

theorem passesAll_of_quiet (hw : s.pool.Backlogs w) (hq : op.isQuiet = true) :
    ∃ w', s.PassesAll op w w' := by
  have hmade : ∀ h, s.offersTo op h = [] := fun h => offersTo_of_made (made_of_quiet hq)
  have hbegins : ∀ h, s.relistens h op = false := fun h => relistens_of_quiet hq
  cases hwho : s.acceptor? op with
  | none =>
    exact ⟨w, passesAll_of_same hw (sameBacklogs_of_quiet hq hwho) hmade hbegins
      (handover_of_acceptor?_none hwho)⟩
  | some k =>
    have hnone : (∀ c, (s.step op).2 ≠ .handle (.ok c)) → s.handover op = [] := by
      intro hno
      rw [List.eq_nil_iff_forall_not_mem]
      rintro ⟨h, c⟩ hx
      exact hno c (mem_handover.1 hx).2
    obtain ⟨hs, hno⟩ | ⟨p, hs, hcensus, hs', hfinds⟩ := looks_of_acceptor? hwho
    · exact ⟨w, passesAll_of_same hw hs hmade hbegins (hnone hno)⟩
    have hwp := hs.backlogs hw
    obtain ⟨e, he⟩ | ⟨hl, hfound, hback⟩ := hwp.find k
    · rw [he] at hs' hfinds
      refine ⟨w, passesAll_of_same hw (hs.trans hs') hmade hbegins (hnone fun c hc => ?_)⟩
      cases (hfinds c).1 hc
    · -- the state that the call looks at has the same children
      rw [hcensus] at hl
      have hsame : p.isPendingChild k = s.pool.isPendingChild k :=
        funext fun c => Pool.isPendingChild_congr hcensus k c
      rw [hsame] at hfound hback
      refine ⟨_, hs'.backlogs hback, fun h hh hh' => ?_, fun i hi _ => ?_⟩
      · by_cases hk : h.index = k.index
        · obtain rfl := hh.eq_of_index_eq hl hk
          rw [Function.update_self]
          refine .looks hq fun c => ?_
          rw [mem_handover, Accepts, hwho, and_iff_right rfl, hfinds c, hfound]
          exact ⟨Except.ok.inj, congrArg Except.ok⟩
        · -- it is the backlog of another
          rw [Function.update_of_ne hk]
          refine passes_of_same (hbegins h) (fun c hc => hk ?_) (hmade h) _
          rw [Option.some.inj (hwho.symm.trans (mem_handover.1 hc).1)]
      · rw [Function.update_of_ne]
        rintro rfl
        exact hl.2 hi

/-- An operation that offers a child, if it finds a listener to offer it to. -/
theorem passesAll_of_offer (parent : Handle) (peer : Peer) (hw : s.pool.Backlogs w)
    (hfam : s.pool.census.Family) (hq : op.isQuiet = false)
    (hbegins : ∀ h, s.relistens h op = false)
    (hpool : (s.step op).1.pool = (s.pool.offerChild parent peer).1)
    (hmade : ∀ child, (s.pool.offerChild parent peer).2 = .ok child →
      s.pool.slot? child = none → s.made op = [child]) :
    ∃ w', s.PassesAll op w w' := by
  have hhands := handover_of_acceptor?_none (acceptor?_of_not_quiet (s := s) hq)
  obtain he | ⟨child, q, he, hs, ⟨hp, hok, hc, hback⟩ | ⟨hfree, hback⟩⟩ :=
    hw.offerChild hfam parent peer
  · have hsame := hpool.trans he
    refine ⟨w, passesAll_of_same hw (hsame ▸ .refl _) (fun h => ?_) hbegins hhands⟩
    refine offersTo_eq_nil hfam fun c hfree _ hl => hl.2 ?_
    rw [hsame]
    exact hfree
  · -- the child is the only one that is new, and it is a child of this parent
    obtain rfl := hpool.trans he
    have hnone : s.pool.slot? child = none :=
      Pool.not_live_iff.1 fun hl => hl.2 hs.free
    have hoffers : ∀ h, s.offersTo op h = if h = parent then [child] else [] := by
      intro h
      rw [offersTo, hmade child hok hnone]
      split
      · next heq =>
        rw [List.filter_cons_of_pos (heq ▸ Pool.isPendingChild_iff.2 ⟨peer, hc⟩), List.filter_nil]
      · next hne =>
        refine List.filter_eq_nil_iff.2 fun c hmem hpending => hne ?_
        obtain rfl := List.mem_singleton.1 hmem
        obtain ⟨_, hc'⟩ := Pool.isPendingChild_iff.1 hpending
        exact Option.some.inj (hc'.parent.symm.trans hc.parent)
    refine ⟨_, hback, fun h hh _ => ?_, fun i hi _ => ?_⟩
    · -- the parent has one more, and everybody else what was there
      have hnobody : ∀ c, (h, c) ∉ s.handover op := by simp [hhands]
      by_cases hi : h.index = parent.index
      · obtain rfl := hh.eq_of_index_eq hp hi
        have hjoins : s.Passes op h (w h.index) (w h.index ++ s.offersTo op h) :=
          .joins (hbegins h) hnobody
        rw [hoffers h, if_pos rfl] at hjoins
        rwa [Function.update_self]
      · rw [Function.update_of_ne hi]
        refine passes_of_same (hbegins h) hnobody ?_ _
        rw [hoffers h, if_neg fun heq => hi (by rw [heq])]
    · rw [Function.update_of_ne]
      rintro rfl
      exact hp.2 hi
  · -- the child could not join the backlog and has been given back
    obtain rfl := hpool.trans he
    have hoffers : ∀ h, s.offersTo op h = [] := by
      refine fun h => offersTo_eq_nil hfam fun c hcfree _ hl => hl.2 ?_
      by_cases hi : c.index = child.index
      · rw [hi]
        exact hfree
      · rw [(hs.others c.index hi).phase]
        exact hcfree
    exact ⟨w, hback, fun h _ _ => passes_of_same (hbegins h) (by simp [hhands]) (hoffers h) _,
      fun _ _ _ => rfl⟩

theorem made_offerChild {parent child : Handle} {peer : Peer}
    (hok : (s.pool.offerChild parent peer).2 = .ok child) (hnone : s.pool.slot? child = none) :
    s.made (.offerChild parent peer) = [child] := by
  have hreply : (s.step (.offerChild parent peer)).2 = .handle (.ok child) :=
    congrArg Pool.Reply.handle hok
  unfold made
  rw [hreply]
  dsimp only
  rw [hnone]
  rfl

theorem passesAll_offerChild (hw : s.pool.Backlogs w) (hfam : s.pool.census.Family)
    (parent : Handle) (peer : Peer) : ∃ w', s.PassesAll (.offerChild parent peer) w w' :=
  passesAll_of_offer parent peer hw hfam rfl (fun _ => rfl) rfl fun _ => made_offerChild

theorem passesAll_resolveInbound (hw : s.pool.Backlogs w) (hfam : s.pool.census.Family)
    (dstPort : UInt8) (peer : Peer) : ∃ w', s.PassesAll (.resolveInbound dstPort peer) w w' := by
  have hhands : s.handover (.resolveInbound dstPort peer) = [] :=
    handover_of_acceptor?_none (acceptor?_of_not_quiet rfl)
  have hnobody : (s.pool.resolveInbound dstPort peer).1 = s.pool →
      ∃ w', s.PassesAll (.resolveInbound dstPort peer) w w' := by
    intro he
    refine ⟨w, passesAll_of_same hw ?_ (fun h => ?_) (fun _ => rfl) hhands⟩
    · rw [show (s.step (.resolveInbound dstPort peer)).1.pool = s.pool from he]
      exact .refl _
    · refine offersTo_eq_nil hfam fun c hfree _ hl => hl.2 ?_
      rw [show (s.step (.resolveInbound dstPort peer)).1.pool = s.pool from he]
      exact hfree
  cases hf : (s.pool.candidates dstPort).findSome? (s.pool.taker? peer) with
  | none => exact hnobody (by rw [Pool.resolveInbound, hf])
  | some taker =>
    cases taker with
    | direct conn => exact hnobody (by rw [Pool.resolveInbound_of_direct hf])
    | listener conn =>
      have hresolve := Pool.resolveInbound_of_listener hf
      refine passesAll_of_offer conn peer hw hfam rfl (fun _ => rfl)
        (congrArg Prod.fst hresolve) fun child hok hnone => ?_
      have hreply : (s.step (.resolveInbound dstPort peer)).2 = .found (.ok (some child)) := by
        show Pool.Reply.found (s.pool.resolveInbound dstPort peer).2 = _
        rw [hresolve, hok]
        rfl
      unfold made
      rw [hreply]
      dsimp only
      rw [hnone]
      rfl

theorem passesAll_alloc (hw : s.pool.Backlogs w) (hfam : s.pool.census.Family) :
    s.PassesAll .alloc w w := by
  refine ⟨hw.alloc hfam, fun h _ _ => ?_, fun _ _ _ => rfl⟩
  have hoffers : s.offersTo .alloc h = [] := by
    refine offersTo_eq_nil hfam fun c hfree hpending _ => ?_
    obtain ⟨_, hc⟩ := Pool.isPendingChild_iff.1 hpending
    -- a slot that is handed out is closed
    have hconnected : (s.pool.alloc.1.census.status c.index).phase = .connected := hc.connected
    obtain ⟨e, he⟩ | ⟨i, -, -, -, hcensus⟩ := Pool.alloc_cases s.pool
    · rw [he, hfree] at hconnected
      cases hconnected
    · rw [hcensus] at hconnected
      by_cases hi : c.index = i
      · rw [hi, Census.status_alter_self] at hconnected
        cases hconnected
      · rw [Census.status_alter_of_ne hi, hfree] at hconnected
        cases hconnected
  have hhands : s.handover .alloc = [] := handover_of_acceptor?_none rfl
  exact passes_of_same rfl (by simp [hhands]) hoffers _

theorem passesAll_listen (hw : s.pool.Backlogs w) (x : Handle) (backlog : Nat) :
    ∃ w', s.PassesAll (.listen x backlog) w w' := by
  have hhands : s.handover (.listen x backlog) = [] := handover_of_acceptor?_none rfl
  obtain ⟨e, he⟩ | ⟨t, hl, hbound, hcensus, hback⟩ := hw.listen x backlog
  · refine ⟨w, passesAll_of_same hw ?_ (fun h => rfl) (fun h => ?_) hhands⟩
    · show s.pool.SameBacklogs (s.pool.listen x backlog).1
      rw [he]
      exact .refl _
    · rw [relistens, he]
      refine decide_eq_false ?_
      rintro ⟨-, hbound, hlisten⟩
      cases (Pool.in_iff.1 hbound).2.symm.trans (Pool.in_iff.1 hlisten).2
  · have hlisten : (s.pool.listen x backlog).1.In x .listen := by
      rw [Pool.in_iff, hcensus, Census.Live, Census.status_withPorts, Census.status_alter_self]
      exact ⟨⟨hl.1, by simp [Status.listening]⟩, rfl⟩
    refine ⟨_, hback, fun h hh _ => ?_, fun i hi _ => ?_⟩
    · by_cases hx : h.index = x.index
      · obtain rfl := hh.eq_of_index_eq hl hx
        rw [Function.update_self]
        exact .relists (decide_eq_true ⟨rfl, Pool.in_iff.2 ⟨hl, hbound⟩, hlisten⟩)
      · rw [Function.update_of_ne hx]
        have hbegins : s.relistens h (.listen x backlog) = false :=
          decide_eq_false fun hno => hx (by rw [hno.1])
        exact passes_of_same hbegins (by simp [hhands]) (offersTo_of_made rfl) _
    · rw [Function.update_of_ne]
      rintro rfl
      exact hl.2 hi

theorem passesAll_free (hw : s.pool.Backlogs w) (x : Handle) :
    ∃ w', s.PassesAll (.free x) w w' := by
  obtain ⟨w', hw', hfrees⟩ := Pool.free_frees hw x
  refine ⟨w', hw', fun h _ hh' => ?_, fun i _ hi => hfrees.kept i hi⟩
  have hhands : s.handover (.free x) = [] := handover_of_acceptor?_none rfl
  rw [hfrees.kept h.index hh'.2]
  exact passes_of_same rfl (by simp [hhands]) (offersTo_of_made rfl) _

theorem passesAll_step (hw : s.pool.Backlogs w) (hfam : s.pool.census.Family) (op : Op) :
    ∃ w', s.PassesAll op w w' := by
  have hsame : ∀ {op : Op}, s.pool.SameBacklogs (s.step op).1.pool → s.made op = [] →
      (∀ h, s.relistens h op = false) → s.acceptor? op = none → ∃ w', s.PassesAll op w w' :=
    fun hs hmade hbegins hno => ⟨w, passesAll_of_same hw hs (fun _ => offersTo_of_made hmade)
      hbegins (handover_of_acceptor?_none hno)⟩
  by_cases hq : op.isQuiet = true
  · exact passesAll_of_quiet hw hq
  cases op with
  | alloc => exact ⟨w, passesAll_alloc hw hfam⟩
  | bind h port => exact hsame (Pool.sameStores_bind h port).sameBacklogs rfl (fun _ => rfl) rfl
  | listen x backlog => exact passesAll_listen hw x backlog
  | connect h peer =>
    exact hsame (Pool.sameStores_connect h peer).sameBacklogs rfl (fun _ => rfl) rfl
  | setPriority h priority =>
    exact hsame (Pool.sameStores_setPriority h priority).sameBacklogs rfl (fun _ => rfl) rfl
  | setRecvTimeout h timeout | setSendTimeout h timeout =>
    exact hsame (Pool.sameStores_updateOptions h _).sameBacklogs rfl (fun _ => rfl) rfl
  | offerChild parent peer => exact passesAll_offerChild hw hfam parent peer
  | resolveInbound dstPort peer => exact passesAll_resolveInbound hw hfam dstPort peer
  | close h => exact hsame (Pool.sameBacklogs_close h) rfl (fun _ => rfl) rfl
  | free h => exact passesAll_free hw h
  | _ => exact absurd rfl hq

/-- Every operation passes on the backlogs of the connections that stay, and gives new ones an
empty backlog. -/
theorem passes_step (hw : s.pool.Backlogs w) (hfam : s.pool.census.Family) (op : Op) :
    (∃ w', (s.step op).1.pool.Backlogs w') ∧ ∀ h, (s.step op).1.pool.census.Live h →
      (s.pool.census.Live h ∧
        s.Passes op h (s.pool.backlogOf h) ((s.step op).1.pool.backlogOf h)) ∨
      (¬ s.pool.census.Live h ∧ (s.step op).1.pool.backlogOf h = []) := by
  obtain ⟨w', hw', hpass, hfresh⟩ := passesAll_step hw hfam op
  refine ⟨⟨w', hw'⟩, fun h hl => ?_⟩
  rw [hw.backlogOf_eq, hw'.backlogOf_eq]
  by_cases hbefore : s.pool.census.Live h
  · exact .inl ⟨hbefore, hpass h hbefore hl⟩
  · -- its slot was free
    have hfree : (s.pool.census.status h.index).phase = .free := by
      by_contra hused
      obtain hstays | hretires := (s.moves_step op).ages h.index
      · exact hbefore ⟨hstays.generation.symm.trans hl.1, hused⟩
      · exact hl.2 hretires.phase
    refine .inr ⟨hbefore, ?_⟩
    rw [hfresh h.index hfree hl.2, hw.vacant hfam hfree]

end System

end Netstack
