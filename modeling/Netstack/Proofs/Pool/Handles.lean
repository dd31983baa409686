import Mathlib.Data.List.Nodup
import Netstack.Proofs.Pool.Generations

/-
Stale handles: a handle that has ended is never mistaken for another connection.

Three things are said of every run in which no slot is given back so often that its counter
goes around. No handle is made twice. Whoever calls an operation with a handle that has
ended is refused, and nothing changes. And `free` succeeds at most once with a handle.

A handle is made by `alloc`, or by an offer to a listening connection which has no child for
the peer yet; an offer that finds the peer's child returns a handle that is live already.
-/

set_option autoImplicit false

namespace Netstack

namespace Pool

variable {p : Pool} {h : Handle}

/-! ## Operations on a stale handle -/

/-- The connection that an operation acts on. -/
def Op.subject : Op → Option Handle
  | bind h _ | listen h _ | connect h _ | setPriority h _ | setRecvTimeout h _
  | setSendTimeout h _ | offerChild h _ | accept h _ | rxPush h _ | rxPop h _ | rxFlush h
  | close h | free h | options h | phase h | info h | events h | rxQueue h
  | beginPush h _ | beginPop h | beginAccept h => some h
  | alloc | resolveInbound _ _ | attachMonitor | dropMonitor | readEvents | wake _
  | expire _ => none

/-- The error that an operation fails with before it looks at any connection. -/
def Op.argumentError? : Op → Option Error
  | listen _ backlog =>
    match (Fifo.new backlog : Except Error (Fifo Handle)) with
    | .error e => some e
    | .ok _ => none
  | connect _ peer => if portMax < peer.port then some (.portInvalid peer.port) else none
  | _ => none

/-- How an operation replies that it failed. -/
def Op.refused (e : Error) : Op → Reply
  | alloc | offerChild _ _ | accept _ _ | beginAccept _ => .handle (.error e)
  | resolveInbound _ _ => .found (.error e)
  | rxPush _ packet | beginPush _ packet => .pushed (.error ⟨e, packet⟩)
  | rxPop _ _ | beginPop _ => .packet (.error e)
  | rxFlush _ => .count (.error e)
  | options _ => .options (.error e)
  | phase _ => .phase (.error e)
  | info _ => .info (.error e)
  | events _ => .events (.error e)
  | rxQueue _ => .rxQueue (.error e)
  | _ => .unit (.error e)

theorem events_of_not_live (hn : ¬ p.census.Live h) : p.events h = .error .staleHandle := by
  rw [events, slot_of_not_live hn]
  rfl

theorem rxQueue_of_not_live (hn : ¬ p.census.Live h) : p.rxQueue h = .error .staleHandle := by
  rw [rxQueue, slot_of_not_live hn]
  rfl

theorem lookPacket_of_not_live (hn : ¬ p.census.Live h) :
    p.lookPacket h = (p, .error .staleHandle) := by
  rw [lookPacket, slot_of_not_live hn]

theorem lookChild_of_not_live (hn : ¬ p.census.Live h) :
    p.lookChild h = (p, .error .staleHandle) := by
  rw [lookChild, slot_of_not_live hn]

theorem listen_of_not_live (hn : ¬ p.census.Live h) (backlog : Nat) :
    p.listen h backlog =
      (p, .error (((Op.listen h backlog).argumentError?).getD .staleHandle)) := by
  rw [listen, Op.argumentError?]
  cases (Fifo.new backlog : Except Error (Fifo Handle)) with
  | error e => rfl
  | ok queue =>
    dsimp only
    rw [slot_of_not_live hn]
    rfl

theorem connect_of_not_live (hn : ¬ p.census.Live h) (peer : Peer) :
    p.connect h peer =
      (p, .error (((Op.connect h peer).argumentError?).getD .staleHandle)) := by
  rw [connect, Op.argumentError?]
  by_cases hport : portMax < peer.port
  · rw [if_pos hport, if_pos hport]
    rfl
  · rw [if_neg hport, if_neg hport, slot_of_not_live hn]
    rfl

theorem inlet_of_not_live (hn : ¬ p.census.Live h) : p.inlet h = .error .staleHandle := by
  rw [inlet, slot_of_not_live hn]
  rfl

end Pool

namespace System

open Pool (Op Reply)

variable {s : System} {h : Handle}

/-- Whoever calls with a stale handle is refused, and nothing changes. -/
theorem step_of_not_live {op : Op} (hn : ¬ s.pool.census.Live h) (hop : op.subject = some h) :
    s.step op = (s, op.refused (op.argumentError?.getD .staleHandle)) := by
  cases op with
  | alloc | resolveInbound _ _ | attachMonitor | dropMonitor | readEvents | wake _
  | expire _ => cases hop
  | bind h port =>
    obtain rfl := Option.some.inj hop
    rw [step, act, Pool.bind, Pool.slot_of_not_live hn]
    rfl
  | listen h backlog =>
    obtain rfl := Option.some.inj hop
    rw [step, act, Pool.listen_of_not_live hn]
    rfl
  | connect h peer =>
    obtain rfl := Option.some.inj hop
    rw [step, act, Pool.connect_of_not_live hn]
    rfl
  | setPriority h priority =>
    obtain rfl := Option.some.inj hop
    rw [step, act, Pool.setPriority, Pool.slot_of_not_live hn]
    rfl
  | setRecvTimeout h timeout =>
    obtain rfl := Option.some.inj hop
    rw [step, act, Pool.setRecvTimeout, Pool.updateOptions, Pool.slot_of_not_live hn]
    rfl
  | setSendTimeout h timeout =>
    obtain rfl := Option.some.inj hop
    rw [step, act, Pool.setSendTimeout, Pool.updateOptions, Pool.slot_of_not_live hn]
    rfl
  | offerChild parent peer =>
    obtain rfl := Option.some.inj hop
    rw [step, act, Pool.offerChild, Pool.slot_of_not_live hn]
    rfl
  | accept h timeout =>
    obtain rfl := Option.some.inj hop
    rw [step, act, Pool.accept, Pool.lookChild_of_not_live hn]
    rfl
  | rxPush h packet =>
    obtain rfl := Option.some.inj hop
    rw [step, act, Pool.rxPush, Pool.inlet_of_not_live hn]
    rfl
  | rxPop h timeout =>
    obtain rfl := Option.some.inj hop
    rw [step, act, Pool.rxPop, Pool.lookPacket_of_not_live hn]
    rfl
  | rxFlush h =>
    obtain rfl := Option.some.inj hop
    rw [step, act, Pool.rxFlush, Pool.onQueue, Pool.rxQueue_of_not_live hn]
    rfl
  | close h =>
    obtain rfl := Option.some.inj hop
    rw [step, act, Pool.close, Pool.not_live_iff.1 hn]
    rfl
  | free h =>
    obtain rfl := Option.some.inj hop
    -- `free` fails where its `close` does
    obtain ⟨-, he⟩ | ⟨hl, -⟩ := Pool.free_cases s.pool h
    · rw [step, act, he]
      rfl
    · exact absurd hl hn
  | options h =>
    obtain rfl := Option.some.inj hop
    rw [step, look, Pool.options, Pool.slot_of_not_live hn]
    rfl
  | phase h =>
    obtain rfl := Option.some.inj hop
    rw [step, look, Pool.phase, Pool.slot_of_not_live hn]
    rfl
  | info h =>
    obtain rfl := Option.some.inj hop
    rw [step, look, Pool.info, Pool.slot_of_not_live hn]
    rfl
  | events h =>
    obtain rfl := Option.some.inj hop
    rw [step, look, Pool.events_of_not_live hn]
    rfl
  | rxQueue h =>
    obtain rfl := Option.some.inj hop
    rw [step, look, Pool.rxQueue_of_not_live hn]
    rfl
  | beginPush h packet =>
    obtain rfl := Option.some.inj hop
    rw [step, Pool.beginPush, Pool.inlet_of_not_live hn]
    rfl
  | beginPop h =>
    obtain rfl := Option.some.inj hop
    rw [step, Pool.beginPop, Pool.lookPacket_of_not_live hn]
    rfl
  | beginAccept h =>
    obtain rfl := Option.some.inj hop
    rw [step, Pool.beginAccept, Pool.lookChild_of_not_live hn]
    rfl

/-! ## Making handles -/

/-- The handle that a step makes, if it makes one. -/
def made (s : System) (op : Op) : List Handle :=
  match op, (s.step op).2 with
  | .alloc, .handle (.ok h) => [h]
  | .offerChild _ _, .handle (.ok h) => if (s.pool.slot? h).isSome then [] else [h]
  | .resolveInbound _ _, .found (.ok (some h)) => if (s.pool.slot? h).isSome then [] else [h]
  | _, _ => []

/-- All handles that a run makes, in order. -/
def allMade : System → List Op → List Handle
  | _, [] => []
  | s, op :: ops => s.made op ++ allMade (s.step op).1 ops

theorem mem_allMade {ops : List Op} :
    h ∈ s.allMade ops ↔ ∃ a op b, ops = a ++ op :: b ∧ h ∈ (s.run a).made op := by
  induction ops generalizing s with
  | nil =>
    constructor
    · rintro ⟨⟩
    · rintro ⟨a, op, b, he, -⟩
      exact absurd he (by simp)
  | cons op ops ih =>
    rw [allMade, List.mem_append, ih]
    constructor
    · rintro (hm | ⟨a, op', b, rfl, hm⟩)
      · exact ⟨[], op, ops, rfl, hm⟩
      · exact ⟨op :: a, op', b, rfl, hm⟩
    · rintro ⟨a, op', b, he, hm⟩
      cases a with
      | nil =>
        obtain ⟨rfl, rfl⟩ := List.cons.inj he
        exact .inl hm
      | cons x a =>
        obtain ⟨rfl, rfl⟩ := List.cons.inj he
        exact .inr ⟨a, op', b, rfl, hm⟩

/-- A handle begins with a step: its slot was free and had its generation. -/
structure Begins (s : System) (op : Op) (h : Handle) : Prop where
  free : (s.pool.census.status h.index).phase = .free
  generation : s.generation h.index = h.generation
  live : (s.step op).1.pool.census.Live h

theorem offerChild_new {p : Pool} {parent h : Handle} {peer : Peer} (hfam : p.census.Family)
    (hok : (p.offerChild parent peer).2 = .ok h) (hn : ¬ p.census.Live h) :
    (p.census.status h.index).phase = .free ∧
      (p.census.status h.index).generation = h.generation ∧
      (p.offerChild parent peer).1.census.Live h := by
  obtain ⟨e, he⟩ | ⟨children, c, hl, hk, hc, he⟩ | ⟨child, o, ⟨he, hc⟩ | ⟨e, he, -⟩⟩ :=
    Pool.offerChild_cases p parent peer
  · rw [he] at hok
    cases hok
  · -- an entry always points to a live child
    rw [he] at hok
    obtain rfl := Except.ok.inj hok
    have hentry : (p.census.status parent.index).child? peer = some c := by
      rw [Status.child?, hk]
      exact hc
    exact absurd (hfam.entry_of_live hl hentry).live hn
  · rw [he] at hok
    obtain rfl := Except.ok.inj hok
    rw [hc]
    exact ⟨o.free, o.handle, o.live_child⟩
  · rw [he] at hok
    cases hok

theorem live_of_taker? {p : Pool} {peer : Peer} {m : PortMember} {conn : Handle}
    (h : p.taker? peer m = some (.direct conn)) : p.census.Live conn := by
  unfold Pool.taker? at h
  split at h
  · cases h
  · next t ht =>
    split at h
    · split at h
      · cases h
        exact Pool.live_of_slot? ht
      · cases h
    · split at h <;> cases h

theorem resolveInbound_new {p : Pool} {dstPort : UInt8} {h : Handle} {peer : Peer}
    (hfam : p.census.Family) (hok : (p.resolveInbound dstPort peer).2 = .ok (some h))
    (hn : ¬ p.census.Live h) :
    (p.census.status h.index).phase = .free ∧
      (p.census.status h.index).generation = h.generation ∧
      (p.resolveInbound dstPort peer).1.census.Live h := by
  unfold Pool.resolveInbound at hok ⊢
  split at hok
  · cases hok
  · next conn hfound =>
    cases hok
    -- a connected socket that takes the packet itself is no new one
    obtain ⟨m, -, hm⟩ := List.exists_of_findSome?_eq_some hfound
    exact absurd (live_of_taker? hm) hn
  · next conn hfound =>
    have hnew := @offerChild_new p conn h peer hfam
    split at hok <;> rename_i hq <;> cases hok
    rw [hq] at hnew
    exact hnew rfl hn

theorem begins_of_mem_made {op : Op} (hfam : s.pool.census.Family) (hm : h ∈ s.made op) :
    s.Begins op h := by
  unfold made at hm
  split at hm
  · next h' hr =>
    obtain rfl := List.mem_singleton.1 hm
    have hok : s.pool.alloc.2 = .ok h := Reply.handle.inj hr
    obtain ⟨e, he⟩ | ⟨i, -, hfree, hi, hc⟩ := Pool.alloc_cases s.pool
    · rw [he] at hok
      cases hok
    · rw [hi] at hok
      obtain rfl := Except.ok.inj hok
      refine ⟨hfree, rfl, ?_⟩
      show s.pool.alloc.1.census.Live _
      rw [hc, Census.Live, Census.status_alter_self]
      exact ⟨rfl, by simp [Status.claimed]⟩
  · next parent peer h' hr =>
    split at hm
    · cases hm
    · next hnone =>
      obtain rfl := List.mem_singleton.1 hm
      have hn : ¬ s.pool.census.Live h :=
        Pool.not_live_iff.2 (Option.not_isSome_iff_eq_none.1 hnone)
      obtain ⟨hfree, hg, hl⟩ := offerChild_new hfam (Reply.handle.inj hr) hn
      exact ⟨hfree, hg, hl⟩
  · next dstPort peer h' hr =>
    split at hm
    · cases hm
    · next hnone =>
      obtain rfl := List.mem_singleton.1 hm
      have hn : ¬ s.pool.census.Live h :=
        Pool.not_live_iff.2 (Option.not_isSome_iff_eq_none.1 hnone)
      obtain ⟨hfree, hg, hl⟩ := resolveInbound_new hfam (Reply.found.inj hr) hn
      exact ⟨hfree, hg, hl⟩
  · cases hm

/-- A step makes one handle at most. -/
theorem nodup_made (s : System) (op : Op) : (s.made op).Nodup := by
  unfold made
  split
  · exact List.nodup_singleton _
  · split
    · exact List.nodup_nil
    · exact List.nodup_singleton _
  · split
    · exact List.nodup_nil
    · exact List.nodup_singleton _
  · exact List.nodup_nil

/-- No handle is made twice. -/
theorem nodup_allMade {ops : List Op} (hfam : s.pool.census.Family)
    (hlt : ∀ i, turnover i s ops < 2 ^ 32) : (s.allMade ops).Nodup := by
  induction ops generalizing s with
  | nil => exact List.nodup_nil
  | cons op ops ih =>
    have hstep : ∀ i, turnover i (s.step op).1 ops < 2 ^ 32 := fun i =>
      Nat.lt_of_le_of_lt (Nat.le_add_left _ _) (hlt i)
    have hfam' : (s.step op).1.pool.census.Family :=
      (moves_step s op).invariant (fun _ _ ho hσ => hσ.opening ho) (fun _ _ he hσ => hσ.ending he)
        hfam
    rw [allMade, List.nodup_append]
    refine ⟨nodup_made s op, ih hfam' hstep, ?_⟩
    rintro h hm h' hlater rfl
    obtain ⟨a, op', b, rfl, hm'⟩ := mem_allMade.1 hlater
    -- it lives since it was made, and when it is made again its slot is free
    have hfirst := begins_of_mem_made hfam hm
    have hagain := begins_of_mem_made ?_ hm'
    · have hlive := live_run (Nat.lt_of_le_of_lt turnover_le_of_append (hstep h.index))
        hfirst.live hagain.generation
      exact hlive.2 hagain.free
    · exact census_run (fun _ _ ho hσ => hσ.opening ho) (fun _ _ he hσ => hσ.ending he) hfam' a

/-! ## After a handle has ended -/

/-- A handle was freed in a run: by `free` on it while it was live, or along with another
connection that was freed. -/
def Freed (s : System) (h : Handle) (ops : List Op) : Prop :=
  ∃ a x b, ops = a ++ .free x :: b ∧ (∃ t, (s.run a).pool.slot? h = some t) ∧
    (x = h ∨ (s.run (a ++ [.free x])).pool.slot? h = none)

/-- Freeing a live handle ends it. -/
theorem not_live_free {p : Pool} (hl : p.census.Live h) : ¬ (p.free h).1.census.Live h := by
  obtain ⟨hn, -⟩ | ⟨-, -, he⟩ := Pool.free_cases p h
  · exact absurd hl hn
  · have hclosed := Pool.closed_of_close_eq_ok (Pool.close_eq_ok_of_live hl)
    -- its slot is vacated, and what is freed along with it cannot bring it back
    have hwanes := he.wanes h.index
    rw [Census.status_alter_self] at hwanes
    rintro ⟨hg, hp⟩
    obtain ⟨-, hfree⟩ | ⟨hfree, -⟩ := hwanes
    · exact hp (hfree.2 rfl)
    · exact hfree rfl

/-- A handle that was freed is stale from then on. -/
theorem Freed.not_live {ops : List Op} (hlt : turnover h.index s ops < 2 ^ 32)
    (hf : s.Freed h ops) : ¬ (s.run ops).pool.census.Live h := by
  obtain ⟨a, x, b, rfl, hl, hgone⟩ := hf
  have hl := Pool.live_iff.2 hl
  -- the `free` that ends it, be it its own or that of its listener
  have hn : ¬ ((s.run a).step (.free x)).1.pool.census.Live h := by
    obtain rfl | hn := hgone
    · exact not_live_free hl
    · rw [run_snoc] at hn
      exact Pool.not_live_iff.2 hn
  rw [turnover_run_append] at hlt
  intro hlive
  rw [run_append] at hlive
  exact not_live_run (Nat.lt_of_le_of_lt (Nat.le_add_left _ _) hlt) hl hn hlive.1

/-- Whether a step is a `free` of a handle that succeeds. -/
def freesNow (s : System) (h : Handle) : Op → Bool
  | .free x => x = h ∧ (s.pool.free x).2.isOk
  | _ => false

/-- How often a handle is freed with success in a run. -/
def frees (h : Handle) : System → List Op → Nat
  | _, [] => 0
  | s, op :: ops => (s.freesNow h op).toNat + frees h (s.step op).1 ops

theorem live_of_freesNow {op : Op} (hf : s.freesNow h op = true) :
    op = .free h ∧ s.pool.census.Live h := by
  unfold freesNow at hf
  split at hf
  · next x =>
    obtain ⟨rfl, hok⟩ := of_decide_eq_true hf
    refine ⟨rfl, ?_⟩
    obtain ⟨-, he⟩ | ⟨hl, -⟩ := Pool.free_cases s.pool x
    · rw [he] at hok
      cases hok
    · exact hl
  · cases hf

theorem frees_eq_zero {ops : List Op} (hn : ∀ pre, pre <+: ops → ¬ (s.run pre).pool.census.Live h) :
    frees h s ops = 0 := by
  induction ops generalizing s with
  | nil => rfl
  | cons op ops ih =>
    have hnow : s.freesNow h op = false := by
      rw [← Bool.not_eq_true]
      intro hf
      exact hn [] List.nil_prefix (live_of_freesNow hf).2
    rw [frees, hnow, ih fun pre hpre => hn (op :: pre) ((List.prefix_cons_inj op).2 hpre)]
    rfl

theorem frees_le_one {ops : List Op} (hlt : turnover h.index s ops < 2 ^ 32) :
    frees h s ops ≤ 1 := by
  induction ops generalizing s with
  | nil => exact Nat.zero_le 1
  | cons op ops ih =>
    rw [frees]
    cases hf : s.freesNow h op with
    | false =>
      rw [Bool.toNat_false, Nat.zero_add]
      exact ih (Nat.lt_of_le_of_lt (Nat.le_add_left _ _) hlt)
    | true =>
      -- this one counts, and none after it
      obtain ⟨rfl, hl⟩ := live_of_freesNow hf
      rw [frees_eq_zero]
      · exact Nat.le_refl 1
      · rintro pre ⟨rest, rfl⟩
        have hfreed : s.Freed h (.free h :: pre) :=
          ⟨[], h, pre, rfl, Pool.live_iff.1 hl, .inl rfl⟩
        have hn := hfreed.not_live (Nat.lt_of_le_of_lt ?_ hlt)
        · exact hn
        · rw [← List.cons_append]
          exact turnover_le_of_append

end System

namespace Pool

/-- Handles never alias, in a run in which every slot is given back less often than its
counter has values: no handle is made twice, a handle that was freed is refused by every
operation without any effect, and it is freed once at most. -/
theorem handles_never_alias {c : Config} {p : Pool} (hnew : new c = .ok p) (ops : List Op)
    (hlt : ∀ i, System.turnover i p.atRest ops < 2 ^ 32) :
    (p.atRest.allMade ops).Nodup ∧
    (∀ pre op h, pre ++ [op] <+: ops → p.atRest.Freed h pre → op.subject = some h →
      (p.atRest.run pre).step op =
        (p.atRest.run pre, op.refused (op.argumentError?.getD .staleHandle))) ∧
    ∀ h, System.frees h p.atRest ops ≤ 1 := by
  refine ⟨System.nodup_allMade (family_new hnew) hlt, ?_, fun h => System.frees_le_one (hlt _)⟩
  rintro pre op h ⟨rest, rfl⟩ hf hop
  refine System.step_of_not_live (hf.not_live ?_) hop
  refine Nat.lt_of_le_of_lt ?_ (hlt h.index)
  rw [List.append_assoc]
  exact System.turnover_le_of_append

/-- The only slot of a pool is freed and handed out again, and then freed again by its old
handle. -/
theorem old_handle_of_reused_slot :
    ∃ p, new { maxConnections := 1 } = .ok p ∧
      p.atRest.allMade [.alloc, .free ⟨0, 0⟩, .alloc, .free ⟨0, 0⟩] = [⟨0, 0⟩, ⟨0, 1⟩] ∧
      (p.atRest.allMade [.alloc, .free ⟨0, 0⟩, .alloc, .free ⟨0, 0⟩]).Nodup ∧
      (p.atRest.run [.alloc, .free ⟨0, 0⟩, .alloc]).step (.free ⟨0, 0⟩) =
        (p.atRest.run [.alloc, .free ⟨0, 0⟩, .alloc], .unit (.error .staleHandle)) := by
  refine ⟨_, rfl, by decide +kernel, ?_⟩
  have h := handles_never_alias (c := { maxConnections := 1 }) rfl
    [.alloc, .free ⟨0, 0⟩, .alloc, .free ⟨0, 0⟩]
    (fun i => Nat.lt_of_le_of_lt (turnover_le_length _ _) (by decide))
  refine ⟨h.1, h.2.1 _ (.free ⟨0, 0⟩) ⟨0, 0⟩ List.prefix_rfl
    ⟨[.alloc], ⟨0, 0⟩, [.alloc], rfl, ?_, .inl rfl⟩ rfl⟩
  exact Option.isSome_iff_exists.1 (by decide +kernel)

end Pool

end Netstack
