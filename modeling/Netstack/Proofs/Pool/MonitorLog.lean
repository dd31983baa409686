import Mathlib.Data.Set.Card
import Netstack.Proofs.Pool.Generations
import Netstack.Proofs.Pool.Monitoring

/-
The log of a monitor is faithful.

A pool is asked one thing after another, and its monitor is read now and then. What was read,
followed by what can still be read, is the log. It is put together from what the operations
report (`System.exists_logs`); from it an observer knows after every operation which connections
there are and how far each of them got (`Pool.monitor_faithful`).
-/

set_option autoImplicit false

namespace Netstack

/-- What was told and not read yet. -/
def Monitor.unread : Monitor → List ConnEvent
  | attached log => log
  | _ => []

/-! ## Steps and runs -/

namespace Pool

/-- Whether an operation is made at once, by somebody who leaves the monitor in its place. -/
def Op.isWatched : Op → Bool
  | .attachMonitor | .dropMonitor => false
  | .beginPush _ _ | .beginPop _ | .beginAccept _ | .wake _ | .expire _ => false
  | _ => true

theorem Op.isInTurn_of_isWatched {op : Op} (h : op.isWatched = true) : op.isInTurn = true := by
  cases op with
  | beginPush h packet => cases h
  | _ => rfl

/-- The events that a reply hands over. -/
def Reply.heard : Reply → List ConnEvent
  | .read (some log) => log
  | _ => []

end Pool

namespace System

open Pool (Op Reply)

variable {s : System} {op : Op} {ops : List Op} {es es' : List ConnEvent}

/-- The events that were read in a run. -/
def received : System → List Op → List ConnEvent
  | _, [] => []
  | s, op :: ops => (s.step op).2.heard ++ received (s.step op).1 ops

/-- Nobody sleeps, and every connection has an event group that stays with it. -/
structure Outspoken (s : System) : Prop where
  awake : s.asleep = []
  keeps : s.pool.limits.releaseOnClose = false
  equipped (i : Nat) : (s.pool.slotAt i).Equipped

theorem Outspoken.step (hs : s.Outspoken) (hop : op.isWatched = true) :
    (s.step op).1.Outspoken := by
  have hchanges : s.pool.Changes (s.step op).1.pool := by
    refine changes_step (Op.isInTurn_of_isWatched hop) fun call hcall => ?_
    rw [hs.awake] at hcall
    cases hcall
  refine ⟨?_, ?_, fun i => ?_⟩
  · cases op <;> first | exact hs.awake | cases hop
  · rw [hchanges.limits]
    exact hs.keeps
  · exact hchanges.keeps (fun _ _ made => made.equipped hs.keeps) i (hs.equipped i)

theorem reports_step (hs : s.Outspoken) (hop : op.isWatched = true) (hread : op ≠ .readEvents) :
    s.pool.Reports (s.step op).1.pool := by
  cases op with
  | alloc => exact Pool.reports_alloc _
  | bind h port => exact Pool.reports_bind hs.equipped h port
  | listen h backlog => exact Pool.reports_listen hs.equipped h backlog
  | connect h peer => exact Pool.reports_connect hs.equipped h peer
  | setPriority h priority => exact Pool.reports_setPriority _ h priority
  | setRecvTimeout h timeout | setSendTimeout h timeout =>
    exact Pool.reports_updateOptions _ h (fun _ => rfl) fun _ => ⟨rfl, rfl⟩
  | offerChild parent peer => exact Pool.reports_offerChild _ parent peer
  | resolveInbound port peer => exact Pool.reports_resolveInbound _ port peer
  | accept h timeout => exact Pool.reports_accept _ h timeout
  | rxPush h packet => exact Pool.reports_rxPush _ h packet
  | rxPop h timeout => exact Pool.reports_rxPop _ h timeout
  | rxFlush h => exact Pool.reports_rxFlush _ h
  | close h => exact (Pool.reportsEnds_close _ h).reports
  | free h => exact (Pool.reportsEnds_freeWithin _ _ h).reports
  | options _ | phase _ | info _ | events _ | rxQueue _ => exact .refl _
  | readEvents => exact absurd rfl hread
  | attachMonitor | dropMonitor => cases hop
  | beginPush _ _ | beginPop _ | beginAccept _ | wake _ | expire _ => cases hop

/-- What was told in a run: an observer has read it, or can read it, after what there was to read
before. It is the story of every slot, and says how often each was given back. -/
structure Logs (s : System) (ops : List Op) (es : List ConnEvent) : Prop where
  log : ∀ log, s.pool.monitor = .attached log →
    ∃ rest, (s.run ops).pool.monitor = .attached rest ∧ s.received ops ++ rest = log ++ es
  story : ∀ i, Status.Story i (s.pool.census.status i) (es.filter (·.isAbout i))
    ((s.run ops).pool.census.status i)
  freed : ∀ i, (es.filter (·.isAbout i)).countP ConnEvent.isFreed = turnover i s ops

theorem logs_nil (s : System) : s.Logs [] [] :=
  ⟨fun log hm => ⟨log, hm, (List.append_nil log).symm⟩, fun _ => .refl, fun _ => rfl⟩

theorem Logs.cons (h₁ : s.Logs [op] es) (h₂ : (s.step op).1.Logs ops es') :
    s.Logs (op :: ops) (es ++ es') := by
  refine ⟨fun log hm => ?_, fun i => ?_, fun i => ?_⟩
  · obtain ⟨rest, hm₁, he₁⟩ := h₁.log log hm
    obtain ⟨rest', hm₂, he₂⟩ := h₂.log rest hm₁
    rw [received, received, List.append_nil] at he₁
    refine ⟨rest', hm₂, ?_⟩
    rw [received, List.append_assoc, he₂, ← List.append_assoc, he₁, List.append_assoc]
  · rw [List.filter_append]
    exact (h₁.story i).trans (h₂.story i)
  · rw [List.filter_append, List.countP_append, h₁.freed i, h₂.freed i]
    exact (turnover_run_append s [op] ops).symm

/-- An operation that is reported gives back the slots that it says. -/
theorem countP_freed_step {i : Nat}
    (hstory : Status.Story i (s.pool.census.status i) es ((s.step op).1.pool.census.status i))
    (hone : es.countP ConnEvent.isFreed ≤ 1) :
    es.countP ConnEvent.isFreed = turnover i s [op] := by
  have hgen : (s.step op).1.generation i =
      s.generation i + UInt32.ofNat (es.countP ConnEvent.isFreed) := hstory.generation
  rw [turnover_cons, hgen]
  obtain hn | hn : es.countP ConnEvent.isFreed = 0 ∨ es.countP ConnEvent.isFreed = 1 := by omega
  · rw [hn]
    exact (if_pos (UInt32.add_zero _)).symm
  · rw [hn]
    exact (if_neg (add_one_ne _)).symm

theorem exists_logs_step (hs : s.Outspoken) (hop : op.isWatched = true) :
    ∃ es, s.Logs [op] es := by
  by_cases hread : op = .readEvents
  · -- everything that was not read yet is read
    subst hread
    refine ⟨[], fun log hm => ⟨[], ?_, ?_⟩, fun _ => .refl, fun i => ?_⟩
    · show s.pool.monitor.read.1 = _
      rw [hm]
      rfl
    · show (Reply.read s.pool.monitor.read.2).heard ++ [] ++ [] = _
      rw [hm, List.append_nil]
      rfl
    · exact countP_freed_step .refl (Nat.zero_le 1)
  · obtain ⟨es, ht, hone⟩ := reports_step hs hop hread
    refine ⟨es, fun log hm => ⟨log ++ es, ?_, ?_⟩, ht.story, fun i => ?_⟩
    · rw [run_cons, run_nil, ht.monitor, hm, Monitor.record_all]
    · have hsilent : (s.step op).2.heard = [] := by
        cases op <;> first | rfl | exact absurd rfl hread | cases hop
      rw [received, received, hsilent, List.nil_append, List.nil_append]
    · exact countP_freed_step (ht.story i) (hone i)

theorem exists_logs (hs : s.Outspoken) (hops : ∀ op ∈ ops, op.isWatched = true) :
    ∃ es, s.Logs ops es := by
  induction ops generalizing s with
  | nil => exact ⟨[], logs_nil s⟩
  | cons op ops ih =>
    have hop := hops op (.head _)
    obtain ⟨es, h₁⟩ := exists_logs_step hs hop
    obtain ⟨es', h₂⟩ := ih (hs.step hop) fun op' hop' => hops op' (.tail _ hop')
    exact ⟨es ++ es', h₁.cons h₂⟩

end System

/-! ## How many there are -/

namespace Pool

variable {p : Pool}

theorem nodup_live (p : Pool) : p.live.Nodup := by
  refine List.Nodup.filterMap (fun i j h hi hj => ?_) List.nodup_range
  dsimp only at hi hj
  -- a handle has the number of the slot that it was made for
  split at hi
  · split at hj
    · rw [Option.mem_some_iff] at hi hj
      exact congrArg Handle.index (hi.trans hj.symm)
    · cases hj
  · cases hi

theorem length_live (p : Pool) : p.live.length = p.inUse := by
  have hslots : (List.range p.slots.size).map p.slotAt = p.slots.toList := by
    refine List.ext_getElem (by simp) fun i hi _ => ?_
    have hlt : i < p.slots.size := by simpa using hi
    simp [slotAt, hlt]
  rw [live, List.length_filterMap_eq_countP, inUse, ← Array.countP_toList, ← hslots,
    List.countP_map]
  refine List.countP_congr fun i _ => ?_
  dsimp only [Function.comp_apply]
  split <;> simp_all

/-- There are as many connections as are in use. -/
theorem encard_live (p : Pool) : {h | p.census.Live h}.encard = p.inUse := by
  have hset : {h | p.census.Live h} = (p.live.toFinset : Set Handle) := by
    ext h
    rw [List.coe_toFinset]
    exact mem_live_iff.symm
  rw [hset, Set.encard_coe_eq_coe_finsetCard, List.toFinset_card_of_nodup p.nodup_live,
    length_live]

theorem inUse_le_capacity (p : Pool) : p.inUse ≤ p.capacity := Array.countP_le_size

theorem inUse_lt_of_alloc {h : Handle} (hok : p.alloc.2 = .ok h) : p.inUse < p.capacity := by
  obtain ⟨e, he⟩ | ⟨i, hi, hfree, -⟩ := alloc_cases p
  · rw [he] at hok
    cases hok
  · -- the slot that is handed out is not in use
    have hslot : p.slotAt i = p.slots[i] := by simp [slotAt, show i < p.slots.size from hi]
    refine Nat.lt_of_le_of_ne p.inUse_le_capacity fun hfull => ?_
    have hused := Array.countP_eq_size.1 hfull p.slots[i] (Array.getElem_mem hi)
    rw [← hslot] at hused
    exact of_decide_eq_true hused hfree

/-! ## The whole log -/

/-- A roster that follows a slot knows whether there is such a connection, and how far it got. -/
theorem slot?_of_follows {h : Handle} {o : Option Standing}
    (hf : Status.Follows h (p.census.status h.index) o) :
    o.map Standing.phase = (p.slot? h).map Slot.phase ∧
      ∀ st, o = some st → ∃ x, p.slot? h = some x ∧ st.Describes x.status := by
  unfold Status.Follows at hf
  split at hf
  · next hl =>
    obtain ⟨x, hx⟩ := live_iff.1 hl
    obtain ⟨st, rfl, hd⟩ := hf
    rw [status_of_slot? hx] at hd
    refine ⟨?_, fun st' hst' => ?_⟩
    · rw [hx]
      exact congrArg some hd.1.symm
    · obtain rfl := Option.some.inj hst'
      exact ⟨x, hx, hd⟩
  · next hn =>
    rw [hf, not_live_iff.1 hn]
    exact ⟨rfl, fun st hst => by cases hst⟩

theorem outspoken_new {c : Config} (hnew : new c = .ok p) (hkeep : c.releaseOnClose = false) :
    p.attachMonitor.atRest.Outspoken := by
  refine ⟨rfl, ?_, fun i => ?_⟩
  · show p.limits.releaseOnClose = false
    rw [(new_eq_ok hnew).2.2]
    exact hkeep
  · show (p.slotAt i).Equipped
    rw [slotAt_new hnew]
    exact fun hp => absurd rfl hp

/-- Whoever monitors a new pool that gives up no event groups, and replays what was told so far,
knows every connection that there is and how far it got, and no other. There are as many as are
in use, never more than slots, and a slot is handed out only if there are fewer. As long as the
generations of a slot have not gone round, no handle is said to be handed out twice or given back
twice. -/
theorem monitor_faithful {c : Config} {p : Pool} (hnew : new c = .ok p)
    (hkeep : c.releaseOnClose = false) {ops : List Op} (hops : ∀ op ∈ ops, op.isWatched = true) :
    let s := p.attachMonitor.atRest
    let q := (s.run ops).pool
    let log := s.received ops ++ q.monitor.unread
    let roster := Roster.empty.replay log
    (∀ h, (roster h).map Standing.phase = (q.slot? h).map Slot.phase ∧
        ∀ st, roster h = some st → ∃ x, q.slot? h = some x ∧ st.Describes x.status) ∧
      {h | (roster h).isSome}.encard = q.inUse ∧ q.inUse ≤ q.capacity ∧
      (∀ h, q.alloc.2 = .ok h → q.inUse < q.capacity) ∧
      ∀ h, System.turnover h.index s ops < 2 ^ 32 →
        log.count (.allocated h) ≤ 1 ∧ log.count (.freed h) ≤ 1 := by
  intro s q log roster
  obtain ⟨es, hlogs⟩ := System.exists_logs (outspoken_new hnew hkeep) hops
  obtain ⟨rest, hrest, hreceived⟩ := hlogs.log [] rfl
  have hlog : log = es := by
    show s.received ops ++ q.monitor.unread = es
    rw [show q.monitor = .attached rest from hrest]
    exact hreceived
  have hstart : ∀ i, s.pool.census.status i = Slot.vacant.status := fun i =>
    congrArg Slot.status (slotAt_new hnew i)
  have hfollows : ∀ h, Status.Follows h (q.census.status h.index) (roster h) := by
    intro h
    have hbegin : Status.Follows h (s.pool.census.status h.index) (Roster.empty h) := by
      rw [hstart]
      exact (Status.follows_none fun hl => hl.2 rfl).2 rfl
    have hend := (hlogs.story h.index).follows hbegin
    rw [Roster.replay_filter, ← hlog] at hend
    exact hend
  refine ⟨fun h => slot?_of_follows (hfollows h), ?_, q.inUse_le_capacity,
    fun h => inUse_lt_of_alloc, fun h hround => ?_⟩
  · have hset : {h | (roster h).isSome} = {h | q.census.Live h} :=
      Set.ext fun h => (hfollows h).isSome_iff
    rw [hset, encard_live]
  · have hzero : (s.pool.census.status h.index).generation = 0 := by
      rw [hstart]
      rfl
    have honce := (hlogs.story h.index).once
      (Status.once_nil (by rw [hstart]; rfl) hzero)
      (by rw [hzero, hlogs.freed, UInt32.toNat_zero, Nat.zero_add]; exact hround)
    rw [hlog, ← List.count_filter (a := ConnEvent.allocated h) (p := (·.isAbout h.index))
      (decide_eq_true rfl), ← List.count_filter (a := ConnEvent.freed h) (p := (·.isAbout h.index))
      (decide_eq_true rfl)]
    exact ⟨honce.allocated_le h.generation, honce.freed_le h.generation⟩

/-- A second child finds no room and is gone again when the events are read. The first one goes
with its listener, whose slot is then handed out anew. -/
theorem monitor_faithful_of_freed_listener :
    ∃ p, new { maxConnections := 3 } = .ok p ∧
      let ops : List Op :=
        [.alloc, .bind ⟨0, 0⟩ 5, .listen ⟨0, 0⟩ 1, .offerChild ⟨0, 0⟩ ⟨0x42, 3⟩,
          .offerChild ⟨0, 0⟩ ⟨0x43, 3⟩, .readEvents, .free ⟨0, 0⟩, .alloc]
      let s := p.attachMonitor.atRest
      let q := (s.run ops).pool
      let log := s.received ops ++ q.monitor.unread
      let roster := Roster.empty.replay log
      (∀ op ∈ ops, op.isWatched = true) ∧ System.turnover 0 s ops < 2 ^ 32 ∧
        log = [.allocated ⟨0, 0⟩, .bound ⟨0, 0⟩ 5, .listening ⟨0, 0⟩ 5, .allocated ⟨1, 0⟩,
          .accepted ⟨0, 0⟩ ⟨1, 0⟩, .allocated ⟨2, 0⟩, .closed ⟨2, 0⟩, .freed ⟨2, 0⟩,
          .closed ⟨0, 0⟩, .closed ⟨1, 0⟩, .freed ⟨1, 0⟩, .freed ⟨0, 0⟩, .allocated ⟨0, 1⟩] ∧
        (roster ⟨0, 1⟩).map Standing.phase = some .closed ∧
        {h | (roster h).isSome}.encard = 1 ∧ q.capacity = 3 ∧
        log.count (.allocated ⟨0, 0⟩) ≤ 1 ∧ log.count (.freed ⟨0, 0⟩) ≤ 1 := by
  refine ⟨_, rfl, ?_⟩
  intro ops s q log roster
  have hops : ∀ op ∈ ops, op.isWatched = true := by decide
  have hround : System.turnover 0 s ops < 2 ^ 32 := by decide +kernel
  have hnew : new { maxConnections := 3 } = .ok _ := rfl
  obtain ⟨hroster, hsize, -, -, honce⟩ := monitor_faithful hnew rfl hops
  refine ⟨hops, hround, by decide +kernel, ?_, ?_, by decide +kernel, honce ⟨0, 0⟩ hround⟩
  · exact (hroster ⟨0, 1⟩).1.trans (by decide +kernel)
  · exact hsize.trans (congrArg Nat.cast (by decide +kernel : q.inUse = 1))

end Pool

end Netstack
