import Netstack.Proofs.Link.Frames
import Netstack.Proofs.Pool.Packets
import Netstack.Proofs.Stack.Packets

/-
What the pieces of a stack's work do to its queues.

A stack is sound if all of its queues stand for what is in them, those of its interfaces for
frames, those of its connections for packets and that of its core for events. Every piece of
work keeps a stack sound, with its configuration, its address and its interfaces (`Keeps`). And
it moves what it says it moves: `Adds` says which frames were queued on interfaces, each behind
the others, and that connections have got nothing but some of the packets that are named.

For each piece there is one lemma. The pieces of a call that may wait add what the call is
for once or not at all (`Advances`).
-/

set_option autoImplicit false

namespace Netstack.Stack

open Interface (Direction)

variable {δ : Type} {s t u : Stack δ} {h receiver : Handle} {via : Option LinkId}
  {packet frame : Buffer} {index size n : Nat} {xs ys new : List Buffer} {d : Direction}
  {fs : Direction → Nat → List Buffer}

/-- The frames that wait on the interface with a number, oldest first. -/
def frames (s : Stack δ) (d : Direction) (index : Nat) : List Buffer :=
  ((s.interfaces.byIndex index).map (·.frames d)).getD []

/-- Every queue stands for what is in it. -/
structure Sound (s : Stack δ) : Prop where
  links : ∀ i ∈ s.interfaces.interfaces, i.Sound
  pool : s.pool.Sound
  events : ∃ es, s.events.Holds es

/-- What never changes about a stack. -/
structure Keeps (s t : Stack δ) : Prop where
  config : t.config = s.config
  addr : t.addr = s.addr
  links : s.interfaces.Keeps t.interfaces
  pool : t.pool.Sound
  events : ∃ es, t.events.Holds es

theorem Keeps.sound (h : s.Keeps t) : t.Sound := ⟨h.links.sound, h.pool, h.events⟩

theorem Sound.keeps (hs : s.Sound) : s.Keeps s := ⟨rfl, rfl, .refl hs.links, hs.pool, hs.events⟩

theorem Keeps.trans (h₁ : s.Keeps t) (h₂ : t.Keeps u) : s.Keeps u :=
  ⟨h₂.config.trans h₁.config, h₂.addr.trans h₁.addr, h₁.links.trans h₂.links, h₂.pool,
    h₂.events⟩

/-- Frames for one direction of one interface. -/
def framesAt (d : Direction) (index : Nat) (new : List Buffer) : Direction → Nat → List Buffer :=
  fun d' k => if d' = d ∧ k = index then new else []

/-- No frames. -/
def noFrames : Direction → Nat → List Buffer := fun _ _ => []

theorem framesAt_nil (d : Direction) (index : Nat) : framesAt d index [] = noFrames := by
  funext d' k
  unfold framesAt
  split <;> rfl

/-- The frames `fs` were queued, and connections have got some of the packets `xs`. -/
structure Adds (s t : Stack δ) (fs : Direction → Nat → List Buffer) (xs : List Buffer) :
    Prop where
  keeps : s.Keeps t
  frames : ∀ d k, t.frames d k = s.frames d k ++ fs d k
  packets : s.pool.Gains t.pool xs

theorem Adds.sound (h : s.Adds t fs xs) : t.Sound := h.keeps.sound

/-- First something, then work that queues no frame. -/
theorem Adds.trans (h₁ : s.Adds t fs xs) (h₂ : t.Adds u noFrames ys) : s.Adds u fs (xs ++ ys) := by
  refine ⟨h₁.keeps.trans h₂.keeps, fun d k => ?_, h₁.packets.trans h₂.packets⟩
  rw [h₂.frames, h₁.frames]
  exact List.append_nil _

theorem Adds.quiet (h₁ : s.Adds t fs xs) (h₂ : t.Adds u noFrames []) : s.Adds u fs xs := by
  have h := h₁.trans h₂
  rw [List.append_nil] at h
  exact h

/-- Some of the packets, at the most all of them. -/
theorem Adds.weaken (h : s.Adds t fs []) (xs : List Buffer) : s.Adds t fs xs := by
  refine ⟨h.keeps, h.frames, h.packets.sound, fun i => (h.packets.sublist i).trans ?_⟩
  rw [List.append_nil]
  exact List.sublist_append_left _ _

/-! ## Work on one part -/

/-- Work that touches neither the interfaces nor the connections. -/
theorem Sound.adds_of_same (hs : s.Sound) (hconfig : t.config = s.config) (haddr : t.addr = s.addr)
    (hlinks : t.interfaces = s.interfaces) (hpool : t.pool = s.pool)
    (hevents : ∃ es, t.events.Holds es) : s.Adds t noFrames [] := by
  refine ⟨⟨hconfig, haddr, ?_, ?_, hevents⟩, fun d k => ?_, ?_⟩
  · rw [hlinks]
    exact .refl hs.links
  · rw [hpool]
    exact hs.pool
  · rw [frames, hlinks]
    exact (List.append_nil _).symm
  · rw [hpool]
    exact hs.pool.gains_of_sameInboxes (.refl _)

theorem Sound.adds (hs : s.Sound) : s.Adds s noFrames [] :=
  hs.adds_of_same rfl rfl rfl rfl hs.events

theorem Sound.adds_onPool {α : Type} (hs : s.Sound) (f : Pool → Pool × α)
    (hf : s.pool.Gains (f s.pool).1 xs) : s.Adds (s.onPool f).1 noFrames xs :=
  ⟨⟨rfl, rfl, .refl hs.links, hf.sound, hs.events⟩, fun _ _ => (List.append_nil _).symm, hf⟩

/-- Somebody has worked on an interface. -/
theorem Sound.keeps_link (hs : s.Sound) {i j : Interface δ}
    (hi : s.interfaces.byIndex index = some i) (hsame : i.SameLink j) (hj : j.Sound) :
    s.Keeps (s.modifyLink index fun _ => j) := by
  refine ⟨rfl, rfl, ?_, hs.pool, hs.events⟩
  refine Registry.keeps_modify hs.links ?_ ?_ fun _ _ => hj
  · exact fun _ _ => hsame.index.trans (Registry.index_of_byIndex hi)
  · intro i' hi'
    obtain rfl := Option.some.inj (hi.symm.trans hi')
    exact hsame

theorem frames_of_byIndex {i : Interface δ} (hi : s.interfaces.byIndex index = some i) :
    s.frames d index = i.frames d := by
  rw [frames, hi]
  rfl

theorem frames_modifyLink {i j : Interface δ} (hi : s.interfaces.byIndex index = some i)
    (hindex : j.index = i.index) (d : Direction) (k : Nat) :
    (s.modifyLink index fun _ => j).frames d k =
      if k = index then j.frames d else s.frames d k := by
  have hj : ∀ i' : Interface δ, i'.index = index → j.index = index := fun _ _ =>
    hindex.trans (Registry.index_of_byIndex hi)
  unfold frames modifyLink
  dsimp only
  rw [Registry.byIndex_modify hj]
  by_cases hk : k = index
  · subst hk
    rw [if_pos rfl, if_pos rfl, hi]
    rfl
  · rw [if_neg hk, if_neg hk]

/-- Frames in one direction of an interface are put behind those that wait. -/
theorem Sound.adds_link (hs : s.Sound) {i j : Interface δ}
    (hi : s.interfaces.byIndex index = some i) (hj : i.Holding j d (i.frames d ++ new)) :
    s.Adds (s.modifyLink index fun _ => j) (framesAt d index new) [] := by
  refine ⟨hs.keeps_link hi hj.same hj.sound, fun d' k => ?_,
    hs.pool.gains_of_sameInboxes (.refl _)⟩
  rw [frames_modifyLink hi hj.same.index, framesAt]
  by_cases hk : k = index
  · subst hk
    rw [if_pos rfl, frames_of_byIndex hi]
    by_cases hd : d' = d
    · subst hd
      rw [if_pos ⟨rfl, rfl⟩]
      exact hj.here
    · rw [if_neg fun h => hd h.1, List.append_nil]
      exact hj.there d' hd
  · rw [if_neg hk, if_neg fun h => hk h.2, List.append_nil]

/-- Work on an interface that leaves its queues alone. -/
theorem Sound.adds_count (hs : s.Sound) (index : Nat) (f : LinkCounters → LinkCounters) :
    s.Adds (s.modifyLink index fun i => i.count f) noFrames [] := by
  have hqueue : ∀ (i : Interface δ) (d : Direction), (i.count f).queue d = i.queue d := by
    intro i d
    cases d <;> rfl
  refine ⟨⟨rfl, rfl, ?_, hs.pool, hs.events⟩, fun d k => ?_,
    hs.pool.gains_of_sameInboxes (.refl _)⟩
  · exact Registry.keeps_modify hs.links (fun _ hi => hi) (fun _ _ => ⟨rfl, rfl, rfl, rfl⟩)
      fun i hi => (hs.links i hi).of_queues (hqueue i)
  · unfold frames modifyLink noFrames
    dsimp only
    rw [Registry.byIndex_modify (f := fun i => i.count f) fun _ hi => hi, List.append_nil]
    by_cases hk : k = index
    · rw [if_pos hk]
      cases s.interfaces.byIndex k with
      | none => rfl
      | some i => exact congrArg Fifo.toList (hqueue i d)
    · rw [if_neg hk]

/-- Work on an interface that is there. -/
theorem onLink_eq {α : Type} {i : Interface δ} (s : Stack δ)
    (hi : s.interfaces.byIndex index = some i) (f : Interface δ → Interface δ × α) :
    s.onLink index f = (s.modifyLink index fun _ => (f i).1, some (f i).2) := by
  rw [onLink, Registry.on, hi]
  rfl

theorem onLink_none {α : Type} (s : Stack δ) (hi : s.interfaces.byIndex index = none)
    (f : Interface δ → Interface δ × α) : s.onLink index f = (s, none) := by
  rw [onLink, Registry.on, hi]

theorem Sound.link (hs : s.Sound) {i : Interface δ} (hi : s.interfaces.byIndex index = some i) :
    i.Sound := hs.links i (Registry.mem_of_byIndex hi)

/-- An interface is put back with the frames that it had. -/
theorem Sound.adds_link_same (hs : s.Sound) {i j : Interface δ}
    (hi : s.interfaces.byIndex index = some i) (hj : i.Holding j d (i.frames d)) :
    s.Adds (s.modifyLink index fun _ => j) noFrames [] := by
  rw [← List.append_nil (i.frames d)] at hj
  rw [← framesAt_nil d index]
  exact hs.adds_link hi hj

theorem Sound.adds_post (hs : s.Sound) (event : CoreEvent) :
    s.Adds (s.post event).1 noFrames [] := by
  obtain ⟨es, hes⟩ := hs.events
  refine hs.adds_of_same rfl rfl rfl rfl ?_
  unfold post
  obtain ⟨-, he⟩ | ⟨-, -, he⟩ | ⟨-, -, q, he, hq⟩ := hes.offer_cases event <;> rw [he]
  · exact ⟨es, hes⟩
  · exact ⟨es, hes⟩
  · exact ⟨_, hq⟩

theorem Sound.adds_addRoute (hs : s.Sound) (offer : Route) :
    s.Adds (s.addRoute offer).1 noFrames [] := hs.adds_of_same rfl rfl rfl rfl hs.events

/-! ## Dispatching -/

theorem Sound.adds_countDrop (hs : s.Sound) (via : Option LinkId) :
    s.Adds (s.countDrop via) noFrames [] := by
  cases via with
  | none => exact hs.adds
  | some link => exact hs.adds_count _ _

theorem Sound.adds_countRxError (hs : s.Sound) (via : Option LinkId) :
    s.Adds (s.countRxError via) noFrames [] := by
  cases via with
  | none => exact hs.adds
  | some link => exact hs.adds_count _ _

theorem Sound.adds_learn (hs : s.Sound) (via : Option LinkId) (sender : Address) :
    s.Adds (s.learn via sender) noFrames [] := by
  unfold learn
  split
  · split
    · exact hs.adds
    · exact hs.adds_addRoute _
  · exact hs.adds

/-- Finding out who takes a packet delivers none. -/
theorem Sound.adds_addressee (hs : s.Sound) (via : Option LinkId) (packet : Buffer) :
    s.Adds (s.addressee via packet).1 noFrames [] := by
  unfold addressee
  split
  · exact hs.adds_countRxError via
  · next header _ =>
    split
    · exact hs.adds_countDrop via
    · have hlearn := hs.adds_learn via header.srcAddr
      have hfind := hlearn.quiet (hlearn.sound.adds_onPool
        (·.resolveInbound header.dstPort ⟨header.srcAddr, header.srcPort⟩)
        (hlearn.sound.pool.resolveInbound _ _))
      split <;> rename_i hq <;> rw [hq] at hfind
      · exact hfind
      · exact hfind.quiet (hfind.sound.adds_countDrop via)

/-- A packet that is dispatched comes to one connection at the most, as it is. -/
theorem Sound.adds_dispatch (hs : s.Sound) (via : Option LinkId) (packet : Buffer) :
    s.Adds (s.dispatch via packet) noFrames [packet] := by
  have hfind := hs.adds_addressee via packet
  unfold dispatch
  split <;> rename_i hq <;> rw [hq] at hfind
  · exact hfind.weaken _
  · next t receiver =>
    have hpush := hfind.trans
      (hfind.sound.adds_onPool (·.rxPush receiver packet) (hfind.sound.pool.rxPush _ _))
    split <;> rename_i hr <;> rw [hr] at hpush
    · exact hpush
    · exact hpush.quiet (hpush.sound.adds_countDrop via)

/-- The oldest frame that was received on an interface is dispatched, if there is one. -/
theorem Sound.receive_cases (hs : s.Sound) (index : Nat) :
    (s.frames .rx index = [] ∧ s.receive? index = none) ∨
    ∃ frame rest t, s.frames .rx index = frame :: rest ∧ s.receive? index = some t ∧
      s.Keeps t ∧ t.frames .rx index = rest ∧ s.pool.Gains t.pool [frame] := by
  unfold receive?
  cases hi : s.interfaces.byIndex index with
  | none =>
    refine .inl ⟨?_, rfl⟩
    rw [frames, hi]
    rfl
  | some i =>
    dsimp only
    rw [frames_of_byIndex hi]
    obtain ⟨hn, hnone, -⟩ | ⟨frame, rest, heq, hsome, hj⟩ := (hs.link hi).takeRx_cases
    · refine .inl ⟨hn, ?_⟩
      split
      · next frame hq =>
        rw [hq] at hnone
        exact absurd rfl (hnone frame)
      · rfl
    · have htake := hs.keeps_link hi hj.same hj.sound
      have hadds := htake.sound.adds_dispatch (some i.id) frame
      refine .inr ⟨frame, rest, _, heq, ?_, htake.trans hadds.keeps, ?_, hadds.packets⟩
      · generalize i.takeRx = taken at hsome ⊢
        obtain ⟨j, result⟩ := taken
        dsimp only at hsome
        subst hsome
        rfl
      · rw [hadds.frames, frames_modifyLink hi hj.same.index, if_pos rfl, hj.here]
        exact List.append_nil _

/-! ## What touches no event -/

@[simp] theorem events_modifyLink (s : Stack δ) (index : Nat) (f : Interface δ → Interface δ) :
    (s.modifyLink index f).events = s.events := rfl

@[simp] theorem events_countDrop (s : Stack δ) (via : Option LinkId) :
    (s.countDrop via).events = s.events := by
  cases via <;> rfl

@[simp] theorem events_countRxError (s : Stack δ) (via : Option LinkId) :
    (s.countRxError via).events = s.events := by
  cases via <;> rfl

@[simp] theorem events_learn (s : Stack δ) (via : Option LinkId) (sender : Address) :
    (s.learn via sender).events = s.events := by
  unfold learn
  split
  · split <;> rfl
  · rfl

theorem events_addressee (s : Stack δ) (via : Option LinkId) (packet : Buffer) :
    (s.addressee via packet).1.events = s.events := by
  unfold addressee onPool
  split
  · simp
  · split
    · simp
    · split <;> rename_i hq
      · rw [← congrArg (·.1.events) hq]
        simp
      · rw [events_countDrop, ← congrArg (·.1.events) hq]
        simp

theorem events_dispatch (s : Stack δ) (via : Option LinkId) (packet : Buffer) :
    (s.dispatch via packet).events = s.events := by
  have hfind := s.events_addressee via packet
  unfold dispatch onPool
  split <;> rename_i hq <;> rw [hq] at hfind
  · exact hfind
  · split <;> rename_i hp
    · rw [← hfind, ← congrArg (·.1.events) hp]
    · rw [events_countDrop, ← hfind, ← congrArg (·.1.events) hp]

/-! ## Calls that wait

A call is begun once. It may end at once, or sleep until there is room; then it is resumed,
any number of times, until it ends. The call that sleeps carries what it is to queue from the
beginning on, so whatever piece ends it adds the same frames and packets, and no other piece
adds anything. -/

/-- A piece of a call fails or sleeps and adds nothing, or it adds what the call is for. If it
answers well the answer is `value`. -/
inductive Advances {κ ρ : Type} (s : Stack δ) (call : κ) (fs : Direction → Nat → List Buffer)
    (xs : List Buffer) (value : ρ) : Stack δ × Progress κ (Except Error ρ) → Prop
  | failed {t : Stack δ} {e : Error} (adds : s.Adds t noFrames []) :
      Advances s call fs xs value (t, .done (.error e))
  | asleep {t : Stack δ} (adds : s.Adds t noFrames []) :
      Advances s call fs xs value (t, .parked call)
  | through {t : Stack δ} {r : Except Error ρ} (adds : s.Adds t fs xs)
      (answer : ∀ a, r = .ok a → a = value) : Advances s call fs xs value (t, .done r)

section Advances

variable {κ ρ : Type} {call call' : κ} {value : ρ} {r : Except Error ρ}

theorem Advances.keeps {o : Stack δ × Progress κ (Except Error ρ)}
    (ha : s.Advances call fs xs value o) : s.Keeps o.1 := by
  cases ha with
  | failed adds => exact adds.keeps
  | asleep adds => exact adds.keeps
  | through adds _ => exact adds.keeps

theorem Advances.parked (ha : s.Advances call fs xs value (t, .parked call')) :
    call' = call ∧ s.Keeps t := by
  cases ha with
  | asleep adds => exact ⟨rfl, adds.keeps⟩

theorem Advances.done (ha : s.Advances call fs xs value (t, .done r)) :
    (s.Adds t noFrames [] ∧ ∀ a, r ≠ .ok a) ∨ (s.Adds t fs xs ∧ ∀ a, r = .ok a → a = value) := by
  cases ha with
  | failed adds =>
    refine .inl ⟨adds, ?_⟩
    rintro a ⟨⟩
  | through adds answer => exact .inr ⟨adds, answer⟩

end Advances

/-! ## Frames from a driver -/

/-- The buffer of a received frame holds it. -/
theorem used_frameBuffer {bytes : List UInt8} {b : Buffer}
    (hb : frameBuffer index bytes = .ok b) : b.used = bytes := by
  unfold frameBuffer at hb
  obtain ⟨b₀, hof, hb⟩ := bind_eq_ok_iff.1 hb
  obtain rfl := Except.ok.inj hb
  exact ((Buffer.spans_ofBytes hof).setInterface _).used_eq

/-- A received frame was queued, or was refused. -/
theorem Sound.advances_afterInput (hs : s.Sound) {i j : Interface δ}
    {result : Except (Rejected Buffer) Unit} (hi : s.interfaces.byIndex index = some i)
    (hpush : i.Pushes .rx frame (j, .done result)) :
    s.Advances frame (framesAt .rx index [frame]) [] ()
      (((s.modifyLink index fun _ => j).afterInput index result).map id .done) := by
  cases hpush with
  | refused holding => exact .failed (hs.adds_link_same hi holding)
  | queued holding =>
    have hadds := hs.adds_link hi holding
    exact .through (hadds.quiet (hadds.sound.adds_post _)) fun _ _ => rfl

section Registered

variable {i : Interface δ}

/-- A frame is handed over on an interface. -/
theorem Sound.advances_beginInput (hs : s.Sound) (hi : s.interfaces.byIndex index = some i)
    {bytes : List UInt8} (hframe : frameBuffer index bytes = .ok frame) :
    s.Advances frame (framesAt .rx index [frame]) [] () (s.beginInput index bytes) := by
  unfold beginInput
  rw [hframe]
  dsimp only
  generalize Timeout.waits (some s.config.queueTimeout) = waits
  have hpush := (hs.link hi).beginPush .rx frame waits
  rw [s.onLink_eq hi]
  generalize i.beginPush .rx frame waits = o at hpush ⊢
  obtain ⟨j, result | frame'⟩ := o
  · exact hs.advances_afterInput hi hpush
  · cases hpush with
    | asleep holding => exact .asleep (hs.adds_link_same hi holding)

theorem Sound.advances_wakeInput (hs : s.Sound) (hi : s.interfaces.byIndex index = some i)
    (frame : Buffer) :
    s.Advances frame (framesAt .rx index [frame]) [] () (s.wakeInput index frame) := by
  unfold wakeInput
  have hpush := (hs.link hi).wakePush .rx frame
  rw [s.onLink_eq hi]
  generalize i.wakePush .rx frame = o at hpush ⊢
  obtain ⟨j, result | frame'⟩ := o
  · exact hs.advances_afterInput hi hpush
  · cases hpush with
    | asleep holding => exact .asleep (hs.adds_link_same hi holding)

theorem Sound.advances_expireInput (hs : s.Sound) (hi : s.interfaces.byIndex index = some i)
    (frame : Buffer) :
    s.Advances frame (framesAt .rx index [frame]) [] ()
      ((s.expireInput index frame).map id .done) := by
  unfold expireInput
  rw [s.onLink_eq hi]
  exact hs.advances_afterInput hi ((hs.link hi).expirePush .rx frame)

end Registered

/-- An input keeps the stack, whether there is an interface for it or not. -/
theorem Sound.keeps_beginInput (hs : s.Sound) (index : Nat) (bytes : List UInt8) :
    s.Keeps (s.beginInput index bytes).1 := by
  cases hframe : frameBuffer index bytes with
  | error e =>
    rw [beginInput, hframe]
    exact hs.keeps
  | ok frame =>
    cases hi : s.interfaces.byIndex index with
    | none =>
      rw [beginInput, hframe]
      dsimp only
      rw [s.onLink_none hi]
      exact hs.keeps
    | some i => exact (hs.advances_beginInput hi hframe).keeps

theorem Sound.keeps_wakeInput (hs : s.Sound) (index : Nat) (frame : Buffer) :
    s.Keeps (s.wakeInput index frame).1 := by
  cases hi : s.interfaces.byIndex index with
  | none =>
    rw [wakeInput, s.onLink_none hi]
    exact hs.keeps
  | some i => exact (hs.advances_wakeInput hi frame).keeps

theorem Sound.keeps_expireInput (hs : s.Sound) (index : Nat) (frame : Buffer) :
    s.Keeps (s.expireInput index frame).1 := by
  cases hi : s.interfaces.byIndex index with
  | none =>
    rw [expireInput, s.onLink_none hi]
    exact hs.keeps
  | some i => exact (hs.advances_expireInput hi frame).keeps

end Netstack.Stack
