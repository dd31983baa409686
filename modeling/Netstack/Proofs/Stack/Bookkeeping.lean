import Netstack.Proofs.Stack.Ledger
import Netstack.Proofs.Stack.Sends

/-
How calls keep the books on frames.

The only thing that calls do to the frames that wait and to the events is a push on an
interface, after which the core is told if the push has queued the frame. What the push
answered is what is written down (`pushEntries`), and so the law of the ledger is kept
(`Kept.push`). Everything else leaves both alone (`SameQueues`).
-/

set_option autoImplicit false

namespace Netstack

open Interface (Direction)

namespace Stack

variable {δ : Type} {s t u : Stack δ} {d : Direction} {index : Nat} {frame : Buffer}
  {log : Ledger}

/-! ## What is written down -/

/-- Telling the core of an event. -/
def told (s : Stack δ) (event : CoreEvent) : Ledger :=
  match (s.post event).2 with
  | .error .queueFull => [.refused event]
  | _ => []

/-- A push of a frame on an interface, after which the core is told of the frame. -/
def pushEntries (s : Stack δ) (d : Direction) (index : Nat) (frame : Buffer)
    (push : Interface δ → Interface δ × Progress Buffer (Except (Rejected Buffer) Unit)) :
    Ledger :=
  match s.onLink index push with
  | (s, some (.done (.ok ()))) => .accepted d index frame :: s.told (.of d index)
  | _ => []

/-! ## Keeping the law -/

/-- The books are right: the queues stand for what is in them, and the ledger keeps its law. -/
structure Kept (log : Ledger) (s : Stack δ) : Prop where
  sound : s.Sound
  serving : s.events.ring.destroyed = false
  law : ∃ es, s.events.Holds es ∧ log.Law s.frames es

theorem told_cases {es : List CoreEvent} (hes : s.events.Holds es)
    (hserving : s.events.ring.destroyed = false) (event : CoreEvent) :
    (s.post event).1.events.ring.destroyed = false ∧
      ∃ es', (s.post event).1.events.Holds es' ∧ Ledger.Told event es (s.told event) es' := by
  unfold told post
  dsimp only
  obtain ⟨hd, -⟩ | ⟨-, -, hfull⟩ | ⟨-, -, q, hok, hq⟩ := hes.offer_cases event
  · rw [hserving] at hd
    cases hd
  · rw [hfull]
    exact ⟨hserving, es, hes, .inr ⟨rfl, rfl⟩⟩
  · have hd := Fifo.destroyed_offer s.events event
    rw [hok] at hd ⊢
    exact ⟨hd.trans hserving, es ++ [event], hq, .inl ⟨rfl, rfl⟩⟩

/-- The queues that the core works on are the same. -/
structure SameQueues (s t : Stack δ) : Prop where
  frames : t.frames = s.frames
  events : t.events = s.events

theorem sameQueues_of_eq (hlinks : t.interfaces = s.interfaces) (hevents : t.events = s.events) :
    SameQueues s t := by
  refine ⟨?_, hevents⟩
  funext d k
  rw [frames, frames, hlinks]

theorem SameQueues.trans (h : SameQueues s t) (h' : SameQueues t u) : SameQueues s u :=
  ⟨h'.frames.trans h.frames, h'.events.trans h.events⟩

theorem Kept.same (hk : Kept log s) (hsame : SameQueues s t) (ht : t.Sound) : Kept log t := by
  obtain ⟨es, hes, hlaw⟩ := hk.law
  refine ⟨ht, ?_, es, ?_, ?_⟩
  · rw [hsame.events]
    exact hk.serving
  · rw [hsame.events]
    exact hes
  · rw [hsame.frames]
    exact hlaw

theorem Kept.post (hk : Kept log s) (event : CoreEvent) :
    Kept (log ++ s.told event) (s.post event).1 := by
  obtain ⟨es, hes, hlaw⟩ := hk.law
  obtain ⟨hserving, es', hes', htold⟩ := told_cases hes hk.serving event
  exact ⟨(hk.sound.adds_post event).sound, hserving, es', hes', hlaw.told htold⟩

/-- What is left of a push on an interface and of telling the core, if it has queued a frame. -/
def Pushed (s : Stack δ) (d : Direction) (index : Nat)
    (push : Interface δ → Interface δ × Progress Buffer (Except (Rejected Buffer) Unit))
    (t : Stack δ) : Prop :=
  match s.onLink index push with
  | (u, some (.done (.ok ()))) => SameQueues (u.post (.of d index)).1 t
  | (u, _) => SameQueues u t

/-- A push and what follows it keep the law. -/
theorem Kept.push
    {push : Interface δ → Interface δ × Progress Buffer (Except (Rejected Buffer) Unit)}
    (hk : Kept log s) (hpush : ∀ i : Interface δ, i.Sound → i.Pushes d frame (push i))
    (ht : t.Sound) (h : s.Pushed d index push t) :
    Kept (log ++ s.pushEntries d index frame push) t := by
  unfold Pushed at h
  unfold pushEntries
  cases hi : s.interfaces.byIndex index with
  | none =>
    rw [s.onLink_none hi] at h ⊢
    rw [List.append_nil]
    exact hk.same h ht
  | some i =>
    have hp := hpush i (hk.sound.link hi)
    rw [s.onLink_eq hi] at h ⊢
    -- the interface is put back as it was
    have hidle : ∀ j : Interface δ, i.Holding j d (i.frames d) →
        SameQueues (s.modifyLink index fun _ => j) t → Kept (log ++ []) t := by
      intro j hj hsame
      have hframes : SameQueues s (s.modifyLink index fun _ => j) := by
        refine ⟨?_, rfl⟩
        funext d' k
        rw [(hk.sound.adds_link_same hi hj).frames]
        exact List.append_nil _
      rw [List.append_nil]
      exact hk.same (hframes.trans hsame) ht
    generalize push i = o at hp h ⊢
    cases hp with
    | refused holding => exact hidle _ holding h
    | asleep holding => exact hidle _ holding h
    | @queued j holding =>
      obtain ⟨es, hes, hlaw⟩ := hk.law
      have hadds := hk.sound.adds_link hi holding
      obtain ⟨hserving, es', hes', htold⟩ :=
        told_cases (s := s.modifyLink index fun _ => j) hes hk.serving (.of d index)
      have hframes : t.frames = fun d' k => s.frames d' k ++ framesAt d index [frame] d' k := by
        rw [h.frames]
        funext d' k
        exact hadds.frames d' k
      refine ⟨ht, ?_, es', ?_, ?_⟩
      · rw [h.events]
        exact hserving
      · rw [h.events]
        exact hes'
      · rw [hframes]
        exact hlaw.queued htold

/-! ## The pieces of the calls -/

theorem sameQueues_sent (s : Stack δ) (h : Handle) (size : Nat) :
    SameQueues s (s.sent h size).1 := by
  unfold sent onPool
  dsimp only
  split <;> rename_i hq <;> rw [← congrArg Prod.fst hq] <;> exact sameQueues_of_eq rfl rfl

theorem pushed_beginInput {bytes : List UInt8} (hframe : frameBuffer index bytes = .ok frame) :
    s.Pushed .rx index (·.beginPush .rx frame (Timeout.waits (some s.config.queueTimeout)))
      (s.beginInput index bytes).1 := by
  unfold Pushed beginInput
  rw [hframe]
  dsimp only
  cases s.onLink index _ with
  | mk u answer =>
    rcases answer with _ | (_ | _) | _ <;> exact ⟨rfl, rfl⟩

theorem pushed_wakeInput (s : Stack δ) (index : Nat) (frame : Buffer) :
    s.Pushed .rx index (·.wakePush .rx frame) (s.wakeInput index frame).1 := by
  unfold Pushed wakeInput
  cases s.onLink index _ with
  | mk u answer =>
    rcases answer with _ | (_ | _) | _ <;> exact ⟨rfl, rfl⟩

theorem pushed_expireInput (s : Stack δ) (index : Nat) (frame : Buffer) :
    s.Pushed .rx index (fun i => (i.expirePush .rx frame).map id .done)
      (s.expireInput index frame).1 := by
  unfold Pushed expireInput
  cases hi : s.interfaces.byIndex index with
  | none =>
    rw [s.onLink_none hi, s.onLink_none hi]
    exact ⟨rfl, rfl⟩
  | some i =>
    rw [s.onLink_eq hi, s.onLink_eq hi]
    cases i.expirePush .rx frame with
    | mk j result => cases result <;> exact ⟨rfl, rfl⟩

section Sends

variable {h : Handle} {data : List UInt8} {dst : Peer} {packet : Buffer} {size : Nat}
  {timeout : Timeout}

/-- Where a packet goes that a stack sends to itself there is no interface. -/
theorem sameQueues_addressee_none (s : Stack δ) (packet : Buffer) :
    SameQueues s (s.addressee none packet).1 := by
  refine sameQueues_of_eq ?_ (s.events_addressee none packet)
  unfold addressee onPool
  split
  · rfl
  · split
    · rfl
    · split <;> rename_i hq <;> exact (congrArg (·.1.interfaces) hq).symm

theorem sameQueues_onPool {α : Type} (s : Stack δ) (f : Pool → Pool × α) :
    SameQueues s (s.onPool f).1 := ⟨rfl, rfl⟩

theorem sameQueues_beginSendTo_loop (hout : s.outbound h data dst = .ok (.loop packet)) :
    SameQueues s (s.beginSendTo h data dst).1 := by
  have hfind := s.sameQueues_addressee_none packet
  unfold beginSendTo
  rw [hout]
  dsimp only
  split <;> rename_i hq <;> rw [hq] at hfind
  · exact hfind.trans (sameQueues_sent _ _ _)
  · next t receiver =>
    have hpush := hfind.trans (t.sameQueues_onPool (·.beginPush receiver packet))
    split <;> rename_i hp <;> rw [hp] at hpush
    · exact hpush.trans (sameQueues_sent _ _ _)
    · exact hpush

theorem pushed_beginSendTo (hout : s.outbound h data dst = .ok (.link index frame timeout)) :
    s.Pushed .tx index (·.beginPush .tx frame timeout.waits) (s.beginSendTo h data dst).1 := by
  unfold Pushed beginSendTo
  rw [hout]
  dsimp only
  cases s.onLink index _ with
  | mk u answer =>
    rcases answer with _ | (_ | _) | _
    · exact ⟨rfl, rfl⟩
    · exact ⟨rfl, rfl⟩
    · exact sameQueues_sent (u.post (.tx index)).1 h data.length
    · exact ⟨rfl, rfl⟩

theorem sameQueues_wakeSend_loop (s : Stack δ) (h receiver : Handle) (packet : Buffer)
    (size : Nat) : SameQueues s (s.wakeSend (.loop h receiver packet size)).1 := by
  have hpush := s.sameQueues_onPool (·.wake (.push receiver packet))
  unfold wakeSend
  dsimp only
  split <;> rename_i hp <;> rw [hp] at hpush
  · exact hpush.trans (sameQueues_sent _ _ _)
  · exact hpush

theorem sameQueues_expireSend_loop (s : Stack δ) (h receiver : Handle) (packet : Buffer)
    (size : Nat) : SameQueues s (s.expireSend (.loop h receiver packet size)).1 :=
  (s.sameQueues_onPool (·.expire (.push receiver packet))).trans (sameQueues_sent _ _ _)

theorem pushed_wakeSend (s : Stack δ) (h : Handle) (index : Nat) (frame : Buffer) (size : Nat) :
    s.Pushed .tx index (·.wakePush .tx frame) (s.wakeSend (.link h index frame size)).1 := by
  unfold Pushed wakeSend
  dsimp only
  cases s.onLink index _ with
  | mk u answer =>
    rcases answer with _ | (_ | _) | _
    · exact ⟨rfl, rfl⟩
    · exact ⟨rfl, rfl⟩
    · exact sameQueues_sent (u.post (.tx index)).1 h size
    · exact ⟨rfl, rfl⟩

theorem pushed_expireSend (s : Stack δ) (h : Handle) (index : Nat) (frame : Buffer)
    (size : Nat) :
    s.Pushed .tx index (fun i => (i.expirePush .tx frame).map id .done)
      (s.expireSend (.link h index frame size)).1 := by
  unfold Pushed expireSend
  dsimp only
  cases hi : s.interfaces.byIndex index with
  | none =>
    rw [s.onLink_none hi, s.onLink_none hi]
    exact ⟨rfl, rfl⟩
  | some i =>
    rw [s.onLink_eq hi, s.onLink_eq hi]
    cases i.expirePush .tx frame with
    | mk j result =>
      cases result with
      | error e => exact ⟨rfl, rfl⟩
      | ok _ => exact sameQueues_sent ((s.modifyLink index fun _ => j).post (.tx index)).1 h size

end Sends

/-- A new interface has no frames. -/
theorem sameQueues_registerInterface {i : Interface δ} (hi : ∀ d, i.frames d = []) (s : Stack δ) :
    SameQueues s (s.registerInterface i).1 := by
  unfold registerInterface
  split
  · exact ⟨rfl, rfl⟩
  · refine ⟨?_, rfl⟩
    change frames { s with interfaces := (s.interfaces.register i).1 } = s.frames
    funext d k
    unfold frames Registry.register
    dsimp only
    split
    · rfl
    · have hnew : Interface.frames { i with index := s.interfaces.nextIndex } d = [] := by
        rw [← hi d]
        cases d <;> rfl
      unfold Registry.byIndex
      dsimp only
      rw [List.find?_append]
      cases List.find? (fun i => i.index == k) s.interfaces.interfaces with
      | some j => rfl
      | none =>
        rw [List.find?_singleton]
        split
        · simpa using hnew
        · rfl

end Stack

end Netstack
