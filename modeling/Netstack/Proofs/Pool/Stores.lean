import Netstack.Proofs.Pool.Census

/-
Operations that touch nothing that a pool stores.

A pool stores packets, in the receive queues, and children, in the backlogs. Most operations
are about the connections themselves: they change phases, options, entries for children and
members of ports, and every queue and every backlog is the same afterwards. What is said of
the packets, or of the children that wait, is kept by all of them for this one reason.
-/

set_option autoImplicit false

namespace Netstack

namespace Role

/-- The backlog of a server. -/
def backlog? : Role → Option (Fifo Handle)
  | server backlog _ => some backlog
  | _ => none

@[simp] theorem backlog?_forget (peer : Peer) (r : Role) :
    (r.forget peer).backlog? = r.backlog? := by
  cases r <;> rfl

end Role

namespace Pool

variable {p q : Pool}

/-- A change of one slot that does not show in `view` shows nowhere. -/
theorem view_modify {β : Type} (view : Slot → β) (i : Nat) {f : Slot → Slot}
    (hf : ∀ s, view (f s) = view s) (j : Nat) :
    view ((p.modify i f).slotAt j) = view (p.slotAt j) := by
  obtain ⟨-, -, hset⟩ | hsame := slotAt_modify_cases p i j f
  · rw [hset, hf]
  · rw [hsame]

/-- Every queue and every backlog is the same as before. -/
structure SameStores (p q : Pool) : Prop where
  rxQueue : ∀ i, (q.slotAt i).rxQueue = (p.slotAt i).rxQueue
  backlog : ∀ i, (q.slotAt i).role.backlog? = (p.slotAt i).role.backlog?

namespace SameStores

theorem refl (p : Pool) : p.SameStores p := ⟨fun _ => rfl, fun _ => rfl⟩

theorem trans {r : Pool} (h₁ : p.SameStores q) (h₂ : q.SameStores r) : p.SameStores r :=
  ⟨fun i => (h₂.rxQueue i).trans (h₁.rxQueue i), fun i => (h₂.backlog i).trans (h₁.backlog i)⟩

end SameStores

theorem sameStores_modify (i : Nat) {f : Slot → Slot} (hq : ∀ s, (f s).rxQueue = s.rxQueue)
    (hb : ∀ s, (f s).role.backlog? = s.role.backlog?) : p.SameStores (p.modify i f) :=
  ⟨view_modify Slot.rxQueue i hq, view_modify (fun s => s.role.backlog?) i hb⟩

theorem sameStores_emit (event : ConnEvent) : p.SameStores (p.emit event) :=
  ⟨fun _ => rfl, fun _ => rfl⟩

theorem sameStores_withPorts (t : PortTable) : p.SameStores ({ p with ports := t } : Pool) :=
  ⟨fun _ => rfl, fun _ => rfl⟩

theorem sameStores_announce (h : Handle) (clear set : EventBits) (event : ConnEvent) :
    p.SameStores (p.announce h clear set event).1 := by
  unfold announce
  split
  · exact .refl _
  · refine SameStores.trans ?_ (sameStores_emit _)
    exact sameStores_modify _ (fun _ => rfl) fun _ => rfl

theorem sameStores_forgetChild (parent : Handle) (peer : Peer) :
    p.SameStores (p.forgetChild parent peer) := by
  unfold forgetChild
  split
  · exact sameStores_modify _ (fun _ => rfl) fun s => s.role.backlog?_forget peer
  · exact .refl _

theorem sameStores_unregister (port : UInt8) (h : Handle) : p.SameStores (p.unregister port h) := by
  unfold unregister
  split
  · exact sameStores_withPorts _
  · exact .refl _

theorem sameStores_detach (h : Handle) (s : Slot) : p.SameStores (p.detach h s) := by
  -- first the parent, and then the port
  have hport : ∀ q : Pool, p.SameStores q →
      p.SameStores (if s.registered then q.unregister s.options.lport h else q) := by
    intro q hq
    split
    · exact hq.trans (sameStores_unregister _ _)
    · exact hq
  unfold detach
  cases s.role.parent? with
  | none => exact hport p (.refl p)
  | some parent => exact hport _ (sameStores_forgetChild parent s.peer)

theorem sameStores_bind (h : Handle) (port : UInt8) : p.SameStores (p.bind h port).1 := by
  unfold bind
  split
  · exact .refl _
  · split
    · exact .refl _
    · split
      · exact .refl _
      · refine SameStores.trans ?_ (sameStores_announce _ _ _ _)
        exact sameStores_modify _ (fun _ => rfl) fun _ => rfl

theorem sameStores_connect (h : Handle) (peer : Peer) : p.SameStores (p.connect h peer).1 := by
  unfold connect
  split
  · exact .refl _
  · split
    · exact .refl _
    · split
      · exact .refl _
      · dsimp only
        split
        · exact .refl _
        · next t _ =>
          refine SameStores.trans ?_ (sameStores_announce _ _ _ _)
          refine (sameStores_withPorts t).trans ?_
          exact sameStores_modify _ (fun _ => rfl) fun _ => rfl

theorem sameStores_setPriority (h : Handle) (priority : UInt8) :
    p.SameStores (p.setPriority h priority).1 := by
  unfold setPriority
  split
  · exact .refl _
  · dsimp only
    split
    · split
      · exact sameStores_modify _ (fun _ => rfl) fun _ => rfl
      · refine SameStores.trans ?_ (sameStores_withPorts _)
        exact sameStores_modify _ (fun _ => rfl) fun _ => rfl
    · exact sameStores_modify _ (fun _ => rfl) fun _ => rfl

theorem sameStores_updateOptions (h : Handle) (f : Options → Options) :
    p.SameStores (p.updateOptions h f).1 := by
  unfold updateOptions
  split
  · exact .refl _
  · exact sameStores_modify _ (fun _ => rfl) fun _ => rfl

end Pool

end Netstack
