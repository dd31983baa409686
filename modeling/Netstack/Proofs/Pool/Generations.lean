import Mathlib.Algebra.Group.Nat.Defs
import Netstack.Proofs.Pool.Family

/-
How often a slot is given back.

A slot counts its uses. Handing it out keeps the count, giving it back adds one, and
whatever an operation does, it gives a slot back at most once. So between two moments with
the same count the slot was not given back, unless the counter went once around in between.
A handle that is live at the first of them is live at the second, and one that has ended is
not live again before the counter comes back to it.
-/

set_option autoImplicit false

namespace Netstack

/-! ## One slot, one step -/

namespace Status

/-- The use of a slot goes on, or the slot stays free or is handed out. -/
structure Stays (s t : Status) : Prop where
  generation : t.generation = s.generation
  phase : s.phase ≠ .free → t.phase ≠ .free

/-- The slot has been given back. -/
structure Retires (s t : Status) : Prop where
  generation : t.generation = s.generation + 1
  phase : t.phase = .free

/-- What endings do to a slot: it is given back, or its use goes on. -/
def Wanes (s t : Status) : Prop :=
  (t.generation = s.generation ∧ (t.phase = .free ↔ s.phase = .free)) ∨
    (s.phase ≠ .free ∧ s.Retires t)

variable {s t u : Status}

theorem Stays.refl (s : Status) : s.Stays s := ⟨rfl, id⟩

theorem Stays.trans (h₁ : s.Stays t) (h₂ : t.Stays u) : s.Stays u :=
  ⟨h₂.generation.trans h₁.generation, fun hp => h₂.phase (h₁.phase hp)⟩

theorem Alike.wanes (h : t.Alike s) : s.Wanes t := .inl ⟨h.generation, by rw [h.phase]⟩

theorem Wanes.refl (s : Status) : s.Wanes s := .inl ⟨rfl, Iff.rfl⟩

/-- A slot that was given back is free, and so is not given back again. -/
theorem Wanes.trans (h₁ : s.Wanes t) (h₂ : t.Wanes u) : s.Wanes u := by
  obtain ⟨hg₁, hp₁⟩ | ⟨hp₁, hr₁⟩ := h₁
  · obtain ⟨hg₂, hp₂⟩ | ⟨hp₂, hr₂⟩ := h₂
    · exact .inl ⟨hg₂.trans hg₁, hp₂.trans hp₁⟩
    · exact .inr ⟨fun h => hp₂ (hp₁.2 h), hg₁ ▸ hr₂.generation, hr₂.phase⟩
  · obtain ⟨hg₂, hp₂⟩ | ⟨hp₂, -⟩ := h₂
    · exact .inr ⟨hp₁, hg₂.trans hr₁.generation, hp₂.2 hr₁.phase⟩
    · exact absurd hr₁.phase hp₂

theorem Stays.wanes (h₁ : s.Stays t) (h₂ : t.Wanes u) : s.Stays u ∨ s.Retires u := by
  obtain ⟨hg, hp⟩ | ⟨-, hr⟩ := h₂
  · exact .inl ⟨hg.trans h₁.generation, fun h hu => h₁.phase h (hp.1 hu)⟩
  · exact .inr ⟨h₁.generation ▸ hr.generation, hr.phase⟩

end Status

namespace Census

variable {σ τ : Census} {h : Handle} {i : Nat}

theorem stays_alter {f : Status → Status} (hf : (σ.status i).Stays (f (σ.status i))) (k : Nat) :
    (σ.status k).Stays ((σ.alter i f).status k) := by
  by_cases hk : k = i
  · rw [hk, status_alter_self]
    exact hf
  · rw [status_alter_of_ne hk]
    exact .refl _

theorem Opening.stays (ho : Opening σ τ) (k : Nat) : (σ.status k).Stays (τ.status k) := by
  cases ho with
  | claim size free => exact stays_alter ⟨rfl, fun h => absurd free h⟩ k
  | attach live closed bindable => exact stays_alter ⟨rfl, fun _ => by simp [Status.attached]⟩ k
  | listen live bound table =>
    rw [status_withPorts]
    exact stays_alter ⟨rfl, fun _ => by simp [Status.listening]⟩ k
  | link live idle table =>
    rw [status_withPorts]
    exact stays_alter ⟨rfl, fun _ => by simp [Status.linked]⟩ k
  | rank live =>
    rw [status_rank]
    exact stays_alter ⟨rfl, id⟩ k
  | retime live => exact stays_alter ⟨rfl, id⟩ k
  | @adopt parent child peer children live listens server unknown childLive fresh =>
    have hchild : (σ.status k).Stays ((σ.alter child.index
        (Status.fostered parent (σ.status parent.index).options peer)).status k) :=
      stays_alter ⟨rfl, fun _ => by simp [Status.fostered]⟩ k
    refine hchild.trans ?_
    unfold Census.adopt
    exact stays_alter ⟨rfl, id⟩ k

theorem Ending.wanes (he : Ending σ τ) (k : Nat) : (σ.status k).Wanes (τ.status k) := by
  cases he with
  | @shut h live active =>
    by_cases hk : k = h.index
    · rw [hk, status_shut_self]
      refine .inl ⟨(alike_detach h h.index).generation, ?_⟩
      exact iff_of_false (by simp [Status.shut]) live.2
    · rw [status_shut_of_ne hk]
      exact (alike_detach h k).wanes
  | @vacate h live closed =>
    by_cases hk : k = h.index
    · rw [hk, status_alter_self]
      exact .inr ⟨live.2, rfl, rfl⟩
    · rw [status_alter_of_ne hk]
      exact .refl _

theorem Endings.wanes (he : Endings σ τ) (k : Nat) : (σ.status k).Wanes (τ.status k) := by
  induction he with
  | refl => exact .refl _
  | tail _ he ih => exact ih.trans (he.wanes k)

theorem Openings.stays (ho : Openings σ τ) (k : Nat) : (σ.status k).Stays (τ.status k) := by
  induction ho with
  | refl => exact .refl _
  | tail _ ho ih => exact ih.trans (ho.stays k)

/-- An operation gives a slot back at most once. -/
theorem Moves.ages (hm : Moves σ τ) (k : Nat) :
    (σ.status k).Stays (τ.status k) ∨ (σ.status k).Retires (τ.status k) := by
  obtain ⟨ρ, ho, he⟩ := hm
  exact (ho.stays k).wanes (he.wanes k)

end Census

/-! ## One slot, one run -/

section Turnover

variable {σ α : Type} {step : σ → α → σ} {generation : σ → UInt32}

/-- How often a slot is given back in a run: the steps after which its generation is another
one. -/
def turnover (step : σ → α → σ) (generation : σ → UInt32) : σ → List α → Nat
  | _, [] => 0
  | s, a :: run =>
    (if generation (step s a) = generation s then 0 else 1) +
      turnover step generation (step s a) run

theorem turnover_append (s : σ) (run rest : List α) :
    turnover step generation s (run ++ rest) =
      turnover step generation s run + turnover step generation (run.foldl step s) rest := by
  induction run generalizing s with
  | nil => exact (Nat.zero_add _).symm
  | cons a run ih =>
    rw [List.cons_append, turnover, turnover, ih, List.foldl_cons, Nat.add_assoc]

theorem turnover_le_length (s : σ) (run : List α) :
    turnover step generation s run ≤ run.length := by
  induction run generalizing s with
  | nil => exact Nat.le_refl 0
  | cons a run ih =>
    have hrest := ih (step s a)
    rw [turnover, List.length_cons]
    split <;> omega

end Turnover

namespace System

open Pool (Op Reply)

variable {s : System} {h : Handle} {i : Nat}

/-- The generation of a slot. -/
def generation (s : System) (i : Nat) : UInt32 := (s.pool.slotAt i).generation

/-- How often a slot is given back in a run of operations, by `free` or after an offer that was
rejected. -/
def turnover (i : Nat) (s : System) (ops : List Op) : Nat :=
  Netstack.turnover (fun s op => (s.step op).1) (generation · i) s ops

theorem turnover_cons (i : Nat) (s : System) (op : Op) (ops : List Op) :
    turnover i s (op :: ops) = (if (s.step op).1.generation i = s.generation i then 0 else 1) +
      turnover i (s.step op).1 ops := rfl

theorem ages_step (s : System) (op : Op) (i : Nat) :
    (s.pool.census.status i).Stays ((s.step op).1.pool.census.status i) ∨
      (s.pool.census.status i).Retires ((s.step op).1.pool.census.status i) :=
  (moves_step s op).ages i

theorem add_one_ne (g : UInt32) : g + 1 ≠ g := by
  intro h
  have hone : (1 : UInt32) = 0 := (UInt32.add_right_inj g).1 (h.trans (UInt32.add_zero g).symm)
  exact absurd hone (by decide)

theorem turnover_run_append (s : System) (ops ops' : List Op) :
    turnover i s (ops ++ ops') = turnover i s ops + turnover i (s.run ops) ops' :=
  turnover_append s ops ops'

theorem turnover_le_of_append {i : Nat} {s : System} {a b : List Op} :
    turnover i s a ≤ turnover i s (a ++ b) := by
  rw [turnover_run_append]
  exact Nat.le_add_right _ _

/-- The generation counts how often the slot was given back. -/
theorem generation_run (s : System) (ops : List Op) (i : Nat) :
    (s.run ops).generation i = s.generation i + UInt32.ofNat (turnover i s ops) := by
  induction ops generalizing s with
  | nil => exact (UInt32.add_zero _).symm
  | cons op ops ih =>
    rw [run_cons, ih, turnover_cons, UInt32.ofNat_add, ← UInt32.add_assoc]
    obtain hs | hr := ages_step s op i
    · have hg : (s.step op).1.generation i = s.generation i := hs.generation
      rw [if_pos hg, hg]
      simp
    · have hg : (s.step op).1.generation i = s.generation i + 1 := hr.generation
      rw [if_neg (by rw [hg]; exact add_one_ne _), hg]
      rfl

/-- As long as the counter has not gone around, the same generation means the same use. -/
theorem turnover_eq_zero {ops : List Op} (hlt : turnover i s ops < 2 ^ 32)
    (hg : (s.run ops).generation i = s.generation i) : turnover i s ops = 0 := by
  rw [generation_run] at hg
  -- the counter has advanced by nothing, up to full rounds, and there is no full round
  have hzero : UInt32.ofNat (turnover i s ops) = 0 :=
    (UInt32.add_right_inj _).1 (hg.trans (UInt32.add_zero _).symm)
  have hn := congrArg UInt32.toNat hzero
  rw [UInt32.toNat_ofNat', Nat.mod_eq_of_lt hlt] at hn
  exact hn

/-- A slot that is not given back stays in use. -/
theorem inUse_of_turnover {ops : List Op} (ht : turnover i s ops = 0)
    (hp : (s.pool.census.status i).phase ≠ .free) :
    ((s.run ops).pool.census.status i).phase ≠ .free := by
  induction ops generalizing s with
  | nil => exact hp
  | cons op ops ih =>
    rw [turnover_cons, Nat.add_eq_zero_iff] at ht
    -- a slot that was given back in this step would be counted
    obtain hs | hr := ages_step s op i
    · exact ih ht.2 (hs.phase hp)
    · have hg : (s.step op).1.generation i = s.generation i + 1 := hr.generation
      rw [if_neg (by rw [hg]; exact add_one_ne _)] at ht
      exact absurd ht.1 Nat.one_ne_zero

/-- A live handle whose generation comes up later is live then. -/
theorem live_run {ops : List Op} (hlt : turnover h.index s ops < 2 ^ 32)
    (hl : s.pool.census.Live h) (hg : (s.run ops).generation h.index = h.generation) :
    (s.run ops).pool.census.Live h :=
  ⟨hg, inUse_of_turnover (turnover_eq_zero hlt (hg.trans hl.1.symm)) hl.2⟩

/-- A handle that is live before a step and not live after it is never live again. -/
theorem not_live_run {op : Op} {ops : List Op} (hlt : turnover h.index s (op :: ops) < 2 ^ 32)
    (hl : s.pool.census.Live h) (hn : ¬ (s.step op).1.pool.census.Live h) :
    (s.run (op :: ops)).generation h.index ≠ h.generation := by
  intro hg
  have hzero := turnover_eq_zero hlt (hg.trans hl.1.symm)
  rw [turnover_cons, Nat.add_eq_zero_iff] at hzero
  -- the step gave the slot back, which counts, or the handle would still be live
  obtain hs | hr := ages_step s op h.index
  · exact hn ⟨hs.generation.trans hl.1, hs.phase hl.2⟩
  · have hg' : (s.step op).1.generation h.index = s.generation h.index + 1 := hr.generation
    rw [if_neg (by rw [hg']; exact add_one_ne _)] at hzero
    exact absurd hzero.1 Nat.one_ne_zero

end System

end Netstack
