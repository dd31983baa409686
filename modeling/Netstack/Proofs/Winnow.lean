import Mathlib.Data.List.TakeWhile

/-
A list from which entries have been struck out.

Somebody keeps a list and strikes nothing out of it; somebody else keeps the entries that still
count. `Winnow stays gone xs ys` says that `ys` is what is left of `xs`, in its order: what is
left `stays`, and what was struck out is `gone`. The reader of the long list who takes the first
entry that passes a test gets the first entry of the short one, unless one that is gone passes
the test all the same.
-/

set_option autoImplicit false

namespace Netstack

variable {α : Type}

/-- The second list is what is left of the first. -/
inductive Winnow (stays gone : α → Prop) : List α → List α → Prop
  | nil : Winnow stays gone [] []
  | keep {a : α} {xs ys : List α} (holds : stays a) (rest : Winnow stays gone xs ys) :
      Winnow stays gone (a :: xs) (a :: ys)
  | drop {a : α} {xs ys : List α} (struck : gone a) (rest : Winnow stays gone xs ys) :
      Winnow stays gone (a :: xs) ys

/-- A list is what comes before the first entry that passes a test, this entry, and the rest. -/
theorem takeWhile_append_find?_append_tail (P : α → Bool) (xs : List α) :
    xs.takeWhile (fun a => !P a) ++ (xs.find? P).toList ++ (xs.dropWhile fun a => !P a).tail =
      xs := by
  have hsplit := List.takeWhile_append_dropWhile (p := fun a => !P a) (l := xs)
  rw [List.find?_eq_head?_dropWhile_not, List.append_assoc]
  generalize xs.dropWhile (fun a => !P a) = rest at hsplit ⊢
  cases rest <;> exact hsplit

/-- Of what is taken out on the way, only the entry that was looked for passes the test. -/
theorem find?_eq_of_mem_taken {P : α → Bool} {xs : List α} {a : α}
    (ha : a ∈ xs.takeWhile (fun a => !P a) ++ (xs.find? P).toList) (hP : P a = true) :
    xs.find? P = some a := by
  obtain ha | ha := List.mem_append.1 ha
  · have hfails : P a = false := by simpa using List.mem_takeWhile_imp ha
    rw [hP] at hfails
    cases hfails
  · exact Option.mem_toList.1 ha

namespace Winnow

variable {stays gone stays' gone' : α → Prop} {xs xs' ys ys' : List α} {a : α}

theorem sublist (h : Winnow stays gone xs ys) : ys.Sublist xs := by
  induction h with
  | nil => exact .slnil
  | keep _ _ ih => exact ih.cons_cons _
  | drop _ _ ih => exact ih.cons _

theorem stays_of_mem (h : Winnow stays gone xs ys) (ha : a ∈ ys) : stays a := by
  induction h with
  | nil => cases ha
  | keep holds _ ih =>
    obtain rfl | ha := List.mem_cons.1 ha
    · exact holds
    · exact ih ha
  | drop _ _ ih => exact ih ha

theorem mem_or_gone (h : Winnow stays gone xs ys) (ha : a ∈ xs) : a ∈ ys ∨ gone a := by
  induction h with
  | nil => cases ha
  | keep _ _ ih =>
    obtain rfl | ha := List.mem_cons.1 ha
    · exact .inl List.mem_cons_self
    · exact (ih ha).imp_left (List.mem_cons_of_mem _)
  | drop struck _ ih =>
    obtain rfl | ha := List.mem_cons.1 ha
    · exact .inr struck
    · exact ih ha

theorem append (h : Winnow stays gone xs ys) (h' : Winnow stays gone xs' ys') :
    Winnow stays gone (xs ++ xs') (ys ++ ys') := by
  induction h with
  | nil => exact h'
  | keep holds _ ih => exact .keep holds ih
  | drop struck _ ih => exact .drop struck ih

theorem of_forall (h : ∀ a ∈ xs, stays a) : Winnow stays gone xs xs := by
  induction xs with
  | nil => exact .nil
  | cons x xs ih =>
    obtain ⟨hx, hxs⟩ := List.forall_mem_cons.1 h
    exact .keep hx (ih hxs)

theorem imp (h : Winnow stays gone xs ys) (hstays : ∀ a, stays a → stays' a)
    (hgone : ∀ a, gone a → gone' a) : Winnow stays' gone' xs ys := by
  induction h with
  | nil => exact .nil
  | keep holds _ ih => exact .keep (hstays _ holds) ih
  | drop struck _ ih => exact .drop (hgone _ struck) ih

/-- More is struck out. -/
theorem filter (h : Winnow stays gone xs ys) {p : α → Bool}
    (hkeep : ∀ a ∈ ys, stays a → p a = true → stays' a)
    (hdrop : ∀ a ∈ ys, stays a → p a = false → gone' a) (hgone : ∀ a, gone a → gone' a) :
    Winnow stays' gone' xs (ys.filter p) := by
  induction h with
  | nil => exact .nil
  | @keep a xs ys holds _ ih =>
    obtain ⟨hkeep₀, hkeep⟩ := List.forall_mem_cons.1 hkeep
    obtain ⟨hdrop₀, hdrop⟩ := List.forall_mem_cons.1 hdrop
    cases hp : p a with
    | true =>
      rw [List.filter_cons_of_pos hp]
      exact .keep (hkeep₀ holds hp) (ih hkeep hdrop)
    | false =>
      rw [List.filter_cons_of_neg (by rw [hp]; simp)]
      exact .drop (hdrop₀ holds hp) (ih hkeep hdrop)
  | drop struck _ ih => exact .drop (hgone _ struck) (ih hkeep hdrop)

/-! ## Taking the first entry that passes a test -/

variable {P : α → Bool}

/-- What is passed over on the way is gone. -/
theorem gone_of_mem_takeWhile (h : Winnow (P · = true) gone xs ys)
    (ha : a ∈ xs.takeWhile fun a => !P a) : gone a := by
  have hfails : P a = false := by simpa using List.mem_takeWhile_imp ha
  obtain hin | hgone := h.mem_or_gone ((List.takeWhile_sublist _).subset ha)
  · rw [h.stays_of_mem hin] at hfails
    cases hfails
  · exact hgone

/-- The list after the first entry that passes the test is taken out of it, and out of what is
left. -/
theorem tail [DecidableEq α] (h : Winnow (P · = true) gone xs ys) (hnodup : ys.Nodup) :
    Winnow (P · = true) gone (xs.dropWhile fun a => !P a).tail
      (ys.filter fun a => xs.find? P ≠ some a) := by
  induction h with
  | nil => exact .nil
  | @keep a xs ys holds rest ih =>
    obtain ⟨hnot, -⟩ := List.nodup_cons.1 hnodup
    -- this is the one, and it is in the rest of the short list no more
    have hrest : ys.filter (fun b => some a ≠ some b) = ys := by
      rw [List.filter_eq_self]
      intro b hb
      refine decide_eq_true fun heq => hnot ?_
      obtain rfl := Option.some.inj heq
      exact hb
    rw [List.find?_cons_of_pos holds, List.dropWhile_cons_of_neg (by simp [holds]), List.tail_cons,
      List.filter_cons_of_neg (by simp), hrest]
    exact rest
  | @drop a xs ys struck rest ih =>
    cases ha : P a with
    | true =>
      rw [List.find?_cons_of_pos ha, List.dropWhile_cons_of_neg (by simp [ha]), List.tail_cons]
      refine rest.filter (fun _ _ hb _ => hb) (fun b _ _ hb => ?_) fun _ => id
      obtain rfl : a = b := Option.some.inj (not_not.1 (of_decide_eq_false hb))
      exact struck
    | false =>
      rw [List.find?_cons_of_neg (by simp [ha]), List.dropWhile_cons_of_pos (by simp [ha])]
      exact ih hnodup

/-- The first entry that passes the test is the first that is left, unless one that is gone
passes it and comes before all that are left. -/
theorem find?_eq_head?_iff (h : Winnow (P · = true) gone xs ys) :
    xs.find? P = ys.head? ↔ ∀ a, ¬ ∃ before after, xs = before ++ a :: after ∧
      (∀ b ∈ before, b ∉ ys) ∧ ys.head? ≠ some a ∧ P a = true ∧ gone a := by
  constructor
  · rintro heq a ⟨before, after, rfl, hbefore, hne, ha, -⟩
    rw [List.find?_append, List.find?_cons_of_pos ha] at heq
    cases hb : before.find? P with
    | none =>
      rw [hb] at heq
      exact hne heq.symm
    | some b =>
      rw [hb] at heq
      exact hbefore b (List.mem_of_find?_eq_some hb) (List.mem_of_mem_head? heq.symm)
  · intro hno
    induction h with
    | nil => rfl
    | keep holds _ _ => rw [List.find?_cons_of_pos holds, List.head?_cons]
    | @drop a xs ys struck rest ih =>
      cases ha : P a with
      | true =>
        rw [List.find?_cons_of_pos ha]
        by_contra hne
        exact hno a ⟨[], xs, rfl, by simp, Ne.symm hne, ha, struck⟩
      | false =>
        rw [List.find?_cons_of_neg (by simp [ha])]
        refine ih ?_
        rintro b ⟨before, after, rfl, hbefore, hb⟩
        refine hno b ⟨a :: before, after, rfl, List.forall_mem_cons.2 ⟨fun hin => ?_, hbefore⟩, hb⟩
        -- what is left passes the test
        rw [rest.stays_of_mem hin] at ha
        cases ha

end Winnow

end Netstack
