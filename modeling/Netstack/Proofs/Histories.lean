import Mathlib.Data.List.Basic
import Mathlib.Data.List.Induction

/-
Since when something holds.

A run is a list of events, and what holds after it was brought about by one of them: by the
last one that started it, if no later one put an end to it. `Since` says so of a history, and
`iff_since` gives it for anything of which it is known what a single event does to it.
-/

set_option autoImplicit false

namespace Netstack

variable {ε : Type} {starts stops : List ε → ε → Prop}

/-- In a history something was started and not stopped again. What an event starts or stops
may depend on what happened before it. -/
def Since (starts stops : List ε → ε → Prop) (events : List ε) : Prop :=
  ∃ before e after, events = before ++ e :: after ∧ starts before e ∧
    ∀ mid e' rest, after = mid ++ e' :: rest → ¬ stops (before ++ e :: mid) e'

theorem not_since_nil : ¬ Since starts stops ([] : List ε) := by
  rintro ⟨before, e, after, hevents, -, -⟩
  simp at hevents

theorem since_snoc (events : List ε) (e : ε) :
    Since starts stops (events ++ [e]) ↔
      starts events e ∨ (Since starts stops events ∧ ¬ stops events e) := by
  constructor
  · rintro ⟨before, e₀, after, hevents, hstarts, hgoes⟩
    -- it was the last event that started it, or the last event came after
    rcases after.eq_nil_or_concat' with rfl | ⟨after', e', rfl⟩
    · have ⟨hbefore, he⟩ := List.append_inj' hevents rfl
      left
      simpa [hbefore, List.singleton_inj.mp he] using hstarts
    · have ⟨hbefore, he⟩ := List.append_inj' (hevents.trans (List.append_assoc before
        (e₀ :: after') [e']).symm) rfl
      have hlast := hgoes after' e' [] rfl
      right
      refine ⟨⟨before, e₀, after', hbefore, hstarts, fun mid e'' rest hmid => ?_⟩, ?_⟩
      · exact hgoes mid e'' (rest ++ [e']) (by simp [hmid])
      · simpa [hbefore, List.singleton_inj.mp he] using hlast
  · rintro (hstarts | ⟨⟨before, e₀, after, hevents, hstarts, hgoes⟩, hnot⟩)
    · exact ⟨events, e, [], rfl, hstarts, by simp⟩
    · refine ⟨before, e₀, after ++ [e], by simp [hevents], hstarts, fun mid e' rest hmid => ?_⟩
      rcases rest.eq_nil_or_concat' with rfl | ⟨rest', e'', rfl⟩
      · have ⟨hafter, he⟩ := List.append_inj' hmid rfl
        simpa [← hafter, ← List.singleton_inj.mp he, ← hevents] using hnot
      · have ⟨hafter, _⟩ := List.append_inj' (hmid.trans (List.append_assoc mid
          (e' :: rest') [e'']).symm) rfl
        exact hgoes mid e' rest' hafter

/-- What holds exactly if the last event started it, or if it held before and was not stopped
by that event, holds exactly since it was started. -/
theorem iff_since {P : List ε → Prop} (hnil : ¬ P [])
    (hsnoc : ∀ events e, P (events ++ [e]) ↔ starts events e ∨ (P events ∧ ¬ stops events e))
    (events : List ε) : P events ↔ Since starts stops events := by
  induction events using List.reverseRecOn with
  | nil => exact iff_of_false hnil not_since_nil
  | append_singleton events e ih => rw [hsnoc, since_snoc, ih]

end Netstack
