import Mathlib.Data.List.Nodup

/-
Looking things up by a key.

A list in which no two entries have the same key stands for a map, and the order of the entries
is no part of what it stands for: a search finds the one entry with the key, wherever it is.
-/

set_option autoImplicit false

namespace Netstack

variable {α κ : Type} [BEq κ] [LawfulBEq κ] {key : α → κ} {xs ys : List α} {k : κ} {a : α}

theorem key_of_find? (h : xs.find? (fun a => key a == k) = some a) : key a = k :=
  by simpa using List.find?_some h

theorem find?_key_eq_none_iff : xs.find? (fun a => key a == k) = none ↔ k ∉ xs.map key := by
  simp [List.find?_eq_none]

/-- A search by a key finds an entry exactly if it is there and has the key. -/
theorem find?_key_eq_some_iff (hkeys : (xs.map key).Nodup) :
    xs.find? (fun a => key a == k) = some a ↔ a ∈ xs ∧ key a = k := by
  constructor
  · exact fun h => ⟨List.mem_of_find?_eq_some h, key_of_find? h⟩
  · rintro ⟨ha, rfl⟩
    cases hfound : xs.find? (fun b => key b == key a) with
    | none => exact absurd (List.mem_map_of_mem ha) (find?_key_eq_none_iff.1 hfound)
    | some b =>
      rw [List.inj_on_of_nodup_map hkeys (List.mem_of_find?_eq_some hfound) ha
        (key_of_find? hfound)]

/-- In which order the entries are gone through makes no difference. -/
theorem find?_key_of_perm (hkeys : (xs.map key).Nodup) (hperm : ys.Perm xs) (k : κ) :
    ys.find? (fun a => key a == k) = xs.find? (fun a => key a == k) := by
  ext a
  rw [find?_key_eq_some_iff hkeys, find?_key_eq_some_iff ((hperm.map key).nodup_iff.2 hkeys),
    hperm.mem_iff]

end Netstack
