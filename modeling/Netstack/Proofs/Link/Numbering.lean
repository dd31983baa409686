import Mathlib.Data.List.Range
import Netstack.Link.Registry
import Netstack.Link.Scripted
import Netstack.Proofs.Keyed

/-
How a registry numbers interfaces.

An interface gets the number of those that were registered before it, so the numbers are those
of the places in the list of registered interfaces (`Numbered`). A name that is taken in whatever
case is refused and uses no number, so the numbers have no gaps and no two interfaces have names
that differ in nothing but case. As neither a number nor a name is there twice, it does not
matter in which order interfaces are kept: whoever goes through them in another order finds the
same ones, and sorting them by their numbers gives the list back (`sorted_eq_of_perm`).
-/

set_option autoImplicit false

namespace Netstack.Registry

variable {δ : Type} {r : Registry δ} {i j : Interface δ} {k : Nat} {calls : List (Interface δ)}

/-! ## Runs of registrations -/

/-- A registry after these interfaces were to be registered, one after the other. -/
def enroll (r : Registry δ) (calls : List (Interface δ)) : Registry δ :=
  calls.foldl (fun r i => (r.register i).1) r

/-- The answers to these calls. -/
def answers (r : Registry δ) : List (Interface δ) → List (Except Error (Interface δ))
  | [] => []
  | i :: calls => (r.register i).2 :: (r.register i).1.answers calls

/-- What the successful ones among these calls of an empty registry answered, in their order. -/
def admitted (calls : List (Interface δ)) : List (Interface δ) :=
  (({} : Registry δ).answers calls).filterMap Except.toOption

/-- A name is taken if an interface has it, in whatever case. -/
def Taken (xs : List (Interface δ)) (name : String) : Prop := ∃ j ∈ xs, key j.name = key name

/-- A name is folded letter by letter. -/
theorem key_eq_iff {name name' : String} :
    key name = name' ↔ name.toList.map Char.toLower = name'.toList := by
  rw [key, ← String.toList_inj, String.toList_map]

theorem byName_isSome_iff {name : String} : (r.byName name).isSome ↔ Taken r.interfaces name := by
  rw [byName, List.find?_isSome]
  simp only [beq_iff_eq]
  rfl

theorem register_of_taken (h : Taken r.interfaces i.name) :
    r.register i = (r, .error (.invalidArgument (.interfaceTaken i.name))) := by
  rw [register, if_pos (byName_isSome_iff.2 h)]

theorem register_of_not_taken (h : ¬ Taken r.interfaces i.name) :
    r.register i =
      ({ interfaces := r.interfaces ++ [{ i with index := r.nextIndex }],
         nextIndex := r.nextIndex + 1 }, .ok { i with index := r.nextIndex }) := by
  rw [register, if_neg fun hsome => h (byName_isSome_iff.1 hsome)]

/-- What a registration answers with, if it succeeds, is what the registry gets behind the
others. -/
theorem interfaces_register (r : Registry δ) (i : Interface δ) :
    (r.register i).1.interfaces = r.interfaces ++ (r.register i).2.toOption.toList := by
  by_cases h : Taken r.interfaces i.name
  · rw [register_of_taken h]
    exact (List.append_nil _).symm
  · rw [register_of_not_taken h]
    rfl

theorem interfaces_enroll (r : Registry δ) (calls : List (Interface δ)) :
    (r.enroll calls).interfaces =
      r.interfaces ++ (r.answers calls).filterMap Except.toOption := by
  induction calls generalizing r with
  | nil => exact (List.append_nil _).symm
  | cons i calls ih =>
    show ((r.register i).1.enroll calls).interfaces = _
    rw [ih, interfaces_register, List.append_assoc, answers, List.filterMap_cons]
    cases (r.register i).2.toOption <;> rfl

theorem enroll_snoc (r : Registry δ) (calls : List (Interface δ)) (i : Interface δ) :
    r.enroll (calls ++ [i]) = ((r.enroll calls).register i).1 := List.foldl_append

theorem interfaces_enroll_empty (calls : List (Interface δ)) :
    (({} : Registry δ).enroll calls).interfaces = admitted calls := interfaces_enroll {} calls

/-! ## Numbers and names -/

/-- The numbers are those of the places, the next one is the number of places, and no two names
differ in nothing but case. -/
structure Numbered (r : Registry δ) : Prop where
  next : r.nextIndex = r.interfaces.length
  numbers : r.interfaces.map (·.index) = List.range r.interfaces.length
  names : (r.interfaces.map fun i => key i.name).Nodup

theorem numbered_empty : Numbered ({} : Registry δ) := ⟨rfl, rfl, List.nodup_nil⟩

theorem Numbered.register (h : r.Numbered) (i : Interface δ) : (r.register i).1.Numbered := by
  by_cases htaken : Taken r.interfaces i.name
  · rw [register_of_taken htaken]
    exact h
  · rw [register_of_not_taken htaken]
    refine ⟨?_, ?_, ?_⟩
    · simp [h.next]
    · simp [h.numbers, h.next, List.range_succ]
    · rw [List.map_append, List.nodup_append]
      refine ⟨h.names, List.nodup_singleton _, ?_⟩
      rintro a ha b hb rfl
      obtain ⟨j, hj, hkey⟩ := List.mem_map.1 ha
      exact htaken ⟨j, hj, hkey.trans (List.mem_singleton.1 hb)⟩

theorem Numbered.enroll (h : r.Numbered) (calls : List (Interface δ)) :
    (r.enroll calls).Numbered := by
  induction calls generalizing r with
  | nil => exact h
  | cons i calls ih => exact ih (h.register i)

theorem Numbered.nodup (h : r.Numbered) : (r.interfaces.map (·.index)).Nodup := by
  rw [h.numbers]
  exact List.nodup_range

theorem Numbered.index_eq (h : r.Numbered) (hi : r.interfaces[k]? = some i) : i.index = k := by
  obtain ⟨hk, -⟩ := List.getElem?_eq_some_iff.1 hi
  have hnumber : (r.interfaces.map (·.index))[k]? = some i.index := by
    rw [List.getElem?_map, hi, Option.map_some]
  rw [h.numbers, List.getElem?_range hk] at hnumber
  exact (Option.some.inj hnumber).symm

/-- Nothing is admitted under a name that is taken. -/
theorem admitted_of_taken (h : Taken (admitted calls) i.name) :
    admitted (calls ++ [i]) = admitted calls := by
  rw [← interfaces_enroll_empty] at h
  rw [← interfaces_enroll_empty, ← interfaces_enroll_empty, enroll_snoc, register_of_taken h]

/-- Under a name that is free an interface is admitted with the next number. -/
theorem admitted_of_not_taken (h : ¬ Taken (admitted calls) i.name) :
    admitted (calls ++ [i]) = admitted calls ++ [{ i with index := (admitted calls).length }] := by
  have hnext := (numbered_empty.enroll calls).next
  rw [← interfaces_enroll_empty] at h
  rw [← interfaces_enroll_empty, ← interfaces_enroll_empty, enroll_snoc, register_of_not_taken h,
    hnext]

/-- What is found under a number is what stands in its place. -/
theorem Numbered.byIndex_eq (h : r.Numbered) (k : Nat) : r.byIndex k = r.interfaces[k]? := by
  ext i
  rw [byIndex, find?_key_eq_some_iff h.nodup]
  constructor
  · rintro ⟨hi, rfl⟩
    obtain ⟨k, hk⟩ := List.mem_iff_getElem?.1 hi
    rwa [h.index_eq hk]
  · exact fun hi => ⟨List.mem_of_getElem? hi, h.index_eq hi⟩

/-- Interfaces in any order, sorted by their numbers, are in the order of the registry. -/
theorem Numbered.sorted_eq_of_perm (h : r.Numbered) {walk : List (Interface δ)}
    (hperm : walk.Perm r.interfaces) :
    (walk.mergeSort fun i j => decide (i.index ≤ j.index)) = r.interfaces := by
  have hinorder : r.interfaces.Pairwise fun i j => decide (i.index ≤ j.index) = true := by
    have hrange : (r.interfaces.map (·.index)).Pairwise (· ≤ ·) := by
      rw [h.numbers]
      exact List.pairwise_le_range
    simpa [List.pairwise_map] using hrange
  have hsorted := @List.pairwise_mergeSort _ (fun i j : Interface δ => decide (i.index ≤ j.index))
    (fun i j k hij hjk => by simp only [decide_eq_true_eq] at *; omega)
    (fun i j => by simp only [Bool.or_eq_true, decide_eq_true_eq]; omega) walk
  refine List.Perm.eq_of_pairwise (fun i j hi hj hij hji => ?_) hsorted hinorder
    ((List.mergeSort_perm walk _).trans hperm)
  -- no two interfaces have one number
  rw [decide_eq_true_eq] at hij hji
  exact List.inj_on_of_nodup_map h.nodup (hperm.subset ((List.mergeSort_perm walk _).subset hi)) hj
    (Nat.le_antisymm hij hji)

/-- Whatever was to be registered in an empty registry: a registration is refused exactly if a
name like that was taken before, and then nothing changes. The others get the numbers 0, 1, 2 and
so on in their order, in which the registry lists them, finds them under these numbers and nothing
under any other, and finds each of them by its name in whatever case and by no other name. All
that is the same in whatever order the registered interfaces are kept. -/
theorem numbered_without_gaps (calls : List (Interface δ)) :
    let r := ({} : Registry δ).enroll calls
    let taken := admitted calls
    (∀ i, Taken taken i.name →
      r.register i = (r, .error (.invalidArgument (.interfaceTaken i.name)))) ∧
    (∀ i, ¬ Taken taken i.name →
      (r.register i).2 = .ok { i with index := taken.length } ∧
        admitted (calls ++ [i]) = taken ++ [{ i with index := taken.length }]) ∧
    (∀ (k : Nat) (i : Interface δ), taken[k]? = some i → i.index = k) ∧
    r.all = taken ∧ r.length = taken.length ∧
    (∀ k, r.byIndex k = taken[k]?) ∧
    (∀ name i, r.byName name = some i ↔ i ∈ taken ∧ key i.name = key name) ∧
    ∀ walk : List (Interface δ), walk.Perm taken →
      (walk.mergeSort fun i j => decide (i.index ≤ j.index)) = r.all ∧
      (∀ k, (walk.find? fun i => i.index == k) = r.byIndex k) ∧
      ∀ name, (walk.find? fun i => key i.name == key name) = r.byName name := by
  intro r taken
  have hall : r.interfaces = taken := interfaces_enroll_empty calls
  have h : r.Numbered := numbered_empty.enroll calls
  have hgrows : ∀ i, ¬ Taken taken i.name →
      admitted (calls ++ [i]) = taken ++ [{ i with index := taken.length }] :=
    fun i => admitted_of_not_taken
  rw [← hall] at hgrows ⊢
  refine ⟨fun i => register_of_taken, fun i hfree => ⟨?_, hgrows i hfree⟩,
    fun k i => h.index_eq, rfl, rfl, h.byIndex_eq,
    fun name i => find?_key_eq_some_iff h.names, fun walk hperm => ?_⟩
  · rw [register_of_not_taken hfree, h.next]
  · exact ⟨h.sorted_eq_of_perm hperm, find?_key_of_perm h.nodup hperm,
      fun name => find?_key_of_perm h.names hperm (key name)⟩

/-- Of three interfaces the second one has the name of the first in another case. It is refused,
and the third one gets the next number. -/
theorem numbered_without_gaps_of_refused :
    ∃ a b c : Interface ScriptedLink,
      (Interface.build { name := "Radio0" } {} = .ok a ∧
        Interface.build { name := "rADIO0" } {} = .ok b ∧
        Interface.build { name := "radio1" } {} = .ok c) ∧
      let r := ({} : Registry ScriptedLink).enroll [a, b, c]
      r.register b = (r, .error (.invalidArgument (.interfaceTaken b.name))) ∧
        r.all = [{ a with index := 0 }, { c with index := 1 }] ∧
        r.byIndex 1 = some { c with index := 1 } ∧ r.byIndex 2 = none ∧
        r.byName "RADIO0" = some { a with index := 0 } := by
  obtain ⟨a, hbuilt, ha⟩ : ∃ a : Interface ScriptedLink,
    Interface.build { name := "Radio0" } {} = .ok a ∧ a.name = "Radio0" := ⟨_, rfl, rfl⟩
  obtain ⟨b, hbuilt', hb⟩ : ∃ b : Interface ScriptedLink,
    Interface.build { name := "rADIO0" } {} = .ok b ∧ b.name = "rADIO0" := ⟨_, rfl, rfl⟩
  obtain ⟨c, hbuilt'', hc⟩ : ∃ c : Interface ScriptedLink,
    Interface.build { name := "radio1" } {} = .ok c ∧ c.name = "radio1" := ⟨_, rfl, rfl⟩
  refine ⟨a, b, c, ⟨hbuilt, hbuilt', hbuilt''⟩, ?_⟩
  have hkeys : key "Radio0" = "radio0" ∧ key "rADIO0" = "radio0" ∧ key "radio1" = "radio1" ∧
    key "RADIO0" = "radio0" := by
    simp only [key_eq_iff]
    decide
  have hfirst : admitted [a] = [{ a with index := 0 }] :=
    @admitted_of_not_taken _ a [] fun ⟨_, hj, _⟩ => nomatch hj
  have hsecond : admitted [a, b] = [{ a with index := 0 }] := by
    refine (@admitted_of_taken _ b [a] ?_).trans hfirst
    rw [hfirst]
    exact ⟨_, List.mem_cons_self, by simp [ha, hb, hkeys]⟩
  have hthird : admitted [a, b, c] = [{ a with index := 0 }, { c with index := 1 }] := by
    refine (@admitted_of_not_taken _ c [a, b] ?_).trans (by rw [hsecond]; rfl)
    simp [hsecond, Taken, ha, hc, hkeys]
  obtain ⟨hrefused, -, -, hall, -, hnumber, hname, -⟩ := numbered_without_gaps [a, b, c]
  rw [hthird] at hrefused hall hnumber hname
  exact ⟨hrefused b ⟨_, List.mem_cons_self, by simp [ha, hb, hkeys]⟩, hall, hnumber 1, hnumber 2,
    (hname _ _).2 ⟨List.mem_cons_self, by simp [ha, hkeys]⟩⟩

end Netstack.Registry
