import Mathlib.Data.Set.Card
import Netstack.Link.Scripted
import Netstack.Proofs.Link.Frames
import Netstack.Proofs.Link.Numbering
import Netstack.Proofs.Route.Offers

/-
Taking an interface out of the routes.

The routes to be dropped are found by the number of their interface. No two interfaces of a
registry have one number, so a registered interface takes its own routes with it and no others.
An interface that was built and not registered has a number too, which is that of all others
that were not registered, and the routes of all of these go at once
(`removes_own_routes_iff`).
-/

set_option autoImplicit false

namespace Netstack

namespace RouteTable

variable {κ : Type} {known : κ → LinkId} {changes : List (Change κ)} {t : RouteTable} {r : Route}
  {x y : κ} {addr : Address} {index : Nat}

/-! ## Whose route it is -/

/-- After these changes the route for an address is one that this interface has offered. -/
def Through (known : κ → LinkId) (changes : List (Change κ)) (x : κ) (addr : Address) : Prop :=
  ∃ o, FirstBest (offersSince known addr changes) o ∧ o.via = x

theorem Through.unique (h : Through known changes x addr) (h' : Through known changes y addr) :
    x = y := by
  obtain ⟨o, ho, rfl⟩ := h
  obtain ⟨o', ho', rfl⟩ := h'
  rw [ho.unique ho']

theorem Through.exists_get (h : Through known changes x addr) :
    ∃ r, (run known changes).get addr = some r ∧ r.via = known x := by
  obtain ⟨o, ho, rfl⟩ := h
  exact ⟨_, (get_run known changes addr _).2 ⟨o, ho, rfl⟩, rfl⟩

theorem exists_through (h : (run known changes).get addr = some r) :
    ∃ x, Through known changes x addr ∧ r.via = known x := by
  obtain ⟨o, ho, rfl⟩ := (get_run known changes addr r).1 h
  exact ⟨o.via, ⟨o, ho, rfl⟩, rfl⟩

/-! ## What goes with a number -/

/-- As many routes are dropped as there are addresses with a route through the number. -/
theorem count_removeInterface (h : t.Distinct) (index : Nat) :
    (t.removeInterface index).2 =
      {addr | ∃ r, t.get addr = some r ∧ r.via.index = index}.ncard := by
  have hdropped := length_eq_ncard (h.filter fun r => r.via.index == index)
  rw [removeInterface_eq]
  refine hdropped.trans (congrArg Set.ncard (Set.ext fun addr => ?_))
  rw [Set.mem_ofPred_eq, Set.mem_ofPred_eq, get_filter h, Option.isSome_iff_exists]
  simp only [Option.filter_eq_some_iff, beq_iff_eq]

/-- What it is to take the routes of one interface out of a table, and no others. -/
structure RemovesOwn (known : κ → LinkId) (changes : List (Change κ)) (x : κ) : Prop where
  taken : ∀ addr, Through known changes x addr →
    ((run known changes).removeInterface (known x).index).1.get addr = none
  kept : ∀ addr, ¬ Through known changes x addr →
    ((run known changes).removeInterface (known x).index).1.get addr = (run known changes).get addr
  count : ((run known changes).removeInterface (known x).index).2 =
    {addr | Through known changes x addr}.ncard

/-- An interface takes its own routes out exactly if no other one with its number has routes. -/
theorem removesOwn_iff : RemovesOwn known changes x ↔
    ∀ y addr, Through known changes y addr → (known y).index = (known x).index → y = x := by
  have hdistinct := distinct_run known changes
  constructor
  · intro h y addr hy hsame
    by_contra hne
    have hkept := h.kept addr fun hx => hne (hy.unique hx)
    obtain ⟨r, hr, hvia⟩ := hy.exists_get
    rw [get_removeInterface hdistinct, hr, Option.filter_some, hvia, hsame] at hkept
    simp at hkept
  · intro hown
    refine ⟨fun addr hx => ?_, fun addr hx => ?_, ?_⟩
    · obtain ⟨r, hr, hvia⟩ := hx.exists_get
      rw [get_removeInterface hdistinct, hr, Option.filter_some, hvia]
      simp
    · rw [get_removeInterface hdistinct]
      cases hr : (run known changes).get addr with
      | none => rfl
      | some r =>
        obtain ⟨y, hy, hvia⟩ := exists_through hr
        have hother : (known y).index ≠ (known x).index := fun hsame =>
          hx (hown y addr hy hsame ▸ hy)
        rw [Option.filter_some, hvia, if_pos (by simpa using hother)]
    · rw [count_removeInterface hdistinct]
      refine congrArg Set.ncard (Set.ext fun addr => ⟨?_, fun hx => ?_⟩)
      · rintro ⟨r, hr, hindex⟩
        obtain ⟨y, hy, hvia⟩ := exists_through hr
        exact hown y addr hy (hvia ▸ hindex) ▸ hy
      · obtain ⟨r, hr, hvia⟩ := hx.exists_get
        exact ⟨r, hr, hvia ▸ rfl⟩

/-! ## Registered interfaces and others -/

section Links

variable {δ : Type} {calls loose : List (Interface δ)}

/-- Interfaces of a registry and others that were built, by the place where they stand. -/
def linkIds (links : List (Interface δ)) (k : Fin links.length) : LinkId := (links.get k).id

theorem index_of_registered {k : Fin (Registry.admitted calls ++ loose).length}
    (hk : k.val < (Registry.admitted calls).length) :
    (linkIds (Registry.admitted calls ++ loose) k).index = k.val := by
  have hnumbered := Registry.numbered_empty.enroll calls
  refine hnumbered.index_eq (i := (Registry.admitted calls ++ loose).get k) ?_
  rw [Registry.interfaces_enroll_empty, ← List.getElem?_append_left hk, List.get_eq_getElem,
    List.getElem?_eq_getElem]

theorem index_of_loose (hloose : ∀ i ∈ loose, i.index = Interface.unregistered)
    {k : Fin (Registry.admitted calls ++ loose).length}
    (hk : (Registry.admitted calls).length ≤ k.val) :
    (linkIds (Registry.admitted calls ++ loose) k).index = Interface.unregistered := by
  refine hloose ((Registry.admitted calls ++ loose).get k) ?_
  rw [List.get_eq_getElem, List.getElem_append_right hk]
  exact List.getElem_mem _

/-- Whether two interfaces have one number: they are the same, or both were not registered. -/
def Together (registered : Nat) {n : Nat} (x y : Fin n) : Prop :=
  y = x ∨ registered ≤ x.val ∧ registered ≤ y.val

instance (registered : Nat) {n : Nat} (x y : Fin n) : Decidable (Together registered x y) :=
  inferInstanceAs (Decidable (_ ∨ _))

theorem index_eq_iff (hloose : ∀ i ∈ loose, i.index = Interface.unregistered)
    (hfits : (Registry.admitted calls).length ≤ Interface.unregistered)
    {x y : Fin (Registry.admitted calls ++ loose).length} :
    (linkIds (Registry.admitted calls ++ loose) y).index =
        (linkIds (Registry.admitted calls ++ loose) x).index ↔
      Together (Registry.admitted calls).length x y := by
  unfold Together
  rcases Nat.lt_or_ge x.val (Registry.admitted calls).length with hx | hx <;>
    rcases Nat.lt_or_ge y.val (Registry.admitted calls).length with hy | hy
  · rw [index_of_registered hx, index_of_registered hy, Fin.ext_iff]
    omega
  · rw [index_of_registered hx, index_of_loose hloose hy, Fin.ext_iff]
    omega
  · rw [index_of_loose hloose hx, index_of_registered hy, Fin.ext_iff]
    omega
  · rw [index_of_loose hloose hx, index_of_loose hloose hy]
    exact iff_of_true rfl (.inr ⟨hx, hy⟩)

/-- Whatever was offered and taken away before by interfaces of a registry and by others that
were built: when an interface is taken out of the table, its routes are dropped and those of the
interfaces that have its number, and their number is told. These are no routes but its own
exactly if it is registered, or no other interface that is not registered has routes. -/
theorem removes_own_routes_iff (calls loose : List (Interface δ))
    (hloose : ∀ i ∈ loose, ∃ spec driver, Interface.build spec driver = .ok i)
    (hfits : (Registry.admitted calls).length ≤ Interface.unregistered)
    (changes : List (Change (Fin (Registry.admitted calls ++ loose).length)))
    (x : Fin (Registry.admitted calls ++ loose).length) :
    let registered := (Registry.admitted calls).length
    let known := linkIds (Registry.admitted calls ++ loose)
    let before := run known changes
    let after := (before.removeInterface (known x).index).1
    let removed := (before.removeInterface (known x).index).2
    (∀ addr, after.get addr = none ↔ before.get addr = none ∨
      ∃ y, Through known changes y addr ∧ Together registered x y) ∧
    (∀ addr r, after.get addr = some r → before.get addr = some r) ∧
    removed = {addr | ∃ y, Through known changes y addr ∧ Together registered x y}.ncard ∧
    (RemovesOwn known changes x ↔ x.val < registered ∨
      ∀ y addr, Through known changes y addr → registered ≤ y.val → y = x) := by
  intro registered known before after removed
  have hunregistered : ∀ i ∈ loose, i.index = Interface.unregistered := fun i hi =>
    let ⟨_, _, hbuild⟩ := hloose i hi
    Interface.index_build hbuild
  have hsame : ∀ y, (known y).index = (known x).index ↔ Together registered x y :=
    fun _ => index_eq_iff hunregistered hfits
  have hdistinct : before.Distinct := distinct_run known changes
  -- the routes with this number are those of the interfaces that have it
  have hgoes : ∀ addr, (∃ r, before.get addr = some r ∧ r.via.index = (known x).index) ↔
      ∃ y, Through known changes y addr ∧ Together registered x y := by
    intro addr
    constructor
    · rintro ⟨r, hr, hindex⟩
      obtain ⟨y, hy, hvia⟩ := exists_through hr
      exact ⟨y, hy, (hsame y).1 (hvia ▸ hindex)⟩
    · rintro ⟨y, hy, htogether⟩
      obtain ⟨r, hr, hvia⟩ := hy.exists_get
      exact ⟨r, hr, hvia ▸ (hsame y).2 htogether⟩
  have hafter : ∀ addr, after.get addr =
      (before.get addr).filter fun r => ! r.via.index == (known x).index :=
    get_removeInterface hdistinct _
  refine ⟨fun addr => ?_, fun addr r hr => ?_, ?_, ?_⟩
  · rw [← hgoes, hafter]
    cases before.get addr with
    | none => simp
    | some r => simp [Option.filter_some]
  · rw [hafter, Option.filter_eq_some_iff] at hr
    exact hr.1
  · refine (count_removeInterface hdistinct _).trans ?_
    exact congrArg Set.ncard (Set.ext hgoes)
  · rw [removesOwn_iff]
    constructor
    · intro hown
      refine (Nat.lt_or_ge x.val registered).imp_right fun hx y addr hy hloose => ?_
      exact hown y addr hy ((hsame y).2 (.inr ⟨hx, hloose⟩))
    · rintro hown y addr hy hindex
      obtain rfl | ⟨hx, hloose⟩ := (hsame y).1 hindex
      · rfl
      · exact hown.elim (fun hregistered => absurd hregistered (Nat.not_lt.2 hx))
          fun hnone => hnone y addr hy hloose

/-- A registered interface takes its own routes out, and leaves that of one that is not. -/
theorem removes_own_routes_of_registered :
    ∃ radio cable : Interface ScriptedLink,
      Interface.build { name := "radio0" } {} = .ok radio ∧
      Interface.build { name := "cable0" } {} = .ok cable ∧
      ∃ x y : Fin (Registry.admitted [radio] ++ [cable]).length,
        let known := linkIds (Registry.admitted [radio] ++ [cable])
        let changes : List (Change (Fin (Registry.admitted [radio] ++ [cable]).length)) :=
          [.add x 1 5, .add y 2 5]
        x ≠ y ∧ Through known changes x 1 ∧ Through known changes y 2 ∧
          RemovesOwn known changes x ∧ RemovesOwn known changes y := by
  obtain ⟨radio, hradio⟩ : ∃ i : Interface ScriptedLink,
    Interface.build { name := "radio0" } {} = .ok i := ⟨_, rfl⟩
  obtain ⟨cable, hcable⟩ : ∃ i : Interface ScriptedLink,
    Interface.build { name := "cable0" } {} = .ok i := ⟨_, rfl⟩
  refine ⟨radio, cable, hradio, hcable, ?_⟩
  have hadmitted : Registry.admitted [radio] = [{ radio with index := 0 }] :=
    @Registry.admitted_of_not_taken _ radio [] fun ⟨_, hj, _⟩ => nomatch hj
  have hloose : ∀ i ∈ [cable], ∃ spec driver, Interface.build spec driver = .ok i := by
    intro i hi
    rw [List.mem_singleton.1 hi]
    exact ⟨_, _, hcable⟩
  have hlength : (Registry.admitted [radio]).length = 1 := congrArg List.length hadmitted
  have hremoves := removes_own_routes_iff [radio] [cable] hloose (by rw [hlength]; decide)
  have hlinks : (Registry.admitted [radio] ++ [cable]).length = 2 := by
    rw [List.length_append, hlength]
    rfl
  generalize Registry.admitted [radio] ++ [cable] = links at hremoves hlinks ⊢
  refine ⟨⟨0, by omega⟩, ⟨1, by omega⟩, by simp, ⟨_, ⟨[], [], rfl, by simp, by simp⟩, rfl⟩,
    ⟨_, ⟨[], [], rfl, by simp, by simp⟩, rfl⟩, ?_, ?_⟩
  · exact (hremoves _ _).2.2.2.2 (.inl (by rw [hlength]; exact Nat.one_pos))
  · refine (hremoves _ _).2.2.2.2 (.inr fun y addr _ hy => Fin.ext ?_)
    rw [hlength] at hy
    have hbound := y.isLt
    show y.val = 1
    omega

/-- Of two interfaces that were not registered the one takes the route of the other with it. -/
theorem removeInterface_takes_foreign_route :
    ∃ a b : Interface ScriptedLink,
      Interface.build { name := "a" } {} = .ok a ∧ Interface.build { name := "b" } {} = .ok b ∧
      let known := linkIds [a, b]
      let changes : List (Change (Fin 2)) := [.add 0 1 5, .add 1 2 5]
      let before := run known changes
      Through known changes 1 2 ∧ before.get 2 = some ⟨b.id, 2, 5⟩ ∧
        (before.removeInterface a.index).1.get 2 = none ∧
        (before.removeInterface a.index).2 = 2 ∧ ¬ RemovesOwn known changes 0 := by
  obtain ⟨a, ha, hunregistered⟩ : ∃ a : Interface ScriptedLink,
    Interface.build { name := "a" } {} = .ok a ∧ a.id = ⟨Interface.unregistered, "a"⟩ :=
    ⟨_, rfl, rfl⟩
  obtain ⟨b, hb, hunregistered'⟩ : ∃ b : Interface ScriptedLink,
    Interface.build { name := "b" } {} = .ok b ∧ b.id = ⟨Interface.unregistered, "b"⟩ :=
    ⟨_, rfl, rfl⟩
  have hindex : a.index = Interface.unregistered := congrArg LinkId.index hunregistered
  refine ⟨a, b, ha, hb, ?_⟩
  have hthrough : Through (linkIds [a, b]) [.add 0 1 5, .add 1 2 5] (1 : Fin 2) 2 :=
    ⟨_, ⟨[], [], rfl, by simp, by simp⟩, rfl⟩
  have hbefore : run (linkIds [a, b]) [.add (0 : Fin 2) 1 5, .add 1 2 5] =
      ⟨[⟨⟨Interface.unregistered, "a"⟩, 1, 5⟩, ⟨⟨Interface.unregistered, "b"⟩, 2, 5⟩]⟩ := by
    rw [← hunregistered, ← hunregistered']
    rfl
  refine ⟨hthrough, rfl, ?_, ?_, fun hown => ?_⟩
  · rw [hbefore, hindex]
    decide +kernel
  · rw [hbefore, hindex]
    decide +kernel
  · have hsame : (linkIds [a, b] 1).index = (linkIds [a, b] 0).index :=
      (congrArg LinkId.index hunregistered').trans hindex.symm
    exact absurd (removesOwn_iff.1 hown 1 2 hthrough hsame) Fin.zero_ne_one.symm

end Links

end RouteTable

end Netstack
