import Mathlib.Data.List.Induction
import Mathlib.Data.Set.Card
import Netstack.Link.Scripted
import Netstack.Proofs.Keyed
import Netstack.Proofs.Stack.Dispatch

/-
Which offer a route stands for.

A table keeps one route for an address and forgets every other offer, so what it says can only
be judged by the whole history. The offers that count are those since the route was last taken
away, and the route is the first of the best ones among them (`get_run`). An offer that lost is
not remembered: when the winner is taken away there is no route until somebody offers again.

Interfaces are told apart by `κ` here. A table sees no more of them than what they are known
by, and that may be the same for two of them.
-/

set_option autoImplicit false

namespace Netstack

namespace RouteTable

variable {κ : Type}

/-! ## The first best of some offers -/

/-- What an interface says of an address: that it reaches it, over a link of this speed. -/
structure Offer (κ : Type) where
  via : κ
  speed : LinkSpeed
  deriving DecidableEq, Repr

/-- An offer is better than all before it, and as good as all behind it. -/
def FirstBest (offers : List (Offer κ)) (o : Offer κ) : Prop :=
  ∃ before after, offers = before ++ o :: after ∧
    (∀ b ∈ before, o.speed < b.speed) ∧ ∀ b ∈ after, o.speed ≤ b.speed

section FirstBest

variable {offers : List (Offer κ)} {o o' : Offer κ}

theorem FirstBest.le (h : FirstBest offers o) : ∀ b ∈ offers, o.speed ≤ b.speed := by
  obtain ⟨before, after, rfl, hbefore, hafter⟩ := h
  intro b hb
  rcases List.mem_append.1 hb with hb | hb
  · exact UInt32.le_of_lt (hbefore b hb)
  · rcases List.mem_cons.1 hb with rfl | hb
    · exact UInt32.le_refl _
    · exact hafter b hb

theorem not_firstBest_nil : ¬ FirstBest [] o := by
  rintro ⟨before, after, hnil, -⟩
  simp at hnil

/-- A new offer wins if it is better than all that there were. Otherwise the winner stays. -/
theorem firstBest_snoc : FirstBest (offers ++ [o']) o ↔
    (FirstBest offers o ∧ o.speed ≤ o'.speed) ∨ (o = o' ∧ ∀ b ∈ offers, o'.speed < b.speed) := by
  constructor
  · rintro ⟨before, after, hoffers, hbefore, hafter⟩
    rcases after.eq_nil_or_concat' with rfl | ⟨after, last, rfl⟩
    · obtain ⟨rfl, hlast⟩ := List.append_inj' hoffers rfl
      obtain rfl := List.singleton_inj.1 hlast
      exact .inr ⟨rfl, hbefore⟩
    · obtain ⟨rfl, hlast⟩ := List.append_inj' (hoffers.trans (List.append_assoc before
        (o :: after) [last]).symm) rfl
      obtain rfl := List.singleton_inj.1 hlast
      exact .inl ⟨⟨before, after, rfl, hbefore,
        fun b hb => hafter b (List.mem_append_left _ hb)⟩, hafter _ (by simp)⟩
  · rintro (⟨⟨before, after, rfl, hbefore, hafter⟩, hle⟩ | ⟨rfl, hbetter⟩)
    · refine ⟨before, after ++ [o'], by simp, hbefore, fun b hb => ?_⟩
      rcases List.mem_append.1 hb with hb | hb
      · exact hafter b hb
      · rwa [List.mem_singleton.1 hb]
    · exact ⟨offers, [], rfl, hbetter, by simp⟩

/-- The last offer is not better than all others if the winner is one of those and as good. -/
theorem FirstBest.not_better (h : FirstBest offers o) (hle : o.speed ≤ o'.speed) :
    ¬ ∀ b ∈ offers, o'.speed < b.speed := by
  obtain ⟨before, after, rfl, -⟩ := h
  exact fun hbetter => UInt32.not_lt.2 hle (hbetter o (by simp))

theorem FirstBest.unique (h : FirstBest offers o) (h' : FirstBest offers o') : o = o' := by
  induction offers using List.reverseRecOn with
  | nil => exact absurd h not_firstBest_nil
  | append_singleton offers last ih =>
    rcases firstBest_snoc.1 h with ⟨hwon, hle⟩ | ⟨rfl, hbetter⟩ <;>
      rcases firstBest_snoc.1 h' with ⟨hwon', hle'⟩ | ⟨rfl, hbetter'⟩
    · exact ih hwon hwon'
    · exact absurd hbetter' (hwon.not_better hle)
    · exact absurd hbetter (hwon'.not_better hle')
    · rfl

theorem exists_firstBest_iff : (∃ o, FirstBest offers o) ↔ offers ≠ [] := by
  induction offers using List.reverseRecOn with
  | nil => simp [not_firstBest_nil]
  | append_singleton offers last ih =>
    refine iff_of_true ?_ (by simp)
    by_cases hoffers : offers = []
    · exact ⟨last, firstBest_snoc.2 (.inr ⟨rfl, by simp [hoffers]⟩)⟩
    · obtain ⟨o, ho⟩ := ih.2 hoffers
      by_cases hle : o.speed ≤ last.speed
      · exact ⟨o, firstBest_snoc.2 (.inl ⟨ho, hle⟩)⟩
      · exact ⟨last, firstBest_snoc.2 (.inr ⟨rfl, fun b hb =>
          UInt32.lt_of_lt_of_le (UInt32.not_le.1 hle) (ho.le b hb)⟩)⟩

end FirstBest

/-! ## Histories -/

/-- What is done to a table. -/
inductive Change (κ : Type)
  | add (via : κ) (addr : Address) (speed : LinkSpeed)
  | removeInterface (via : κ)

variable (known : κ → LinkId)

def perform (t : RouteTable) : Change κ → RouteTable
  | .add via addr speed => (t.add ⟨known via, addr, speed⟩).1
  | .removeInterface via => (t.removeInterface (known via).index).1

def run (changes : List (Change κ)) : RouteTable := changes.foldl (perform known) {}

/-- Whether a change takes away the route for an address. -/
def takes (t : RouteTable) (addr : Address) : Change κ → Bool
  | .add _ _ _ => false
  | .removeInterface via => (t.get addr).any fun r => r.via.index == (known via).index

/-- What a change offers for an address. -/
def Change.offer? (addr : Address) : Change κ → Option (Offer κ)
  | .add via addr' speed => if addr' = addr then some ⟨via, speed⟩ else none
  | .removeInterface _ => none

/-- The offers for an address since its route was last taken away, oldest first. -/
def offersSince (addr : Address) (changes : List (Change κ)) : List (Offer κ) :=
  (changes.foldl (fun (t, offers) change =>
    (t.perform known change,
      if t.takes known addr change then [] else offers ++ (change.offer? addr).toList))
    (({} : RouteTable), [])).2

/-- The route that an offer makes. -/
def Offer.route (addr : Address) (o : Offer κ) : Route := ⟨known o.via, addr, o.speed⟩

variable {known} {t : RouteTable} {offer r : Route} {a addr : Address} {index : Nat}
  {changes : List (Change κ)} {change : Change κ}

theorem run_snoc (known : κ → LinkId) (changes : List (Change κ)) (change : Change κ) :
    run known (changes ++ [change]) = (run known changes).perform known change :=
  List.foldl_append

theorem offersSince_snoc (known : κ → LinkId) (addr : Address) (changes : List (Change κ))
    (change : Change κ) :
    offersSince known addr (changes ++ [change]) =
      if (run known changes).takes known addr change then []
      else offersSince known addr changes ++ (change.offer? addr).toList := by
  -- the table that is carried along is that of the run
  have htable : ∀ (offers : List (Offer κ)) (t : RouteTable),
      (changes.foldl (fun (t, offers) change => (t.perform known change,
        if t.takes known addr change then [] else offers ++ (change.offer? addr).toList))
        (t, offers)).1 = changes.foldl (perform known) t := by
    induction changes with
    | nil => exact fun _ _ => rfl
    | cons change changes ih => exact fun _ _ => ih _ _
  rw [offersSince, List.foldl_append, List.foldl_cons, List.foldl_nil]
  dsimp only
  rw [htable, run]
  rfl

/-! ## What a change does to the routes -/

/-- No address is in the list of routes twice. -/
def Distinct (t : RouteTable) : Prop := (t.routes.map (·.addr)).Nodup

theorem distinct_empty : Distinct {} := List.nodup_nil

theorem get_eq_some_iff (h : t.Distinct) : t.get a = some r ↔ r ∈ t.routes ∧ r.addr = a :=
  find?_key_eq_some_iff h

theorem addr_of_get (h : t.get a = some r) : r.addr = a := key_of_find? h

theorem get_eq_none_iff : t.get a = none ↔ a ∉ t.routes.map (·.addr) := find?_key_eq_none_iff

/-- A table has as many routes as there are addresses with a route. -/
theorem length_eq_ncard (h : t.Distinct) : t.length = {a | (t.get a).isSome}.ncard := by
  have haddrs : {a | (t.get a).isSome} = ((t.routes.map (·.addr)).toFinset : Set Address) := by
    ext a
    rw [Set.mem_ofPred_eq, List.coe_toFinset, Set.mem_ofPred_eq, Option.isSome_iff_ne_none, ne_eq,
      get_eq_none_iff, not_not]
  rw [haddrs, Set.ncard_coe_finset, List.toFinset_card_of_nodup h, List.length_map, length]

/-- The routes of a table after one of them was replaced by an offer for its address. -/
def replace (t : RouteTable) (offer : Route) : RouteTable :=
  ⟨t.routes.map fun r => if r.addr == offer.addr then offer else r⟩

theorem add_of_none (h : t.get offer.addr = none) :
    t.add offer = (⟨t.routes ++ [offer]⟩, true) := by
  rw [add, h]

theorem add_of_some (h : t.get offer.addr = some r) :
    t.add offer = if offer.speed < r.speed then (t.replace offer, true) else (t, false) := by
  rw [add, h]
  rfl

theorem get_replace (t : RouteTable) (offer : Route) (a : Address) :
    (t.replace offer).get a =
      (t.get a).map fun r => if r.addr == offer.addr then offer else r := by
  unfold get replace
  rw [List.find?_map]
  congr 2
  funext r
  -- an offer takes the place of a route for the same address
  by_cases hr : r.addr = offer.addr <;> simp [hr]

theorem get_append_singleton (t : RouteTable) (offer : Route) (a : Address) :
    (⟨t.routes ++ [offer]⟩ : RouteTable).get a =
      (t.get a).or (if offer.addr = a then some offer else none) := by
  unfold get
  rw [List.find?_append]
  by_cases ha : offer.addr = a <;> simp [ha]

/-- An offer changes the route for its own address at most. -/
theorem get_add_of_ne (h : offer.addr ≠ a) : (t.add offer).1.get a = t.get a := by
  cases hfound : t.get offer.addr with
  | none => rw [add_of_none hfound, get_append_singleton, if_neg h, Option.or_none]
  | some r =>
    rw [add_of_some hfound]
    split
    · rw [get_replace]
      refine (Option.map_congr fun r hr => ?_).trans Option.map_id_apply
      rw [addr_of_get hr, if_neg (by simpa using h.symm)]
      rfl
    · rfl

/-- Where there was no route the offer is the route. -/
theorem get_add_of_none (h : t.get offer.addr = none) :
    (t.add offer).1.get offer.addr = some offer := by
  rw [add_of_none h, get_append_singleton, h, if_pos rfl, Option.none_or]

/-- Where there was one, the offer is the route now if it is strictly better. -/
theorem get_add_of_some (h : t.get offer.addr = some r) :
    (t.add offer).1.get offer.addr = some (if offer.speed < r.speed then offer else r) := by
  rw [add_of_some h]
  split
  · rw [get_replace, h, Option.map_some, if_pos (by simpa using addr_of_get h)]
  · exact h

/-- An offer is reported as a change exactly if it is one. -/
theorem add_eq_true_iff : (t.add offer).2 = true ↔ (t.add offer).1 ≠ t := by
  cases hfound : t.get offer.addr with
  | none =>
    refine iff_of_true (by rw [add_of_none hfound]) fun hsame => ?_
    have hroute := get_add_of_none hfound
    rw [hsame, hfound] at hroute
    cases hroute
  | some r =>
    by_cases hbetter : offer.speed < r.speed
    · refine iff_of_true (by rw [add_of_some hfound, if_pos hbetter]) fun hsame => ?_
      have hroute := get_add_of_some hfound
      rw [hsame, hfound, if_pos hbetter] at hroute
      rw [Option.some.inj hroute] at hbetter
      exact UInt32.lt_irrefl _ hbetter
    · exact iff_of_false (by rw [add_of_some hfound, if_neg hbetter]; exact Bool.false_ne_true)
        fun hdiffers => hdiffers (by rw [add_of_some hfound, if_neg hbetter])

theorem Distinct.add (h : t.Distinct) (offer : Route) : (t.add offer).1.Distinct := by
  cases hfound : t.get offer.addr with
  | none =>
    rw [add_of_none hfound]
    unfold Distinct
    rw [List.map_append, List.nodup_append]
    refine ⟨h, List.nodup_singleton _, ?_⟩
    rintro a ha b hb rfl
    obtain rfl : a = offer.addr := List.mem_singleton.1 hb
    exact get_eq_none_iff.1 hfound ha
  | some r =>
    rw [add_of_some hfound]
    split
    · -- the addresses are the same, in the same order
      have haddrs : (t.replace offer).routes.map (·.addr) = t.routes.map (·.addr) := by
        rw [replace, List.map_map]
        refine List.map_congr_left fun r _ => ?_
        by_cases hr : r.addr = offer.addr <;> simp [hr]
      unfold Distinct
      rw [haddrs]
      exact h
    · exact h

theorem removeInterface_eq (t : RouteTable) (index : Nat) :
    t.removeInterface index =
      (⟨t.routes.filter fun r => ! r.via.index == index⟩,
        (t.routes.filter fun r => r.via.index == index).length) := by
  rw [removeInterface, List.partition_eq_filter_filter]
  rfl

theorem Distinct.filter (h : t.Distinct) (keep : Route → Bool) :
    Distinct ⟨t.routes.filter keep⟩ := h.sublist (List.filter_sublist.map _)

theorem get_filter (h : t.Distinct) (keep : Route → Bool) (a : Address) :
    (⟨t.routes.filter keep⟩ : RouteTable).get a = (t.get a).filter keep := by
  ext r
  rw [get_eq_some_iff (h.filter keep), Option.filter_eq_some_iff, get_eq_some_iff h,
    List.mem_filter, and_right_comm]

theorem Distinct.removeInterface (h : t.Distinct) (index : Nat) :
    (t.removeInterface index).1.Distinct := by
  rw [removeInterface_eq]
  exact h.filter _

/-- Every route that is kept goes through an interface with another number. -/
theorem get_removeInterface (h : t.Distinct) (index : Nat) (a : Address) :
    (t.removeInterface index).1.get a = (t.get a).filter fun r => ! r.via.index == index := by
  rw [removeInterface_eq]
  exact get_filter h _ a

theorem distinct_run (known : κ → LinkId) (changes : List (Change κ)) :
    (run known changes).Distinct := by
  induction changes using List.reverseRecOn with
  | nil => exact distinct_empty
  | append_singleton changes change ih =>
    rw [run_snoc]
    cases change with
    | add via addr speed => exact ih.add _
    | removeInterface via => exact ih.removeInterface _

/-! ## The route of a history -/

theorem Change.offer?_eq_some_iff {via : κ} {speed : LinkSpeed} :
    change.offer? addr = some ⟨via, speed⟩ ↔ change = .add via addr speed := by
  cases change with
  | add via' addr' speed' =>
    rw [offer?]
    by_cases haddr : addr' = addr <;> simp [haddr]
  | removeInterface via' => simp [offer?]

/-- A change that takes a route away leaves none. -/
theorem get_perform_of_takes (h : t.Distinct) (htakes : t.takes known addr change = true) :
    (t.perform known change).get addr = none := by
  cases change with
  | add via addr' speed => cases htakes
  | removeInterface via =>
    refine (get_removeInterface h _ addr).trans ?_
    cases hr : t.get addr with
    | none => rfl
    | some r =>
      rw [takes, hr, Option.any_some] at htakes
      rw [Option.filter_some, htakes]
      rfl

/-- A change that neither takes a route away nor offers one leaves it alone. -/
theorem get_perform_of_idle (h : t.Distinct) (htakes : t.takes known addr change = false)
    (hoffer : change.offer? addr = none) :
    (t.perform known change).get addr = t.get addr := by
  cases change with
  | add via addr' speed =>
    refine get_add_of_ne fun haddr : addr' = addr => ?_
    rw [Change.offer?, if_pos haddr] at hoffer
    cases hoffer
  | removeInterface via =>
    refine (get_removeInterface h _ addr).trans ?_
    cases hr : t.get addr with
    | none => rfl
    | some r =>
      rw [takes, hr, Option.any_some] at htakes
      rw [Option.filter_some, if_pos (by rw [htakes]; rfl)]

/-- What an offer makes of the route for its address, told of the offers that came before. -/
theorem get_add_of_firstBest {offers : List (Offer κ)} {via : κ} {speed : LinkSpeed}
    (h : ∀ r, t.get addr = some r ↔ ∃ o, FirstBest offers o ∧ r = o.route known addr) (r : Route) :
    (t.add ⟨known via, addr, speed⟩).1.get addr = some r ↔
      ∃ o, FirstBest (offers ++ [⟨via, speed⟩]) o ∧ r = o.route known addr := by
  cases hfound : t.get addr with
  | none =>
    -- there were no offers yet
    have hoffers : offers = [] := by
      by_contra hne
      obtain ⟨o, ho⟩ := exists_firstBest_iff.2 hne
      rw [(h _).2 ⟨o, ho, rfl⟩] at hfound
      cases hfound
    have hroute : (t.add ⟨known via, addr, speed⟩).1.get addr = some ⟨known via, addr, speed⟩ :=
      get_add_of_none hfound
    subst hoffers
    rw [hroute, Option.some.injEq]
    constructor
    · rintro rfl
      exact ⟨⟨via, speed⟩, firstBest_snoc.2 (.inr ⟨rfl, by simp⟩), rfl⟩
    · rintro ⟨o, ho, rfl⟩
      obtain ⟨ho, -⟩ | ⟨rfl, -⟩ := firstBest_snoc.1 ho
      · exact absurd ho not_firstBest_nil
      · rfl
  | some r₀ =>
    obtain ⟨o₀, ho₀, rfl⟩ := (h r₀).1 hfound
    have hroute : (t.add ⟨known via, addr, speed⟩).1.get addr = some
        (if speed < o₀.speed then ⟨known via, addr, speed⟩ else o₀.route known addr) :=
      @get_add_of_some t ⟨known via, addr, speed⟩ _ hfound
    rw [hroute, Option.some.injEq]
    by_cases hbetter : speed < o₀.speed
    · -- better than the best is better than all
      have hwins : FirstBest (offers ++ [⟨via, speed⟩]) ⟨via, speed⟩ :=
        firstBest_snoc.2 (.inr ⟨rfl, fun b hb => UInt32.lt_of_lt_of_le hbetter (ho₀.le b hb)⟩)
      rw [if_pos hbetter]
      constructor
      · rintro rfl
        exact ⟨_, hwins, rfl⟩
      · rintro ⟨o, ho, rfl⟩
        rw [ho.unique hwins]
        rfl
    · have hstays : FirstBest (offers ++ [⟨via, speed⟩]) o₀ :=
        firstBest_snoc.2 (.inl ⟨ho₀, UInt32.not_lt.1 hbetter⟩)
      rw [if_neg hbetter]
      constructor
      · rintro rfl
        exact ⟨_, hstays, rfl⟩
      · rintro ⟨o, ho, rfl⟩
        rw [ho.unique hstays]

/-- The route for an address is the first best of the offers since the last one was taken
away. -/
theorem get_run (known : κ → LinkId) (changes : List (Change κ)) (addr : Address) (r : Route) :
    (run known changes).get addr = some r ↔
      ∃ o, FirstBest (offersSince known addr changes) o ∧ r = o.route known addr := by
  induction changes using List.reverseRecOn generalizing r with
  | nil => exact iff_of_false (fun h => nomatch h) fun ⟨_, h, _⟩ => not_firstBest_nil h
  | append_singleton changes change ih =>
    have hdistinct := distinct_run known changes
    rw [run_snoc, offersSince_snoc]
    by_cases htakes : (run known changes).takes known addr change = true
    · rw [if_pos htakes, get_perform_of_takes hdistinct htakes]
      exact iff_of_false (fun h => nomatch h) fun ⟨_, h, _⟩ => not_firstBest_nil h
    · rw [if_neg htakes]
      cases hoffer : change.offer? addr with
      | none =>
        rw [get_perform_of_idle hdistinct (Bool.eq_false_iff.2 htakes) hoffer, ih,
          Option.toList_none, List.append_nil]
      | some o =>
        obtain ⟨via, speed⟩ := o
        obtain rfl := Change.offer?_eq_some_iff.1 hoffer
        exact get_add_of_firstBest ih r

end RouteTable

/-! ## Routes that are learned -/

namespace Stack

variable {δ : Type}

theorem routes_countDrop (s : Stack δ) (via : Option LinkId) :
    (s.countDrop via).routes = s.routes := by
  cases via <;> rfl

theorem routes_countRxError (s : Stack δ) (via : Option LinkId) :
    (s.countRxError via).routes = s.routes := by
  cases via <;> rfl

theorem routes_addressee (s : Stack δ) (via : Option LinkId) (packet : Buffer) :
    (s.addressee via packet).1.routes = s.routes ∨
      ∃ sender, (s.addressee via packet).1.routes = (s.learn via sender).routes := by
  unfold addressee
  split
  · exact .inl (routes_countRxError s via)
  · next h _ =>
    split
    · exact .inl (routes_countDrop s via)
    · refine .inr ⟨h.srcAddr, ?_⟩
      split
      · next hq => exact (congrArg (·.1.routes) hq).symm
      · next hq => exact (routes_countDrop _ via).trans (congrArg (·.1.routes) hq).symm

theorem routes_dispatch_eq (s : Stack δ) (via : Option LinkId) (packet : Buffer) :
    (s.dispatch via packet).routes = (s.addressee via packet).1.routes := by
  unfold dispatch
  split
  · next hq => rw [hq]
  · next hq =>
    rw [hq]
    split
    · next hp => exact (congrArg (·.1.routes) hp).symm
    · next hp => exact (routes_countDrop _ via).trans (congrArg (·.1.routes) hp).symm

/-- Dispatching a packet does to the routes at most what an offer of unknown speed does. -/
theorem dispatch_routes_cases (s : Stack δ) (via : Option LinkId) (packet : Buffer) :
    (s.dispatch via packet).routes = s.routes ∨ ∃ link sender, via = some link ∧
      (s.dispatch via packet).routes = (s.routes.add ⟨link, sender, LinkSpeed.unknown⟩).1 := by
  rw [routes_dispatch_eq]
  obtain hsame | ⟨sender, hlearn⟩ := routes_addressee s via packet
  · exact .inl hsame
  · rw [hlearn]
    unfold learn
    split
    · next link =>
      split
      · exact .inl rfl
      · exact .inr ⟨link, sender, rfl, rfl⟩
    · exact .inl rfl

end Stack

namespace RouteTable

variable {κ δ : Type} {t : RouteTable} {offer r : Route} {a : Address}

/-- An offer of unknown speed leaves every route that is there as it is. -/
theorem get_add_of_unknown (hspeed : offer.speed = LinkSpeed.unknown) (h : t.get a = some r) :
    (t.add offer).1.get a = some r := by
  obtain hsame | ⟨-, hnew⟩ := t.add_of_unknown hspeed
  · rw [hsame, h]
  · rw [hnew]
    exact get_append h

/-- After every history a table has a route for an address exactly if there was an offer for it
since its route was last taken away, and the route is the first of the best of these offers. An
offer is reported as a change exactly if it is one. There are as many routes as addresses with
a route, and no address has two. An offer of unknown speed changes no route that is there, and
no other offer is made for a packet that is dispatched. -/
theorem first_best_offer (known : κ → LinkId) (changes : List (Change κ)) :
    let t := run known changes
    (∀ addr, (t.get addr).isSome ↔ offersSince known addr changes ≠ []) ∧
    (∀ addr r, t.get addr = some r ↔
      ∃ o, FirstBest (offersSince known addr changes) o ∧ r = o.route known addr) ∧
    (∀ offer, (t.add offer).2 = true ↔ (t.add offer).1 ≠ t) ∧
    (t.routes.map (·.addr)).Nodup ∧ t.length = {addr | (t.get addr).isSome}.ncard ∧
    (∀ offer, offer.speed = LinkSpeed.unknown →
      ∀ addr r, t.get addr = some r → (t.add offer).1.get addr = some r) ∧
    ∀ (s : Stack δ) via packet, (s.dispatch via packet).routes = s.routes ∨
      ∃ link sender, via = some link ∧
        (s.dispatch via packet).routes = (s.routes.add ⟨link, sender, LinkSpeed.unknown⟩).1 := by
  intro t
  have hdistinct : t.Distinct := distinct_run known changes
  refine ⟨fun addr => ?_, get_run known changes, fun offer => add_eq_true_iff, hdistinct,
    length_eq_ncard hdistinct, fun offer hspeed addr r => get_add_of_unknown hspeed,
    Stack.dispatch_routes_cases⟩
  rw [← exists_firstBest_iff, Option.isSome_iff_exists]
  constructor
  · rintro ⟨r, hr⟩
    obtain ⟨o, ho, -⟩ := (get_run known changes addr r).1 hr
    exact ⟨o, ho⟩
  · rintro ⟨o, ho⟩
    exact ⟨_, (get_run known changes addr _).2 ⟨o, ho, rfl⟩⟩

/-- Of two offers that are as good the first one is the route, and one of unknown speed does not
change that. When the route is taken away the offer that lost is not remembered. -/
theorem first_best_offer_of_tie :
    let radio : LinkId := ⟨0, "radio0"⟩
    let cable : LinkId := ⟨1, "cable0"⟩
    let changes : List (Change LinkId) := [.add radio 7 10, .add cable 7 10]
    let t := run id changes
    offersSince id 7 changes = [⟨radio, 10⟩, ⟨cable, 10⟩] ∧
      t.get 7 = some ⟨radio, 7, 10⟩ ∧
      (t.add ⟨cable, 7, LinkSpeed.unknown⟩).1.get 7 = some ⟨radio, 7, 10⟩ ∧
      ((run id (changes ++ [.removeInterface radio])).get 7).isSome = false := by
  intro radio cable changes t
  obtain ⟨-, hroute, -, -, -, hunknown, -⟩ := first_best_offer (δ := ScriptedLink) id changes
  obtain ⟨hoffered, -⟩ := first_best_offer (δ := ScriptedLink) id
    (changes ++ [.removeInterface radio])
  have hoffers : offersSince id 7 changes = [⟨radio, 10⟩, ⟨cable, 10⟩] := by decide +kernel
  have hget : t.get 7 = some ⟨radio, 7, 10⟩ :=
    (hroute 7 _).2 ⟨⟨radio, 10⟩, ⟨[], [⟨cable, 10⟩], hoffers, by simp, by simp⟩, rfl⟩
  refine ⟨hoffers, hget, hunknown _ rfl 7 _ hget, ?_⟩
  rw [Bool.eq_false_iff, ne_eq, hoffered 7, not_not]
  decide +kernel

end RouteTable

end Netstack
