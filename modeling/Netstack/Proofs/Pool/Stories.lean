import Mathlib.Algebra.Group.Nat.Defs
import Mathlib.Data.List.Induction
import Netstack.Proofs.Pool.Moves

/-
What can be told of a pool from what its monitor is told.

An observer keeps a roster: for every handle, whether there is such a connection and how far it
got. An event is news of one connection; the roster is changed at that handle, whatever it was
before, and nowhere else.

The events about one slot tell a story. A free slot begins a use, the connection in it goes on
from one standing to the next, and the use ends with the next generation. A story may leave
things out that are no news, and parts of stories can be put together. From a story two things
follow, and neither needs to be looked at again where operations are compared with what they
emit: the roster says at its end what is so (`Story.follows`), and a handle was told of at most
once when it was handed out and once when it was given back, as long as the generations have not
gone round (`Story.counts`).
-/

set_option autoImplicit false

namespace Netstack

/-! ## Rosters -/

/-- How far a connection got, as far as an observer is told. -/
inductive Standing
  | closed
  | bound (port : UInt8)
  | listening (port : UInt8)
  | connected (peer : Peer)
  /-- connected, as the child of a listening connection -/
  | child (parent : Handle)
  deriving DecidableEq, Repr

namespace Standing

def phase : Standing → Phase
  | closed => .closed
  | bound _ => .bound
  | listening _ => .listen
  | connected _ => .connected
  | child _ => .connected

/-- Whether a standing is the one of a slot: the phase, and the local port, the peer or the parent
that was told of. -/
def Describes (st : Standing) (s : Status) : Prop :=
  s.phase = st.phase ∧
    match st with
    | closed => True
    | bound port => s.options.lport = port
    | listening port => s.options.lport = port
    | connected peer => s.peer = peer
    | child parent => s.kin.parent? = some parent

/-- Nothing is told of how far a free slot got. -/
theorem Describes.ne_free {st : Standing} {s : Status} (h : st.Describes s) : s.phase ≠ .free := by
  rw [h.1]
  cases st <;> simp [phase]

end Standing

namespace ConnEvent

/-- Of whom an event is news: how far the connection got, or that it is gone. A packet that was
dropped is no news of a connection. -/
def news? : ConnEvent → Option (Handle × Option Standing)
  | allocated conn => some (conn, some .closed)
  | bound conn port => some (conn, some (.bound port))
  | listening conn port => some (conn, some (.listening port))
  | connected conn addr port => some (conn, some (.connected ⟨addr, port⟩))
  | accepted parent child => some (child, some (.child parent))
  | closed conn => some (conn, some .closed)
  | freed conn => some (conn, none)
  | dropped _ => none

/-- Whether an event is news of a connection in a slot. -/
def isAbout (i : Nat) (e : ConnEvent) : Bool :=
  match e.news? with
  | some (h, _) => h.index = i
  | none => false

/-- Whether an event tells that a slot was given back. -/
def isFreed : ConnEvent → Bool
  | freed _ => true
  | _ => false

/-- News of how far a connection got is no news of its end. -/
theorem countP_freed_of_news {e : ConnEvent} {h : Handle} {st : Standing}
    (hn : e.news? = some (h, some st)) : [e].countP isFreed = 0 := by
  cases e <;> first | rfl | cases hn

end ConnEvent

/-- The connections that there are, and how far each of them got. -/
abbrev Roster := Handle → Option Standing

namespace Roster

/-- Nobody is there. -/
def empty : Roster := fun _ => none

def apply (r : Roster) (e : ConnEvent) : Roster :=
  match e.news? with
  | some (h, standing) => Function.update r h standing
  | none => r

/-- The roster after some events, oldest first. -/
def replay (r : Roster) (log : List ConnEvent) : Roster := log.foldl apply r

theorem replay_snoc (r : Roster) (log : List ConnEvent) (e : ConnEvent) :
    r.replay (log ++ [e]) = (r.replay log).apply e := List.foldl_append

theorem apply_of_not_about {e : ConnEvent} {k : Handle} (h : e.isAbout k.index = false)
    (r : Roster) : r.apply e k = r k := by
  unfold ConnEvent.isAbout at h
  unfold apply
  cases hn : e.news? with
  | none => rfl
  | some news =>
    rw [hn] at h
    have hk : k ≠ news.1 := by
      rintro rfl
      simp at h
    exact Function.update_of_ne hk _ _

/-- Only what is told of a slot matters to the handles of the slot. -/
theorem replay_filter (r : Roster) (log : List ConnEvent) (k : Handle) :
    r.replay (log.filter (·.isAbout k.index)) k = r.replay log k := by
  induction log using List.reverseRecOn with
  | nil => rfl
  | append_singleton log e ih =>
    rw [List.filter_append, replay_snoc]
    cases he : e.isAbout k.index with
    | false =>
      rw [List.filter_cons_of_neg (by rw [he]; simp), List.filter_nil, List.append_nil, ih,
        apply_of_not_about he]
    | true =>
      rw [List.filter_cons_of_pos he, List.filter_nil, replay_snoc]
      unfold apply
      cases e.news? with
      | none => exact ih
      | some news =>
        dsimp only
        by_cases hk : k = news.1
        · rw [hk, Function.update_self, Function.update_self]
        · rw [Function.update_of_ne hk, Function.update_of_ne hk]
          exact ih

end Roster

/-! ## Stories -/

namespace Status

/-- Nothing has changed that an observer is told of. -/
structure Unmoved (s t : Status) : Prop where
  generation : t.generation = s.generation
  phase : t.phase = s.phase
  parent : t.kin.parent? = s.kin.parent?
  lport : t.options.lport = s.options.lport
  peer : t.peer = s.peer

theorem Unmoved.refl (s : Status) : s.Unmoved s := ⟨rfl, rfl, rfl, rfl, rfl⟩

theorem Unmoved.trans {s t u : Status} (h₁ : s.Unmoved t) (h₂ : t.Unmoved u) : s.Unmoved u :=
  ⟨h₂.generation.trans h₁.generation, h₂.phase.trans h₁.phase, h₂.parent.trans h₁.parent,
    h₂.lport.trans h₁.lport, h₂.peer.trans h₁.peer⟩

theorem Alike.unmoved {s t : Status} (h : t.Alike s) : s.Unmoved t :=
  ⟨h.generation, h.phase, h.parent, congrArg Options.lport h.options, h.peer⟩

/-- One event about the slot with number `i`, and the slot before and after. -/
inductive Chapter (i : Nat) (s : Status) : ConnEvent → Status → Prop
  /-- a use begins -/
  | begins {t : Status} (free : s.phase = .free) (closed : t.phase = .closed)
      (same : t.generation = s.generation) : Chapter i s (.allocated ⟨i, s.generation⟩) t
  /-- the use goes on -/
  | goesOn {t : Status} {e : ConnEvent} {standing : Standing} (live : s.phase ≠ .free)
      (news : e.news? = some (⟨i, s.generation⟩, some standing))
      (no_beginning : ∀ h, e ≠ .allocated h) (describes : standing.Describes t)
      (same : t.generation = s.generation) : Chapter i s e t
  /-- the use ends -/
  | ends {t : Status} (live : s.phase ≠ .free) (free : t.phase = .free)
      (next : t.generation = s.generation + 1) : Chapter i s (.freed ⟨i, s.generation⟩) t

/-- Some events about the slot with number `i`, oldest first, and the slot before and after. -/
inductive Story (i : Nat) (s : Status) : List ConnEvent → Status → Prop
  | refl : Story i s [] s
  | silent {es : List ConnEvent} {t u : Status} (story : Story i s es t) (unmoved : t.Unmoved u) :
      Story i s es u
  | tell {es : List ConnEvent} {e : ConnEvent} {t u : Status} (story : Story i s es t)
      (chapter : Chapter i t e u) : Story i s (es ++ [e]) u

namespace Story

variable {i : Nat} {s t u : Status} {es es' : List ConnEvent} {k : Handle}

theorem of_unmoved (h : s.Unmoved t) : Story i s [] t := .silent .refl h

theorem trans (h₁ : Story i s es t) (h₂ : Story i t es' u) : Story i s (es ++ es') u := by
  induction h₂ with
  | refl =>
    rw [List.append_nil]
    exact h₁
  | silent _ unmoved ih => exact .silent ih unmoved
  | tell _ chapter ih =>
    rw [← List.append_assoc]
    exact .tell ih chapter

end Story

variable {i j : Nat} {s t u : Status} {e : ConnEvent} {es : List ConnEvent} {k : Handle}
  {st : Standing} {o : Option Standing}

theorem Chapter.story (h : Chapter i s e t) : Story i s [e] t := .tell .refl h

theorem Chapter.isAbout (h : Chapter i s e t) (j : Nat) : e.isAbout j = decide (i = j) := by
  cases h with
  | begins free closed same => rfl
  | goesOn live news no_beginning describes same => rw [ConnEvent.isAbout, news]
  | ends live free next => rfl

theorem Story.filter_self (h : Story i s es t) : es.filter (·.isAbout i) = es := by
  induction h with
  | refl => rfl
  | silent _ _ ih => exact ih
  | tell _ chapter ih =>
    rw [List.filter_append, ih, List.filter_cons_of_pos (by rw [chapter.isAbout]; simp),
      List.filter_nil]

theorem Story.filter_of_ne (h : Story i s es t) (hj : j ≠ i) : es.filter (·.isAbout j) = [] := by
  induction h with
  | refl => rfl
  | silent _ _ ih => exact ih
  | tell _ chapter ih =>
    rw [List.filter_append, ih, List.nil_append,
      List.filter_cons_of_neg (by rw [chapter.isAbout]; simpa using hj.symm), List.filter_nil]

/-! ## What an observer knows -/

/-- What a roster says of a handle is so: whether it is the connection in its slot, and how far
it got. -/
def Follows (k : Handle) (s : Status) (o : Option Standing) : Prop :=
  if s.generation = k.generation ∧ s.phase ≠ .free then ∃ st, o = some st ∧ st.Describes s
  else o = none

theorem follows_none (h : ¬ (s.generation = k.generation ∧ s.phase ≠ .free)) :
    Follows k s o ↔ o = none := by
  unfold Follows
  rw [if_neg h]

theorem follows_some (hg : s.generation = k.generation) (hd : st.Describes s) :
    Follows k s (some st) := by
  unfold Follows
  rw [if_pos ⟨hg, hd.ne_free⟩]
  exact ⟨st, rfl, hd⟩

/-- A roster that follows a slot has the connections that there are. -/
theorem Follows.isSome_iff (h : Follows k s o) :
    o.isSome ↔ s.generation = k.generation ∧ s.phase ≠ .free := by
  unfold Follows at h
  split at h
  · next hlive =>
    obtain ⟨st, rfl, -⟩ := h
    exact iff_of_true rfl hlive
  · next hn =>
    rw [h]
    exact iff_of_false (by simp) hn

theorem Unmoved.describes (h : s.Unmoved t) (hd : st.Describes s) : st.Describes t := by
  refine ⟨h.phase.trans hd.1, ?_⟩
  have hrest := hd.2
  cases st with
  | closed => exact trivial
  | bound port => exact h.lport.trans hrest
  | listening port => exact h.lport.trans hrest
  | connected peer => exact h.peer.trans hrest
  | child parent => exact h.parent.trans hrest

theorem Unmoved.follows (h : s.Unmoved t) (ho : Follows k s o) : Follows k t o := by
  unfold Follows at ho ⊢
  rw [h.generation, h.phase]
  split at ho
  · next hlive =>
    obtain ⟨st, rfl, hd⟩ := ho
    rw [if_pos hlive]
    exact ⟨st, rfl, h.describes hd⟩
  · next hn =>
    rw [if_neg hn]
    exact ho

/-- An event is heard by the roster at the handle that it is about. Another handle of the slot
is not there, neither before nor after. -/
theorem Chapter.follows {r : Roster} (h : Chapter k.index s e t)
    (hr : Follows k s (r k)) : Follows k t (r.apply e k) := by
  have hother : s.generation ≠ k.generation → k ≠ ⟨k.index, s.generation⟩ := by
    intro hne heq
    exact hne (congrArg Handle.generation heq).symm
  by_cases hg : s.generation = k.generation
  · have hk : k = ⟨k.index, s.generation⟩ := by rw [hg]
    cases h with
    | begins free closed same =>
      have hsay : r.apply (.allocated ⟨k.index, s.generation⟩) k = some .closed := by
        rw [← hk]
        exact Function.update_self _ _ _
      rw [hsay]
      exact follows_some (same.trans hg) ⟨closed, trivial⟩
    | @goesOn _ _ standing live news no_beginning describes same =>
      have hsay : r.apply e k = some standing := by
        unfold Roster.apply
        rw [news, ← hk]
        exact Function.update_self _ _ _
      rw [hsay]
      exact follows_some (same.trans hg) describes
    | ends live free next =>
      have hsay : r.apply (.freed ⟨k.index, s.generation⟩) k = none := by
        rw [← hk]
        exact Function.update_self _ _ _
      rw [hsay, follows_none (fun hl => hl.2 free)]
  · have hnone := (follows_none (fun hl => hg hl.1)).1 hr
    cases h with
    | begins free closed same =>
      rw [follows_none (fun hl => hg (same.symm.trans hl.1)), ← hnone]
      exact Function.update_of_ne (hother hg) _ _
    | goesOn live news no_beginning describes same =>
      rw [follows_none (fun hl => hg (same.symm.trans hl.1)), ← hnone]
      unfold Roster.apply
      rw [news]
      exact Function.update_of_ne (hother hg) _ _
    | ends live free next =>
      rw [follows_none (fun hl => hl.2 free), ← hnone]
      exact Function.update_of_ne (hother hg) _ _

/-- Whoever knew what was so at the beginning of a story, and hears it, knows what is so at its
end. -/
theorem Story.follows {r : Roster} (h : Story k.index s es t) (hr : Follows k s (r k)) :
    Follows k t (r.replay es k) := by
  induction h with
  | refl => exact hr
  | silent _ unmoved ih => exact unmoved.follows ih
  | tell _ chapter ih =>
    rw [Roster.replay_snoc]
    exact chapter.follows ih

/-! ## How often a handle is told of -/

/-- In a slot that is free nothing happens until it is handed out. -/
theorem Story.of_free (h : Story i s es t) (hfree : s.phase = .free)
    (hes : ∀ k, .allocated k ∉ es) : es = [] ∧ s.Unmoved t := by
  induction h with
  | refl => exact ⟨rfl, .refl s⟩
  | silent _ unmoved ih =>
    obtain ⟨hnil, hsame⟩ := ih hes
    exact ⟨hnil, hsame.trans unmoved⟩
  | tell _ chapter ih =>
    obtain ⟨-, hsame⟩ := ih fun k hk => hes k (List.mem_append_left _ hk)
    have hstill := hsame.phase.trans hfree
    cases chapter with
    | begins free closed same => exact absurd (List.mem_append_right _ List.mem_cons_self) (hes _)
    | goesOn live news no_beginning describes same => exact absurd hstill live
    | ends live free next => exact absurd hstill live

/-- A slot that is not handed out in between is given back once at most. -/
theorem Story.freed_le_one (h : Story i s es t) (hes : ∀ k, .allocated k ∉ es) :
    es.countP ConnEvent.isFreed ≤ 1 := by
  -- as long as the use goes on, it has not ended
  have hlive : (t.phase ≠ .free → es.countP ConnEvent.isFreed = 0) ∧
      es.countP ConnEvent.isFreed ≤ 1 := by
    induction h with
    | refl => exact ⟨fun _ => rfl, Nat.zero_le 1⟩
    | silent _ unmoved ih =>
      rw [unmoved.phase]
      exact ih hes
    | tell _ chapter ih =>
      have hbefore := ih fun k hk => hes k (List.mem_append_left _ hk)
      rw [List.countP_append]
      cases chapter with
      | begins free closed same => exact absurd (List.mem_append_right _ List.mem_cons_self) (hes _)
      | goesOn live news no_beginning describes same =>
        rw [hbefore.1 live, ConnEvent.countP_freed_of_news news]
        exact ⟨fun _ => rfl, Nat.zero_le 1⟩
      | ends live free next =>
        rw [hbefore.1 live]
        exact ⟨fun hp => absurd free hp, Nat.le_refl 1⟩
  exact hlive.2

/-- The generation counts how often it was told that the slot was given back. -/
theorem Story.generation (h : Story i s es t) :
    t.generation = s.generation + UInt32.ofNat (es.countP ConnEvent.isFreed) := by
  induction h with
  | refl => exact (UInt32.add_zero _).symm
  | silent _ unmoved ih => exact unmoved.generation.trans ih
  | tell _ chapter ih =>
    rw [List.countP_append, UInt32.ofNat_add, ← UInt32.add_assoc, ← ih]
    cases chapter with
    | begins free closed same => exact same.trans (UInt32.add_zero _).symm
    | goesOn live news no_beginning describes same =>
      rw [ConnEvent.countP_freed_of_news news]
      exact same.trans (UInt32.add_zero _).symm
    | ends live free next => exact next

/-- The handles of the slot with number `i` that were given back are those of earlier
generations, and those that were handed out are these and the one in use. Each was told of
once. -/
structure Once (i : Nat) (es : List ConnEvent) (s : Status) : Prop where
  allocated (g : UInt32) : es.count (.allocated ⟨i, g⟩) =
    if g < s.generation ∨ (g = s.generation ∧ s.phase ≠ .free) then 1 else 0
  freed (g : UInt32) : es.count (.freed ⟨i, g⟩) = if g < s.generation then 1 else 0

theorem once_nil (hfree : s.phase = .free) (hzero : s.generation = 0) : Once i [] s := by
  have hnone : ∀ g : UInt32, ¬ g < s.generation := by
    intro g
    rw [hzero]
    exact UInt32.not_lt_zero
  refine ⟨fun g => ?_, fun g => ?_⟩
  · rw [if_neg (not_or.2 ⟨hnone g, fun hg => hg.2 hfree⟩), List.count_nil]
  · rw [if_neg (hnone g), List.count_nil]

theorem Unmoved.once (h : s.Unmoved t) (ho : Once i es s) : Once i es t := by
  refine ⟨fun g => ?_, fun g => ?_⟩
  · rw [h.generation, h.phase]
    exact ho.allocated g
  · rw [h.generation]
    exact ho.freed g

/-- A chapter tells of the handle of the present generation, which a beginning did not tell of
before, nor an end. -/
theorem Chapter.once (h : Chapter i s e t) (ho : Once i es s)
    (hround : e.isFreed = true → s.generation.toNat + 1 < 2 ^ 32) : Once i (es ++ [e]) t := by
  cases h with
  | begins free closed same =>
    refine ⟨fun g => ?_, fun g => ?_⟩
    · rw [List.count_append, ho.allocated g, same, closed]
      by_cases hg : g = s.generation
      · simp [hg, free]
      · simp [hg, Ne.symm hg]
    · rw [List.count_append, ho.freed g, same]
      simp
  | goesOn live news no_beginning describes same =>
    have hphase := describes.ne_free
    refine ⟨fun g => ?_, fun g => ?_⟩
    · rw [List.count_append, ho.allocated g, same,
        List.count_eq_zero_of_not_mem (by simpa using (no_beginning _).symm)]
      simp [live, hphase]
    · have hother : e ≠ .freed ⟨i, g⟩ := by
        rintro rfl
        cases news
      rw [List.count_append, ho.freed g, same,
        List.count_eq_zero_of_not_mem (by simpa using hother.symm), Nat.add_zero]
  | ends live free next =>
    -- what was the present generation is an earlier one now
    have hlt : ∀ g : UInt32, g < t.generation ↔ g < s.generation ∨ g = s.generation := by
      intro g
      have hn : t.generation.toNat = s.generation.toNat + 1 := by
        rw [next, UInt32.toNat_add]
        exact Nat.mod_eq_of_lt (hround rfl)
      rw [UInt32.lt_iff_toNat_lt, UInt32.lt_iff_toNat_lt, ← UInt32.toNat_inj, hn]
      omega
    refine ⟨fun g => ?_, fun g => ?_⟩
    · rw [List.count_append, ho.allocated g]
      simp [live, free, hlt]
    · rw [List.count_append, ho.freed g]
      by_cases hg : g = s.generation
      · simp [hg, hlt]
      · simp [hg, Ne.symm hg, hlt]

/-- As long as the generations have not gone round, each handle of a slot is told of once. -/
theorem Story.once (h : Story i s es t) (hs : Once i [] s)
    (hlt : s.generation.toNat + es.countP ConnEvent.isFreed < 2 ^ 32) : Once i es t := by
  induction h with
  | refl => exact hs
  | silent _ unmoved ih => exact unmoved.once (ih hlt)
  | @tell es e t u story chapter ih =>
    rw [List.countP_append] at hlt
    have hbefore : s.generation.toNat + es.countP ConnEvent.isFreed < 2 ^ 32 := by omega
    refine chapter.once (ih hbefore) fun hfreed => ?_
    -- the generation so far is the number of ends so far
    have hgen : t.generation.toNat = s.generation.toNat + es.countP ConnEvent.isFreed := by
      rw [story.generation, UInt32.toNat_add, UInt32.toNat_ofNat', Nat.add_mod_mod,
        Nat.mod_eq_of_lt hbefore]
    have hone : [e].countP ConnEvent.isFreed = 1 := by simp [hfreed]
    omega

theorem Once.allocated_le (h : Once i es s) (g : UInt32) : es.count (.allocated ⟨i, g⟩) ≤ 1 := by
  rw [h.allocated g]
  split <;> omega

theorem Once.freed_le (h : Once i es s) (g : UInt32) : es.count (.freed ⟨i, g⟩) ≤ 1 := by
  rw [h.freed g]
  split <;> omega

end Status

end Netstack
