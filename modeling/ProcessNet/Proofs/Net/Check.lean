/-
What the check of a net finds, on any data. It looks for each arc in the two rows of its ends and then only
counts row entries; it looks up the name of each live node and then only counts names. That is enough: as
long as no arc is listed twice, the counts leave no room for a stale or repeated entry, for a row of its own
beyond all nodes, or for a name that two nodes share.
-/
import Mathlib.Data.Set.Function
import ProcessNet.Proofs.Net.Naming

namespace ProcessNet

open Identifier

/-! ## Names and the nodes in use -/

namespace NameIndex

variable {ι α : Type} [Identifier ι]

/-- The names lead one to one to the items in use, each item being found under its own name. -/
structure OneToOne (x : NameIndex ι) (slots : Arena ι (Option α)) (name : α → String) : Prop where
  nodup : (x.entries.map (·.1)).Nodup
  find : ∀ i a, slots.get? i = some (some a) → x.find? (name a) = some i
  bijOn : Set.BijOn x.find? {s | x.contains s} {o | ∃ i a, o = some i ∧ slots.get? i = some (some a)}

variable {x : NameIndex ι} {slots : Arena ι (Option α)} {name : α → String}

omit [Identifier ι] in
theorem find?_eq_some_iff (hnodup : (x.entries.map (·.1)).Nodup) {s : String} {i : ι} :
    x.find? s = some i ↔ (s, i) ∈ x.entries := by
  refine ⟨mem_of_find?, fun hmem => ?_⟩
  cases hfind : x.find? s with
  | none => exact absurd rfl (bne_iff_ne.1 (List.lookup_eq_none_iff.1 hfind (s, i) hmem))
  | some j =>
    have hsame := List.inj_on_of_nodup_map hnodup (mem_of_find? hfind) hmem rfl
    exact congrArg some (congrArg Prod.snd hsame)

theorem Indexes.oneToOne (h : x.Indexes slots name) : x.OneToOne slots name where
  nodup := h.nodup
  find := h.find
  bijOn := by
    refine ⟨fun s hs => ?_, fun s hs s' _ he => ?_, ?_⟩
    · obtain ⟨i, hi⟩ := Option.isSome_iff_exists.1 hs
      obtain ⟨a, ha, -⟩ := h.find?_iff.1 hi
      exact ⟨i, a, hi, ha⟩
    · obtain ⟨i, hi⟩ := Option.isSome_iff_exists.1 hs
      obtain ⟨a, ha, hname⟩ := h.find?_iff.1 hi
      obtain ⟨b, hb, hname'⟩ := h.find?_iff.1 (he.symm.trans hi)
      cases ha.symm.trans hb
      exact hname.symm.trans hname'
    · rintro _ ⟨i, a, rfl, ha⟩
      have hfind := h.find i a ha
      exact ⟨name a, Option.isSome_iff_exists.2 ⟨i, hfind⟩, hfind⟩

/-- Names that lead one to one to the items in use are as many. -/
theorem OneToOne.indexes (h : x.OneToOne slots name) : x.Indexes slots name := by
  have hmem : ∀ e, e ∈ x.entries ↔ e ∈ named slots name := by
    rintro ⟨s, i⟩
    rw [mem_named, ← find?_eq_some_iff h.nodup]
    constructor
    · intro hfind
      have hs : x.contains s := Option.isSome_iff_exists.2 ⟨i, hfind⟩
      obtain ⟨j, a, hj, ha⟩ := h.bijOn.mapsTo hs
      cases hj.symm.trans hfind
      have hname := h.find i a ha
      have hcontains : x.contains (name a) := Option.isSome_iff_exists.2 ⟨i, hname⟩
      exact ⟨a, ha, h.bijOn.injOn hcontains hs (hname.trans hfind.symm)⟩
    · rintro ⟨a, ha, rfl⟩
      exact h.find i a ha
  have hperm : x.entries.Perm (named slots name) :=
    (List.perm_ext_iff_of_nodup (.of_map _ h.nodup) (.of_map _ nodup_named)).2 hmem
  exact ⟨h.find, hperm.length_eq.trans (Arena.length_filterMap_entries slots fun i a => (name a, i))⟩

end NameIndex

/-! ## The check -/

namespace Net

/-- The parts of the net agree, each row and each name being told by itself. -/
structure Agrees (n : Net) : Prop where
  placeRow : ∀ p, (n.incidence.placeArcs p).Nodup ∧ (n.incidence.placeArcs p).Perm
    ((n.arcs.filter (·.place = p)).map fun a => (a.transition, a.kind))
  transitionRow : ∀ t, (n.incidence.transitionArcs t).Nodup ∧ (n.incidence.transitionArcs t).Perm
    ((n.arcs.filter (·.transition = t)).map fun a => (a.place, a.kind))
  live : ∀ a ∈ n.arcs, (∃ x, n.place? a.place = some x) ∧ ∃ x, n.transition? a.transition = some x
  placeNames : n.placeNames.OneToOne n.places (·.name)
  transitionNames : n.transitionNames.OneToOne n.transitions (·.name)

theorem consistent_iff_agrees {n : Net} (hnodup : n.arcs.Nodup) : n.Consistent ↔ n.Agrees := by
  constructor
  · intro h
    exact ⟨fun p => ⟨h.mirrored.nodup_placeArcs p, h.mirrored.place p⟩,
      fun t => ⟨h.mirrored.nodup_transitionArcs t, h.mirrored.transition t⟩,
      fun a ha => ⟨hasPlace_iff.1 (h.livePlace a ha), hasTransition_iff.1 (h.liveTransition a ha)⟩,
      h.placeNames.oneToOne, h.transitionNames.oneToOne⟩
  · intro h
    exact ⟨⟨hnodup, fun p => (h.placeRow p).2, fun t => (h.transitionRow t).2⟩,
      fun a ha => hasPlace_iff.2 (h.live a ha).1, fun a ha => hasTransition_iff.2 (h.live a ha).2,
      h.placeNames.indexes, h.transitionNames.indexes⟩

/-- The arcs of a net are a set, so they are listed once each, also in whatever net is decoded.
`checkConsistency` passes just the nets in which every row lists the arcs of its node once each, arcs
join live nodes, and names lead one to one to live nodes. -/
theorem checkConsistency_eq_ok_iff {n : Net} (hnodup : n.arcs.Nodup) :
    n.checkConsistency = .ok () ↔ n.Agrees :=
  (consistent_iff_checkConsistency hnodup).symm.trans (consistent_iff_agrees hnodup)

/-- A net with a removed place. Rows and names stand in another order than arcs and nodes, and there is a
row more than there are slots. -/
def shuffled : Net where
  places := ⟨[some { name := "p" }, none, some { name := "q" }]⟩
  transitions := ⟨[some { name := "t" }]⟩
  incidence := {
    arcs := [.input ⟨0⟩ ⟨0⟩, .output ⟨0⟩ ⟨2⟩, .inhibitor ⟨2⟩ ⟨0⟩]
    byPlace := ⟨[[(⟨0⟩, .input)], [], [(⟨0⟩, .inhibitor), (⟨0⟩, .output)], []]⟩
    byTransition := ⟨[[(⟨2⟩, .inhibitor), (⟨0⟩, .input), (⟨2⟩, .output)]]⟩ }
  placeNames := ⟨[("q", ⟨2⟩), ("p", ⟨0⟩)]⟩
  transitionNames := ⟨[("t", ⟨0⟩)]⟩

/-- The same net with as many row entries as before, but one twice and one missing. -/
def doubled : Net :=
  { shuffled with
    incidence := { shuffled.incidence with
      byPlace := ⟨[[(⟨0⟩, .input)], [], [(⟨0⟩, .inhibitor), (⟨0⟩, .inhibitor)], []]⟩ } }

/-- The first of these nets passes the check, so its parts agree; the other one does not. -/
theorem shuffled_agrees : shuffled.arcs.Nodup ∧ shuffled.checkConsistency = .ok () ∧
    shuffled.Agrees ∧ doubled.arcs.Nodup ∧ ¬ doubled.Agrees := by
  have hok : shuffled.checkConsistency = .ok () := by decide +kernel
  have hfails : doubled.checkConsistency ≠ .ok () := by decide +kernel
  exact ⟨by decide, hok, (checkConsistency_eq_ok_iff (by decide)).1 hok, by decide,
    fun h => hfails ((checkConsistency_eq_ok_iff (by decide)).2 h)⟩

end Net

end ProcessNet
