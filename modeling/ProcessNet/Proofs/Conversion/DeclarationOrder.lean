/-
The order of declarations does not matter. Declarations in another order build a graph with other
numbers, gateway form keeps to that, and the construction reads nodes and flows in the order of their
ids. So the conversion answers the very same net with the same markings, or the same error.
-/
import ProcessNet.Proofs.Conversion.Renumbering
import ProcessNet.Proofs.Process.Build

namespace ProcessNet.ProcessGraph

open Construction

variable {σ : Equiv.Perm NodeId} {τ : Equiv.Perm FlowId} {g h : ProcessGraph}

theorem Renames.firstUnsupported?_eq (hr : Renames σ τ g h) (hd : h.Distinct) :
    h.firstUnsupported? = g.firstUnsupported?.map σ := by
  rw [firstUnsupported?, firstUnsupported?, hr.sortedNodes_eq hd, List.find?_map]
  refine congrArg (Option.map σ) (congrArg (List.find? · g.sortedNodes) (funext fun n => ?_))
  simp only [Function.comp, hr.node_kind]

/-- `construct` does the same for twins. -/
theorem construct_eq_of_twins (ht : Twins σ τ g h) (showEvents : Bool) :
    (h.construct showEvents).mapError (·.1) = (g.construct showEvents).mapError (·.1) := by
  have hstart : Renumbers τ (Construction.start g) (Construction.start h) :=
    ⟨by rw [Construction.start, Construction.start, ht.renames.name], rfl, rfl, rfl, fun _ => rfl⟩
  have hsame := ht.tallies_construct showEvents _ _ hstart
  simp only [ProcessGraph.construct]
  cases hg : Construction.construct g showEvents (Construction.start g) with
  | ok u c =>
    cases hh : Construction.construct h showEvents (Construction.start h) with
    | ok v d =>
      rw [hg, hh] at hsame
      cases hsame with
      | ok _ hcd => simp only [toAccepting, hcd.net, hcd.initial, hcd.final]
    | error e d =>
      rw [hg, hh] at hsame
      cases hsame
  | error e c =>
    cases hh : Construction.construct h showEvents (Construction.start h) with
    | ok v d =>
      rw [hg, hh] at hsame
      cases hsame
    | error e' d =>
      rw [hg, hh] at hsame
      cases hsame
      rfl

/-- `toAcceptingNet` answers the same for graphs that differ only in their numbers. -/
theorem toAcceptingNet_eq_of_matches (hm : Matches σ τ g h) (showEvents : Bool) :
    g.toAcceptingNet showEvents = h.toAcceptingNet showEvents := by
  rw [toAcceptingNet, toAcceptingNet, hm.renames.firstUnsupported?_eq hm.distinct']
  cases g.firstUnsupported? with
  | some n =>
    simp only [Option.map_some, hm.renames.node_id]
  | none =>
    change (g.normalize.mapError ConversionError.ofGatewayForm >>= _) =
      (h.normalize.mapError ConversionError.ofGatewayForm >>= _)
    cases hg : g.normalize with
    | error e =>
      have hboth := hg ▸ hm.normalize
      cases hh : h.normalize with
      | error e' =>
        rw [hh] at hboth
        cases hboth
        rfl
      | ok h' =>
        rw [hh] at hboth
        cases hboth
    | ok g' =>
      have hboth := hg ▸ hm.normalize
      cases hh : h.normalize with
      | error e' =>
        rw [hh] at hboth
        cases hboth
      | ok h' =>
        rw [hh] at hboth
        cases hboth with
        | ok hm' =>
          have ht : Twins σ τ g' h' := ⟨hm', (normal_normalize hm.linked hm.distinct hg).form⟩
          change ((g'.construct showEvents).mapError (·.1) >>= _) =
            ((h'.construct showEvents).mapError (·.1) >>= _)
          rw [construct_eq_of_twins ht showEvents]

end ProcessNet.ProcessGraph

namespace ProcessNet.ProcessDeclaration

/-- Two processes with the same id and name, whose nodes and flows are declared in different orders, are
converted by `toAcceptingNet` to the identical net with the identical markings, or fail with the
identical error. -/
theorem toAcceptingNet_eq_of_perm {d d' : ProcessDeclaration} {g g' : ProcessGraph}
    (hid : d'.processId = d.processId) (hname : d'.name = d.name)
    (hnodes : d.nodes.Perm d'.nodes) (hflows : d.flows.Perm d'.flows) (hg : d.build = .ok g)
    (hg' : d'.build = .ok g') (showEvents : Bool) :
    g.toAcceptingNet showEvents = g'.toAcceptingNet showEvents := by
  obtain ⟨σ, τ, hm⟩ := matches_of_build hid hname hnodes hflows hg hg'
  exact ProcessGraph.toAcceptingNet_eq_of_matches hm showEvents

/-- A task in a loop, its flows with and without a process of their own. -/
def repeating : ProcessDeclaration where
  processId := "p"
  name := "Repeating"
  nodes := [⟨"begin", none, .startEvent .normal, "p"⟩, ⟨"work", some "Work", .task, "p"⟩,
    ⟨"done", none, .endEvent .normal, "p"⟩]
  flows := [⟨"f1", none, .sequence, "begin", "work", none⟩,
    ⟨"f2", none, .sequence, "work", "done", some "p"⟩,
    ⟨"f3", none, .sequence, "work", "work", none⟩]

/-- The same process declared from its end. -/
def repeatingReversed : ProcessDeclaration :=
  { repeating with nodes := repeating.nodes.reverse, flows := repeating.flows.reverse }

theorem toAcceptingNet_repeating : ∃ g g', repeating.build = .ok g ∧
    repeatingReversed.build = .ok g' ∧ g ≠ g' ∧
    g.toAcceptingNet true = g'.toAcceptingNet true := by
  have hbuilds : ∀ d : ProcessDeclaration, (d.build.toOption).isSome → ∃ g, d.build = .ok g := by
    intro d hsome
    cases h : d.build with
    | ok g => exact ⟨g, rfl⟩
    | error e =>
      rw [h] at hsome
      cases hsome
  obtain ⟨g, hg⟩ := hbuilds repeating (by decide +kernel)
  obtain ⟨g', hg'⟩ := hbuilds repeatingReversed (by decide +kernel)
  have hne : repeating.build ≠ repeatingReversed.build := by decide +kernel
  have hid : repeatingReversed.processId = repeating.processId := rfl
  have hname : repeatingReversed.name = repeating.name := rfl
  have hnodes : repeating.nodes.Perm repeatingReversed.nodes := (List.reverse_perm _).symm
  have hflows : repeating.flows.Perm repeatingReversed.flows := (List.reverse_perm _).symm
  exact ⟨g, g', hg, hg', fun he => hne (by rw [hg, hg', he]),
    toAcceptingNet_eq_of_perm hid hname hnodes hflows hg hg' true⟩

end ProcessNet.ProcessDeclaration
