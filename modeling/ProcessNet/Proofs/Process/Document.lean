/-
The document of a graph tells all of it. Declarations are read back as they were written, in every format,
and the declarations of a graph that was built, in gateway form or not, build the same graph again.
-/
import Mathlib.Data.List.Permutation
import ProcessNet.Proofs.Format.Json.Document
import ProcessNet.Proofs.Process.Region
import ProcessNet.Proofs.Process.Sound

namespace ProcessNet

open DocumentReader DocumentWriter Identifier

variable {ω ρ : Type} [DocumentWriter ω] [DocumentReader ρ] (F : Format ω ρ)

/-! ## Kinds -/

theorem EventTrigger.conveys (t : EventTrigger) : F.Conveys t.encode EventTrigger.decode? t := by
  cases t <;> exact F.conveys_bare (by decide) (by decide)

theorem BoundaryTrigger.conveys (t : BoundaryTrigger) :
    F.Conveys t.encode BoundaryTrigger.decode? t := by
  cases t <;> exact F.conveys_bare (by decide) (by decide)

theorem GatewayKind.conveys (k : GatewayKind) : F.Conveys k.encode GatewayKind.decode? k := by
  cases k <;> exact F.conveys_bare (by decide) (by decide)

theorem GatewayDirection.conveys (d : GatewayDirection) :
    F.Conveys d.encode GatewayDirection.decode? d := by
  cases d <;> exact F.conveys_bare (by decide) (by decide)

theorem FlowKind.conveys (k : FlowKind) : F.Conveys k.encode FlowKind.decode? k := by
  cases k <;> exact F.conveys_bare (by decide) (by decide)

namespace NodeKind

variable {F} {name : String} {kind : NodeKind}

theorem conveys_holding {w : ω} (hword : isWord name) (h : F.Conveys w (decodeHolding? name) kind) :
    F.Conveys (holding name w) NodeKind.decode? kind := by
  refine ⟨F.fit_holding _ _ hword h.1, fun r hr => ?_⟩
  obtain ⟨r', hr', hread⟩ := F.reads_holding _ _ r hr
  rw [decode?, hr']
  exact h.2 r' hread

theorem conveys_holdingFields {l : List (String × ω)} (hword : isWord name)
    (hl : FitFields F.Fit l) (h : F.Conveys (ofFields l) (decodeHolding? name) kind) :
    F.Conveys (holdingFields name l) NodeKind.decode? kind := by
  refine ⟨F.fit_holdingFields _ _ hword hl, fun r hr => ?_⟩
  obtain ⟨r', hr', hread⟩ := F.reads_holdingFields _ _ r hr
  rw [decode?, hr']
  exact h.2 r' hread

theorem conveys (F : Format ω ρ) (hdepth : ∀ depth ∈ kind.depth?, fits 32 depth) :
    F.Conveys kind.encode NodeKind.decode? kind := by
  cases kind with
  | task =>
    refine ⟨F.fit_bare _ (by decide), fun r hr => ?_⟩
    rw [decode?, F.reads_bare _ r hr]
    rfl
  | subprocess d =>
    have hd := F.conveys_nat (by decide) (hdepth d rfl)
    refine conveys_holdingFields (by decide) (Format.fit_entries ["depth"] rfl (by decide) hd.1)
      (F.conveys_fields rfl (by decide) (by decide) hd.1 fun f hf => ?_)
    simp [hf.required (k := "depth") (by simp) hd]
  | startEvent t => exact conveys_holding (by decide) ((t.conveys F).map NodeKind.startEvent)
  | endEvent t => exact conveys_holding (by decide) ((t.conveys F).map NodeKind.endEvent)
  | catchEvent t => exact conveys_holding (by decide) ((t.conveys F).map NodeKind.catchEvent)
  | throwEvent t => exact conveys_holding (by decide) ((t.conveys F).map NodeKind.throwEvent)
  | boundaryEvent t a =>
    have ht := t.conveys F
    have ha := F.conveys_text a
    refine conveys_holdingFields (by decide)
      (Format.fit_entries ["trigger", "activity"] rfl (by decide) ⟨ht.1, ha.1⟩)
      (F.conveys_fields rfl (by decide) (by decide) ⟨ht.1, ha.1⟩ fun f hf => ?_)
    simp [hf.required (k := "trigger") (by simp) ht, hf.required (k := "activity") (by simp) ha]
  | gateway k d =>
    have hk := k.conveys F
    have hd := d.conveys F
    refine conveys_holdingFields (by decide)
      (Format.fit_entries ["kind", "direction"] rfl (by decide) ⟨hk.1, hd.1⟩)
      (F.conveys_fields rfl (by decide) (by decide) ⟨hk.1, hd.1⟩ fun f hf => ?_)
    simp [hf.required (k := "kind") (by simp) hk, hf.required (k := "direction") (by simp) hd]

end NodeKind

/-! ## Declarations -/

theorem ofOptionalText_eq_offer (s : Option String) :
    (ofOptionalText s : ω) = Format.offer ofText s := by
  cases s <;> rfl

theorem NodeDeclaration.conveys {n : NodeDeclaration}
    (hdepth : ∀ depth ∈ n.kind.depth?, fits 32 depth) :
    F.Conveys n.encode NodeDeclaration.decode? n := by
  have hid := F.conveys_text n.id
  have hname : ∀ s ∈ n.name, F.Conveys (ofText s) toText? s := fun s _ => F.conveys_text s
  have hkind := NodeKind.conveys F hdepth
  have hprocess := F.conveys_text n.process
  rw [encode, ofOptionalText_eq_offer]
  refine F.conveys_fields rfl (by decide) (by decide)
    ⟨hid.1, Format.fit_offer fun s hs => (hname s hs).1, hkind.1, hprocess.1⟩ fun f hf => ?_
  simp [hf.required (k := "id") (by simp) hid,
    hf.optional (k := "name") (by simp) hname fun s _ => F.text_ne_absent s,
    hf.required (k := "kind") (by simp) hkind, hf.required (k := "process") (by simp) hprocess]

/-- A flow is read back as it was written if it has a process of its own. -/
theorem FlowDeclaration.conveys {x : FlowDeclaration} (hx : x.process.isSome) :
    F.Conveys x.encode FlowDeclaration.decode? x := by
  obtain ⟨id, name, kind, source, target, process⟩ := x
  obtain ⟨process, rfl⟩ := Option.isSome_iff_exists.1 hx
  have hid := F.conveys_text id
  have hname : ∀ s ∈ name, F.Conveys (ofText s) toText? s := fun s _ => F.conveys_text s
  have hkind := kind.conveys F
  have hsource := F.conveys_text source
  have htarget := F.conveys_text target
  have hprocess := F.conveys_text process
  rw [encode, ofOptionalText_eq_offer]
  refine F.conveys_fields rfl (by decide) (by decide)
    ⟨hid.1, Format.fit_offer fun s hs => (hname s hs).1, hkind.1, hsource.1, htarget.1, hprocess.1⟩
    fun f hf => ?_
  simp [hf.required (k := "id") (by simp) hid,
    hf.optional (k := "name") (by simp) hname fun s _ => F.text_ne_absent s,
    hf.required (k := "kind") (by simp) hkind, hf.required (k := "source") (by simp) hsource,
    hf.required (k := "target") (by simp) htarget, hf.required (k := "process") (by simp) hprocess]

namespace ProcessDeclaration

theorem conveys {d : ProcessDeclaration}
    (hnodes : ∀ n ∈ d.nodes, ∀ depth ∈ n.kind.depth?, fits 32 depth)
    (hflows : ∀ f ∈ d.flows, f.process.isSome) :
    F.Conveys d.encode ProcessDeclaration.decode? d := by
  have hid := F.conveys_text d.processId
  have hname := F.conveys_text d.name
  have hnodes := F.conveys_list fun n hn => NodeDeclaration.conveys F (hnodes n hn)
  have hflows := F.conveys_list fun f hf => FlowDeclaration.conveys F (hflows f hf)
  refine F.conveys_fields rfl (by decide) (by decide) ⟨hid.1, hname.1, hnodes.1, hflows.1⟩
    fun f hf => ?_
  simp [hf.required (k := "process_id") (by simp) hid, hf.required (k := "name") (by simp) hname,
    hf.required (k := "nodes") (by simp) hnodes, hf.required (k := "flows") (by simp) hflows]

end ProcessDeclaration

/-! ## Graphs -/

namespace ProcessGraph

open ProcessDeclaration

variable {g g' : ProcessGraph}

/-- The depths that the graph shows take no more bits than a document gives them. -/
def Fits (g : ProcessGraph) : Prop :=
  ∀ x ∈ g.nodes.items, ∀ depth ∈ x.kind.depth?, fits 32 depth

instance : Decidable g.Fits :=
  inferInstanceAs (Decidable (∀ x ∈ g.nodes.items, ∀ depth ∈ x.kind.depth?, fits 32 depth))

/-- The nodes that `normalize` adds have no depth. -/
theorem Fits.normalize (hg : g.Fits) (h : g.normalize = .ok g') : g'.Fits := by
  have hrefines := refines_normalize h
  intro x hx depth hdepth
  obtain ⟨i, hi, rfl⟩ := List.mem_iff_getElem.1 hx
  rw [← node_mk hi] at hdepth
  rcases Nat.lt_or_ge i g.nodes.size with hlt | hle
  · have hsame : (g'.node ⟨i⟩).kind = (g.node ⟨i⟩).kind :=
      congrArg (·.kind) (hrefines.node ⟨i⟩ hlt)
    rw [hsame, node_mk hlt] at hdepth
    exact hg _ (List.getElem_mem hlt) depth hdepth
  · obtain ⟨direction, hkind⟩ := hrefines.gateway ⟨i⟩ hle hi
    rw [hkind] at hdepth
    cases hdepth

/-- `ofJson` reads the document that `toJson` makes of a sound graph. -/
theorem Sound.ofJson_eq (hg : g.Sound) (hfits : g.Fits) : ofJson g.toJson = .ok g := by
  obtain ⟨hspelled, hdecode⟩ := ProcessDeclaration.conveys Json.format (d := ofGraph g)
    (List.forall_mem_map.2 hfits) (List.forall_mem_map.2 fun _ _ => rfl)
  simp only [ofJson, toJson, Json.first?_compact hspelled, hdecode _ rfl, hg.build, if_true]

end ProcessGraph

/-! ## Nothing is lost -/

namespace ProcessDeclaration

variable {d : ProcessDeclaration} {g : ProcessGraph}

/-- Nothing is left to fill in where every flow has a process of its own. -/
theorem map_completed (h : ∀ f ∈ d.flows, f.process.isSome) : d.flows.map d.completed = d.flows := by
  refine (List.map_congr_left fun f hf => ?_).trans (List.map_id _)
  obtain ⟨process, hprocess⟩ := Option.isSome_iff_exists.1 (h f hf)
  rw [completed, hprocess, Option.getD_some, ← hprocess]
  rfl

/-- `ofJson` reads a graph that was built, and the same graph in gateway form, back from the document
that `toJson` makes. Where the graph was built from a document, with the process of each flow told, it
gives that document back, with each subprocess as deep as it is nested. -/
theorem documents_of_build (h : d.build = .ok g) (hfits : g.Fits) :
    ProcessGraph.ofJson g.toJson = .ok g ∧
    (∀ normal, g.normalize = .ok normal → ProcessGraph.ofJson normal.toJson = .ok normal) ∧
    ((∀ f ∈ d.flows, f.process.isSome) → ∃ depth : String → Nat,
      (∀ n ∈ d.nodes, n.kind.isSubprocess → d.Nested n.id (depth n.id)) ∧
      ofGraph g =
        { d with nodes := d.nodes.map fun n => { n with kind := n.kind.atDepth (depth n.id) } }) := by
  have hsound := sound_of_build h
  have hw := wellFormed_of_build h
  refine ⟨hsound.ofJson_eq hfits,
    fun normal hn => (hsound.normalize hn).ofJson_eq (hfits.normalize hn), fun hflows => ?_⟩
  refine ⟨fun id => (d.depth? id).getD 0, fun n hn hkind => ?_, ?_⟩
  · obtain ⟨depth, hdepth⟩ := hw.nested n hn hkind
    simpa only [(depth?_eq_some_iff hw.ids hw.root).2 hdepth, Option.getD_some] using hdepth
  · rw [ofGraph_of_build h, map_completed hflows]

/-- A retried task inside two subprocesses, the inner one declared first and at a wrong depth. -/
def retried : ProcessDeclaration where
  processId := "ro\"ot"
  name := "a \\ é\n"
  nodes := [⟨"inner", none, .subprocess 9, "outer"⟩, ⟨"outer", some "", .subprocess 0, "ro\"ot"⟩,
    ⟨"s", none, .startEvent .message, "inner"⟩, ⟨"t", some "🜁", .task, "inner"⟩,
    ⟨"late", none, .boundaryEvent .error "outer", "ro\"ot"⟩]
  flows := [⟨"f", none, .sequence, "s", "t", some "inner"⟩,
    ⟨"again", some "null", .sequence, "t", "t", some "outer"⟩]

def retriedGraph : ProcessGraph where
  processId := "ro\"ot"
  name := "a \\ é\n"
  nodes := ⟨[
    { id := "inner", name := none, kind := .subprocess 2, process := "outer" },
    { id := "outer", name := some "", kind := .subprocess 1, process := "ro\"ot" },
    { id := "s", name := none, kind := .startEvent .message, process := "inner", outgoing := [⟨0⟩] },
    { id := "t", name := some "🜁", kind := .task, process := "inner"
      incoming := [⟨0⟩, ⟨1⟩], outgoing := [⟨1⟩] },
    { id := "late", name := none, kind := .boundaryEvent .error "outer", process := "ro\"ot" }]⟩
  flows := ⟨[
    { id := "f", name := none, kind := .sequence, source := ⟨2⟩, target := ⟨3⟩, process := "inner" },
    { id := "again", name := some "null", kind := .sequence, source := ⟨3⟩, target := ⟨3⟩
      process := "outer" }]⟩

theorem normalize_retried :
    ∃ normal, retriedGraph.normalize = .ok normal ∧ normal.nodes.size = 6 := by
  have hsorted : retriedGraph.sortedNodes = [⟨0⟩, ⟨4⟩, ⟨1⟩, ⟨2⟩, ⟨3⟩] := by cbv
  have hsize : (retriedGraph.normalize.toOption.map (·.nodes.size)) = some 6 := by
    rw [ProcessGraph.normalize, hsorted]
    decide +kernel
  cases h : retriedGraph.normalize with
  | error e => rw [h] at hsize; cases hsize
  | ok normal => rw [h] at hsize; exact ⟨normal, rfl, Option.some.inj hsize⟩

theorem documents_of_build_retried :
    retried.build = .ok retriedGraph ∧
    ProcessGraph.ofJson retriedGraph.toJson = .ok retriedGraph ∧
    (∃ normal, retriedGraph.normalize = .ok normal ∧ normal.nodes.size = 6 ∧
      ProcessGraph.ofJson normal.toJson = .ok normal) ∧
    ∃ depth : String → Nat,
      (∀ n ∈ retried.nodes, n.kind.isSubprocess → retried.Nested n.id (depth n.id)) ∧
      ofGraph retriedGraph = { retried with
        nodes := retried.nodes.map fun n => { n with kind := n.kind.atDepth (depth n.id) } } := by
  have hbuild : retried.build = .ok retriedGraph := by decide +kernel
  obtain ⟨hread, hnormal, hback⟩ := documents_of_build hbuild (by decide +kernel)
  obtain ⟨normal, hnormalize, hsize⟩ := normalize_retried
  exact ⟨hbuild, hread, ⟨normal, hnormalize, hsize, hnormal normal hnormalize⟩, hback (by decide)⟩

end ProcessDeclaration

end ProcessNet
