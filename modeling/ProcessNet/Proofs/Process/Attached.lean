/-
The flows at a node in gateway form. A gateway keeps its flows. Any other node has a flow on a side if it
had one there before, and the gateways that are new have flows on both sides.
-/
import ProcessNet.Proofs.Process.Detour

namespace ProcessNet.ProcessGraph

open Identifier

variable {g g' g'' : ProcessGraph} {n m : NodeId}

/-! ## Sides of nodes -/

/-- `g'` has the nodes of `g`, perhaps with flows led through new gateways. -/
structure Attached (g g' : ProcessGraph) : Prop where
  refines : Refines g g'
  gateway : ∀ m, index m < g.nodes.size → (g.node m).kind.isGateway →
    (g'.node m).incoming.Perm (g.node m).incoming ∧ (g'.node m).outgoing.Perm (g.node m).outgoing
  incoming : ∀ m, index m < g.nodes.size → ((g'.node m).incoming = [] ↔ (g.node m).incoming = [])
  outgoing : ∀ m, index m < g.nodes.size → ((g'.node m).outgoing = [] ↔ (g.node m).outgoing = [])
  fresh : ∀ m, g.nodes.size ≤ index m → index m < g'.nodes.size →
    (g'.node m).incoming ≠ [] ∧ (g'.node m).outgoing ≠ []

theorem Attached.refl (g : ProcessGraph) : Attached g g :=
  ⟨.refl g, fun _ _ _ => ⟨.refl _, .refl _⟩, fun _ _ => Iff.rfl, fun _ _ => Iff.rfl,
    fun _ h h' => absurd h' (Nat.not_lt.2 h)⟩

theorem Attached.trans (h : Attached g g') (k : Attached g' g'') : Attached g g'' := by
  have hlt : ∀ m : NodeId, index m < g.nodes.size → index m < g'.nodes.size :=
    fun m hm => Nat.lt_of_lt_of_le hm h.refines.size
  refine ⟨h.refines.trans k.refines, fun m hm hkind => ?_,
    fun m hm => (k.incoming m (hlt m hm)).trans (h.incoming m hm),
    fun m hm => (k.outgoing m (hlt m hm)).trans (h.outgoing m hm), fun m hm hm' => ?_⟩
  · obtain ⟨hin, hout⟩ := h.gateway m hm hkind
    obtain ⟨hin', hout'⟩ := k.gateway m (hlt m hm) ((h.refines.id_eq hm).2.2.symm ▸ hkind)
    exact ⟨hin'.trans hin, hout'.trans hout⟩
  · by_cases hold : index m < g'.nodes.size
    · obtain ⟨hin, hout⟩ := h.fresh m hm hold
      exact ⟨fun he => hin ((k.incoming m hold).1 he), fun he => hout ((k.outgoing m hold).1 he)⟩
    · exact k.fresh m (Nat.le_of_not_lt hold) hm'

theorem perm_nil_iff {α : Type} {l l' : List α} (h : l.Perm l') : l = [] ↔ l' = [] :=
  ⟨fun he => (he ▸ h).symm.eq_nil, fun he => (he ▸ h).eq_nil⟩

theorem attached_joinIncoming (hg : g.Linked) (hn : index n < g.nodes.size)
    (hkind : (g.node n).kind.isGateway = false) (hlen : 1 < (g.node n).incoming.length)
    (h : g.joinIncoming n = .ok g') : Attached g g' := by
  have hsome : (g.node n).incoming ≠ [] := List.ne_nil_of_length_pos (Nat.lt_of_succ_lt hlen)
  refine ⟨refines_joinIncoming h, fun m hm hgateway => ?_, fun m hm => ?_,
    fun m hm => perm_nil_iff (perm_outgoing_of_join hg hn h hm), fun m hm hm' => ?_⟩
  · have hmn : m ≠ n := by
      rintro rfl
      rw [hkind] at hgateway
      cases hgateway
    exact ⟨perm_incoming_of_join hg hn h hm hmn, perm_outgoing_of_join hg hn h hm⟩
  · by_cases hmn : m = n
    · subst hmn
      have hnew := (mem_incoming_of_join hg hn h).2 rfl
      exact iff_of_false (List.ne_nil_of_mem hnew) hsome
    · exact perm_nil_iff (perm_incoming_of_join hg hn h hm hmn)
  · rw [(rerouted_joinIncoming hg hn h).nodeCount, Arena.lt_succ_iff_next] at hm'
    obtain rfl := hm'.resolve_left (Nat.not_lt.2 hm)
    obtain ⟨f, hf⟩ := List.exists_mem_of_ne_nil _ hsome
    exact ⟨List.ne_nil_of_mem ((mem_incoming_gateway_of_join hg hn h).2 hf),
      List.ne_nil_of_mem ((mem_outgoing_gateway_of_join hg hn h).2 rfl)⟩

theorem attached_splitOutgoing (hg : g.Linked) (hn : index n < g.nodes.size)
    (hkind : (g.node n).kind.isGateway = false) (hlen : 1 < (g.node n).outgoing.length)
    (h : g.splitOutgoing n = .ok g') : Attached g g' := by
  have hsome : (g.node n).outgoing ≠ [] := List.ne_nil_of_length_pos (Nat.lt_of_succ_lt hlen)
  refine ⟨refines_splitOutgoing h, fun m hm hgateway => ?_,
    fun m hm => perm_nil_iff (perm_incoming_of_split hg hn h hm), fun m hm => ?_, fun m hm hm' => ?_⟩
  · have hmn : m ≠ n := by
      rintro rfl
      rw [hkind] at hgateway
      cases hgateway
    exact ⟨perm_incoming_of_split hg hn h hm, perm_outgoing_of_split hg hn h hm hmn⟩
  · by_cases hmn : m = n
    · subst hmn
      have hnew := (mem_outgoing_of_split hg hn h).2 rfl
      exact iff_of_false (List.ne_nil_of_mem hnew) hsome
    · exact perm_nil_iff (perm_outgoing_of_split hg hn h hm hmn)
  · rw [(rerouted_splitOutgoing hg hn h).nodeCount, Arena.lt_succ_iff_next] at hm'
    obtain rfl := hm'.resolve_left (Nat.not_lt.2 hm)
    obtain ⟨f, hf⟩ := List.exists_mem_of_ne_nil _ hsome
    exact ⟨List.ne_nil_of_mem ((mem_incoming_gateway_of_split hg hn h).2 rfl),
      List.ne_nil_of_mem ((mem_outgoing_gateway_of_split hg hn h).2 hf)⟩

theorem attached_normalize (hg : g.Linked) (hd : g.Distinct) (h : g.normalize = .ok g') : Attached g g' :=
  keeps_normalize (P := Attached g)
    (fun _ _ _ hl hn hkind hlen hP hjoin => hP.trans (attached_joinIncoming hl hn hkind hlen hjoin))
    (fun _ _ _ hl hn hkind hlen hP hsplit => hP.trans (attached_splitOutgoing hl hn hkind hlen hsplit))
    hg hd (.refl g) h

end ProcessNet.ProcessGraph
