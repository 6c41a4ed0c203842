/-
What is handed on arrives: the JSON text and the RON text of an accepting net whose parts agree are read
back as that net, with its empty slots, the order of its arcs, rows and names, and both markings.
-/
import ProcessNet.Net.Handoff
import ProcessNet.Proofs.Format.Json.Document
import ProcessNet.Proofs.Format.Ron.Document
import ProcessNet.Proofs.Net.Document

namespace ProcessNet.AcceptingNet

/-- `ofJson` reads the text of `toJson` as the net that it was made of, and the check that follows
accepts it. -/
theorem ofJson_toJson {a : AcceptingNet} (hcheck : a.net.checkConsistency = .ok ()) (h : a.Fits) :
    ofJson a.toJson = .ok a := by
  have hnet : a.net.Consistent := (Net.consistent_iff_checkConsistency h.net.arcs).2 hcheck
  obtain ⟨hspelled, hdecode⟩ := conveys Json.format hnet h
  have hread : readJson a.toJson = .ok a := by
    rw [readJson, toJson, Json.parse?_pretty hspelled, Option.bind_some, hdecode _ rfl]
  have hchecked : a.checked = .ok a := by rw [checked, hcheck]
  rw [ofJson, hread]
  exact hchecked

/-- A net in which the name of a removed place is borne again, with characters that a text has to escape and
with a count that takes all bits. -/
def reissued : AcceptingNet where
  net := {
    name := "a \"b\" \\ c\n\x01\x7f"
    places := ⟨[none, some { name := "p\u2028é", role := .error "", process := "🜁" },
      some { name := "", role := .sink }]⟩
    transitions := ⟨[some { name := "null", label := some "null" }, none, some { name := "t" }]⟩
    incidence := {
      arcs := [⟨⟨2⟩, ⟨0⟩, .output⟩, ⟨⟨1⟩, ⟨0⟩, .reset⟩, ⟨⟨1⟩, ⟨2⟩, .inhibitor⟩]
      byPlace := ⟨[[], [(⟨2⟩, .inhibitor), (⟨0⟩, .reset)], [(⟨0⟩, .output)]]⟩
      byTransition := ⟨[[(⟨2⟩, .output), (⟨1⟩, .reset)], [], [(⟨1⟩, .inhibitor)]]⟩ }
    placeNames := ⟨[("", ⟨2⟩), ("p\u2028é", ⟨1⟩)]⟩
    transitionNames := ⟨[("t", ⟨2⟩), ("null", ⟨0⟩)]⟩ }
  initial := ⟨[(⟨1⟩, maxCount), (⟨10⟩, 0)]⟩
  final := ⟨[(⟨2⟩, 1)]⟩

theorem fits_reissued : reissued.Fits where
  net := ⟨by decide, by decide, by decide⟩
  initial := ⟨by decide, by decide, by decide⟩
  final := ⟨by decide, by decide, by decide⟩

theorem ofJson_toJson_reissued : ofJson reissued.toJson = .ok reissued :=
  ofJson_toJson (by decide) fits_reissued

/-- `ofRon`, too, reads the text of `toRon` as the net that it was made of. -/
theorem ofRon_toRon {a : AcceptingNet} (hcheck : a.net.checkConsistency = .ok ()) (h : a.Fits) :
    ofRon a.toRon = .ok a := by
  have hnet : a.net.Consistent := (Net.consistent_iff_checkConsistency h.net.arcs).2 hcheck
  obtain ⟨hspelled, hdecode⟩ := conveys Ron.format hnet h
  have hread : readRon a.toRon = .ok a := by
    rw [readRon, toRon, Ron.parse?_pretty hspelled, Option.map_some, Option.bind_some,
      hdecode _ ⟨rfl, rfl, rfl⟩]
  have hchecked : a.checked = .ok a := by rw [checked, hcheck]
  rw [ofRon, hread]
  exact hchecked

theorem ofRon_toRon_reissued : ofRon reissued.toRon = .ok reissued :=
  ofRon_toRon (by decide) fits_reissued

end ProcessNet.AcceptingNet
