/-
Terminate end events. Whatever brings a token to one clears the process that it terminates, other
terminate ends apart; a silent transition then leaves that process.
-/
import ProcessNet.Conversion.Boundary

namespace ProcessNet.Construction

def terminationName (parts : List String) : String := joinName ("t-terminate-end" :: parts)

/-- Wires the terminate ends of a subprocess. -/
def terminateSubprocess (g : ProcessGraph) (s : JoinedSubprocess) : ConstructionM Unit := do
  let events := g.terminationsOf s.id
  let own ← events.mapM (inPlace g)
  (events.zip own).forM fun (n, p) => do
    let scope := scopePlaces g (← get).net s.id
    clearOnEntry p (scope.filter (· ∉ own))
    let _ ← addSilentStep (terminationName [(g.node n).id, s.id, s.parent]) s.parent
      [p] [s.outPlace]

/-- Wires the terminate ends of the root process. -/
def terminateRoot (g : ProcessGraph) : ConstructionM Unit := do
  let events := g.terminationsOf g.processId
  let own ← events.mapM (inPlace g)
  (events.zip own).forM fun (n, p) => do
    match (← get).rootSink with
    | none => lacks g n .rootWithoutNormalEnd
    | some sink =>
      let scope := scopePlaces g (← get).net g.processId
      clearOnEntry p (scope.filter (· ∉ own))
      let _ ← addSilentStep (terminationName [(g.node n).id, g.processId]) g.processId [p] [sink]

end ProcessNet.Construction
