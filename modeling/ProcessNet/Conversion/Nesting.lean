/-
Subprocesses within their surroundings. A silent transition leads from the place in front of a
subprocess to all of its starts, and one from each of its normal ends to the place behind it. The
scope of a process is made of the places that belong to it; a subprocess that is done with hands
its places and transitions to the process around it, so that the scope of a process covers
everything nested in it.
-/
import ProcessNet.Conversion.Steps

namespace ProcessNet

/-- A subprocess that has been joined to its surroundings. -/
structure JoinedSubprocess where
  id : String
  /-- The process around it. -/
  parent : String
  /-- The place behind the subprocess. -/
  outPlace : PlaceId
  enter : TransitionId
  exits : List TransitionId
deriving Repr

namespace Construction

/-! ## Entries and exits -/

/-- The places in front of the normal ends directly in a process. -/
def normalEndPlaces (g : ProcessGraph) (process : String) : ConstructionM (List PlaceId) :=
  ((g.endsOf process).filter fun n => (g.node n).kind = .endEvent .normal).mapM (inPlace g)

/-- The name of the exit of a subprocess; exits are numbered if there are several. -/
def exitName (id parent : String) (count k : Nat) : String :=
  joinName ["t-end-subprocess", if count = 1 then id else s!"{id}#{k}", parent]

/-- Joins one subprocess to its surroundings. -/
def joinSubprocess (g : ProcessGraph) (n : NodeId) : ConstructionM JoinedSubprocess := do
  let id := (g.node n).id
  let parent := (g.node n).process
  let before ← inPlace g n
  let behind ← outPlace g n
  let starts ← (g.startsOf id).mapM (outPlace g)
  if starts.isEmpty then lacks g n .noStart
  let ends ← normalEndPlaces g id
  if ends.isEmpty then lacks g n .noNormalEnd
  let enter ← addSilentStep (joinName ["t-start-subprocess", id, parent]) parent [before] starts
  let exits ← ends.zipIdx.mapM fun (p, k) =>
    addSilentStep (exitName id parent ends.length k) parent [p] [behind]
  return { id, parent, outPlace := behind, enter, exits }

/-- Joins every subprocess to its surroundings, the innermost first. -/
def joinSubprocesses (g : ProcessGraph) : ConstructionM (List JoinedSubprocess) :=
  g.subprocessesInnermostFirst.mapM (joinSubprocess g)

/-! ## Scopes -/

/-- The live places that belong to a process; all of them for the root process. -/
def scopePlaces (g : ProcessGraph) (n : Net) (process : String) : List PlaceId :=
  (n.livePlaces.filter fun (_, place) => g.isRoot process || place.process = process).map (·.1)

/-- Lets a transition empty the places, except those that it takes tokens from. -/
def addResets (places : List PlaceId) (t : TransitionId) : ConstructionM Unit :=
  places.forM fun p => do
    unless (← get).net.hasArc (.input p t) do addArc (.reset p t)

/-- Lets everything that puts a token into `p` empty the places `targets`. -/
def clearOnEntry (p : PlaceId) (targets : List PlaceId) : ConstructionM Unit := do
  ((← get).net.producers p).forM (addResets targets)

/-- Hands the places and transitions of a subprocess to the process around it. -/
def absorb (s : JoinedSubprocess) : ConstructionM Unit :=
  modify fun c =>
    let place := fun (p : Place) => if p.process = s.id then { p with process := s.parent } else p
    let transition := fun (t : Transition) =>
      if t.process = s.id then { t with process := s.parent } else t
    { c with net := { c.net with
        places := c.net.places.mapEntries fun _ slot => slot.map place
        transitions := c.net.transitions.mapEntries fun _ slot => slot.map transition } }

end Construction

end ProcessNet
