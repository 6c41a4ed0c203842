/-
Accepting nets: a net together with the marking to start from and the marking to end in.
-/
import ProcessNet.Marking.Basic
import ProcessNet.Net.Basic

namespace ProcessNet

/-- A net with its initial and its final marking. -/
structure AcceptingNet where
  net : Net := {}
  initial : Marking := ∅
  final : Marking := ∅
deriving DecidableEq, Repr, Inhabited

end ProcessNet
