/-
The size of a net: how many places, transitions and arcs it has, compared in this order.
-/
import ProcessNet.Net.Basic

namespace ProcessNet

/-- The numbers of places, transitions and arcs. -/
structure NetSize where
  places : Nat
  transitions : Nat
  arcs : Nat
deriving DecidableEq, Repr, Inhabited

namespace NetSize

/-- The text of a size. -/
def text (s : NetSize) : String := s!"|P|={s.places} |T|={s.transitions} |F|={s.arcs}"

/-- Places count first, then transitions, then arcs. -/
def compare (a b : NetSize) : Ordering :=
  (Ord.compare a.places b.places).then
    ((Ord.compare a.transitions b.transitions).then (Ord.compare a.arcs b.arcs))

/-- Smaller in places, or else in transitions, or else in arcs. -/
def Smaller (a b : NetSize) : Prop :=
  a.places < b.places ∨ a.places = b.places ∧
    (a.transitions < b.transitions ∨ a.transitions = b.transitions ∧ a.arcs < b.arcs)

instance (a b : NetSize) : Decidable (Smaller a b) := by
  unfold Smaller
  infer_instance

theorem smaller_irrefl (x : NetSize) : ¬ x.Smaller x := by
  simp only [Smaller]
  omega

theorem Smaller.trans {x y z : NetSize} (h : x.Smaller y) (h' : y.Smaller z) : x.Smaller z := by
  simp only [Smaller] at h h' ⊢
  omega

end NetSize

def Net.measure (n : Net) : NetSize := ⟨n.placeCount, n.transitionCount, n.arcCount⟩

end ProcessNet
