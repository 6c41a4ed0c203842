/-
Identifiers: numbered names of places, transitions, process nodes and flows, and sets of
identifiers kept as ascending lists.
-/

namespace ProcessNet

/-- A kind of identifier: a number written behind a letter that tells the kind. -/
class Identifier (ι : Type) where
  ofIndex : Nat → ι
  index : ι → Nat
  /-- The letter in front of the number. -/
  letter : String
  index_ofIndex : ∀ n, index (ofIndex n) = n
  ofIndex_index : ∀ i, ofIndex (index i) = i

attribute [simp] Identifier.index_ofIndex Identifier.ofIndex_index

/-- A place of a net. -/
structure PlaceId where
  number : Nat
deriving DecidableEq, Hashable, Repr, Inhabited

/-- A transition of a net. -/
structure TransitionId where
  number : Nat
deriving DecidableEq, Hashable, Repr, Inhabited

/-- A node of a process graph. -/
structure NodeId where
  number : Nat
deriving DecidableEq, Hashable, Repr, Inhabited

/-- A flow of a process graph. -/
structure FlowId where
  number : Nat
deriving DecidableEq, Hashable, Repr, Inhabited

instance : Identifier PlaceId := ⟨PlaceId.mk, PlaceId.number, "p", fun _ => rfl, fun _ => rfl⟩
instance : Identifier TransitionId :=
  ⟨TransitionId.mk, TransitionId.number, "t", fun _ => rfl, fun _ => rfl⟩
instance : Identifier NodeId := ⟨NodeId.mk, NodeId.number, "n", fun _ => rfl, fun _ => rfl⟩
instance : Identifier FlowId := ⟨FlowId.mk, FlowId.number, "f", fun _ => rfl, fun _ => rfl⟩

namespace Identifier

variable {ι : Type} [Identifier ι]

theorem index_inj {i j : ι} : index i = index j ↔ i = j :=
  ⟨fun h => by rw [← ofIndex_index i, h, ofIndex_index], fun h => by rw [h]⟩

/-- The number of a stored identifier takes at most so many bits. -/
def bits : Nat := 32

/-- The identifier as it is shown: its letter, then its number. -/
def text (i : ι) : String := letter ι ++ toString (index i)

/-! ## Ascending lists as sets -/

/-- Puts an identifier into an ascending list, unless it is there already. -/
def insertAscending (i : ι) : List ι → List ι
  | [] => [i]
  | j :: s =>
    if index i < index j then i :: j :: s
    else if index i = index j then j :: s
    else j :: insertAscending i s

/-- The set of the listed identifiers: ascending, each once. -/
def ascending (l : List ι) : List ι := l.foldl (fun s i => insertAscending i s) []

/-- Strictly ascending, so that equal lists and equal sets are the same. -/
def Ascending (s : List ι) : Prop := s.Pairwise (fun i j => index i < index j)

theorem Ascending.nodup {s : List ι} (h : Ascending s) : s.Nodup :=
  h.imp fun hlt => ne_of_apply_ne index (Nat.ne_of_lt hlt)

theorem Ascending.filter {s : List ι} (h : Ascending s) (p : ι → Bool) : Ascending (s.filter p) :=
  List.Pairwise.filter p h

/-- An ascending list is told by its members. -/
theorem Ascending.ext {s t : List ι} (hs : Ascending s) (ht : Ascending t)
    (h : ∀ i, i ∈ s ↔ i ∈ t) : s = t :=
  List.Perm.eq_of_pairwise (fun _ _ _ _ hij hji => absurd hij (Nat.lt_asymm hji)) hs ht
    ((List.perm_ext_iff_of_nodup hs.nodup ht.nodup).2 h)

theorem mem_insertAscending {i j : ι} {s : List ι} :
    j ∈ insertAscending i s ↔ j = i ∨ j ∈ s := by
  induction s with
  | nil => simp [insertAscending]
  | cons k s ih =>
    simp only [insertAscending]
    split
    · simp
    · split
      · rename_i h
        rw [index_inj.mp h]
        simp
      · simp [ih, or_left_comm]

theorem Ascending.insertAscending {i : ι} {s : List ι} (h : Ascending s) :
    Ascending (insertAscending i s) := by
  induction s with
  | nil => simp [Ascending, Identifier.insertAscending]
  | cons k s ih =>
    have hk := List.pairwise_cons.1 h
    simp only [Identifier.insertAscending]
    split
    · rename_i hlt
      refine List.pairwise_cons.2 ⟨fun j hj => ?_, h⟩
      rcases List.mem_cons.1 hj with rfl | hj
      · exact hlt
      · exact Nat.lt_trans hlt (hk.1 j hj)
    · split
      · exact h
      · rename_i hge hne
        refine List.pairwise_cons.2 ⟨fun j hj => ?_, ih hk.2⟩
        rcases mem_insertAscending.1 hj with rfl | hj
        · omega
        · exact hk.1 j hj

theorem mem_foldl_insertAscending {j : ι} {l s : List ι} :
    j ∈ l.foldl (fun s i => insertAscending i s) s ↔ j ∈ l ∨ j ∈ s := by
  induction l generalizing s with
  | nil => simp
  | cons i l ih => simp [ih, mem_insertAscending, or_left_comm, or_assoc]

@[simp] theorem mem_ascending {j : ι} {l : List ι} : j ∈ ascending l ↔ j ∈ l := by
  simp [ascending, mem_foldl_insertAscending]

theorem ascending_ascending (l : List ι) : Ascending (ascending l) := by
  have : ∀ (l s : List ι), Ascending s →
      Ascending (l.foldl (fun s i => insertAscending i s) s) := by
    intro l
    induction l with
    | nil => exact fun s h => h
    | cons i l ih => exact fun s h => ih _ h.insertAscending
  exact this l [] List.Pairwise.nil

end Identifier

end ProcessNet
