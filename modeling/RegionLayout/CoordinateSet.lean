import RegionLayout.Position

/-!
Sets of coordinates, kept as lists of ascending rank. A coordinate is in `insert c set` exactly when
it is `c` or was in the set.
-/

namespace RegionLayout

structure CoordinateSet where
  toList : List CoordinateId
  ascending : toList.Pairwise (fun left right => left.rank < right.rank)
  deriving DecidableEq

namespace CoordinateSet

instance : Membership CoordinateId CoordinateSet where
  mem set coordinate := coordinate ∈ set.toList

instance (coordinate : CoordinateId) (set : CoordinateSet) : Decidable (coordinate ∈ set) :=
  inferInstanceAs (Decidable (coordinate ∈ set.toList))

def empty : CoordinateSet := ⟨[], .nil⟩

instance : Inhabited CoordinateSet := ⟨empty⟩

def isEmpty (set : CoordinateSet) : Bool :=
  set.toList.isEmpty

/-! Insertion walks to the first member of no smaller rank. -/

def insertInto (coordinate : CoordinateId) : List CoordinateId → List CoordinateId
  | [] => [coordinate]
  | head :: rest =>
    if coordinate.rank < head.rank then coordinate :: head :: rest
    else if coordinate.rank = head.rank then head :: rest
    else head :: insertInto coordinate rest

theorem mem_insertInto {coordinate other : CoordinateId} {members : List CoordinateId} :
    other ∈ insertInto coordinate members ↔ other = coordinate ∨ other ∈ members := by
  induction members with
  | nil => simp [insertInto]
  | cons head rest ih =>
    unfold insertInto
    split
    · simp
    · split
      next hrank =>
        have heq := CoordinateId.rank_injective hrank
        subst heq
        simp
      next => simp [ih, or_left_comm]

theorem insertInto_ascending {coordinate : CoordinateId} {members : List CoordinateId}
    (hascending : members.Pairwise (fun left right => left.rank < right.rank)) :
    (insertInto coordinate members).Pairwise (fun left right => left.rank < right.rank) := by
  induction members with
  | nil => simp [insertInto]
  | cons head rest ih =>
    obtain ⟨hhead, hrest⟩ := List.pairwise_cons.mp hascending
    unfold insertInto
    split
    next hless =>
      refine List.pairwise_cons.mpr ⟨fun other hother => ?_, hascending⟩
      rcases List.mem_cons.mp hother with rfl | hother
      · exact hless
      · exact Nat.lt_trans hless (hhead other hother)
    next hless =>
      split
      next => exact hascending
      next hne =>
        refine List.pairwise_cons.mpr ⟨fun other hother => ?_, ih hrest⟩
        rcases mem_insertInto.mp hother with rfl | hother
        · omega
        · exact hhead other hother

def insert (coordinate : CoordinateId) (set : CoordinateSet) : CoordinateSet :=
  ⟨insertInto coordinate set.toList, insertInto_ascending set.ascending⟩

def union (left right : CoordinateSet) : CoordinateSet :=
  right.toList.foldl (fun set coordinate => set.insert coordinate) left

def ofList (coordinates : List CoordinateId) : CoordinateSet :=
  coordinates.foldl (fun set coordinate => set.insert coordinate) empty

@[simp] theorem not_mem_empty {coordinate : CoordinateId} : coordinate ∉ empty :=
  List.not_mem_nil

@[simp] theorem mem_insert {coordinate other : CoordinateId} {set : CoordinateSet} :
    other ∈ set.insert coordinate ↔ other = coordinate ∨ other ∈ set :=
  mem_insertInto

theorem mem_foldl_insert {coordinate : CoordinateId} {added : List CoordinateId}
    {set : CoordinateSet} :
    coordinate ∈ added.foldl (fun set coordinate => set.insert coordinate) set ↔
      coordinate ∈ set ∨ coordinate ∈ added := by
  induction added generalizing set with
  | nil => simp
  | cons head rest ih => simp [ih, or_assoc, or_left_comm]

@[simp] theorem mem_union {coordinate : CoordinateId} {left right : CoordinateSet} :
    coordinate ∈ left.union right ↔ coordinate ∈ left ∨ coordinate ∈ right :=
  mem_foldl_insert

@[simp] theorem mem_ofList {coordinate : CoordinateId} {coordinates : List CoordinateId} :
    coordinate ∈ ofList coordinates ↔ coordinate ∈ coordinates := by
  simp [ofList, mem_foldl_insert]

end CoordinateSet

end RegionLayout
