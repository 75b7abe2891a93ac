import RegionLayout.Proofs.Length.Binding
import RegionLayout.Tree.Placement

/-!
Who listens in a tree. A compound length listens while a named length or some coordinate's recipe is
built of it; a coordinate listens with its present wiring, and with no other.
-/

namespace RegionLayout

theorem getElem?_flatMap_of_length {α β : Type} {f : α → List β} {length : Nat}
    (hlength : ∀ item, (f item).length = length) (items : List α) (index : Nat) {offset : Nat}
    (hoffset : offset < length) :
    (items.flatMap f)[length * index + offset]? =
      items[index]?.bind fun item => (f item)[offset]? := by
  induction items generalizing index with
  | nil => rfl
  | cons first rest ih =>
      rw [List.flatMap_cons]
      cases index with
      | zero =>
          rw [Nat.mul_zero, Nat.zero_add, List.getElem?_append_left (by rwa [hlength])]
          rfl
      | succ index =>
          have hpast : length * (index + 1) + offset =
              (f first).length + (length * index + offset) := by
            rw [hlength, Nat.mul_succ]
            omega
          rw [hpast, List.getElem?_append_right (Nat.le_add_right _ _), Nat.add_sub_cancel_left, ih,
            List.getElem?_cons_succ]

namespace Cell

theorem getElem?_coordinates (cell : Cell) (axis : Axis) (edge : Edge) :
    cell.coordinates[2 * axis.index + edge.index]? = some (cell.coordinate axis edge) := by
  cases axis <;> cases edge <;> rfl

theorem mem_coordinates {cell : Cell} {coordinate : Coordinate} :
    coordinate ∈ cell.coordinates ↔ ∃ axis edge, cell.coordinate axis edge = coordinate := by
  constructor
  · intro hmem
    simp only [coordinates, List.mem_cons, List.not_mem_nil, or_false] at hmem
    rcases hmem with rfl | rfl | rfl | rfl
    · exact ⟨.x, .alpha, rfl⟩
    · exact ⟨.x, .beta, rfl⟩
    · exact ⟨.y, .alpha, rfl⟩
    · exact ⟨.y, .beta, rfl⟩
  · rintro ⟨axis, edge, rfl⟩
    exact List.mem_of_getElem? (cell.getElem?_coordinates axis edge)

end Cell

namespace RegionTree

variable {tree : RegionTree}

theorem coordinate?_eq_some_iff {id : CoordinateId} {coordinate : Coordinate} :
    tree.coordinate? id = some coordinate ↔
      ∃ cell, tree.cell? id.cell = some cell ∧ cell.coordinate id.axis id.edge = coordinate :=
  Option.map_eq_some_iff

theorem mem_roots_iff {id : LengthId} : id ∈ tree.roots ↔
    (∃ name, (name, id) ∈ tree.names) ∨
      ∃ owner coordinate, tree.coordinate? owner = some coordinate ∧ coordinate.recipe = id := by
  rw [roots, List.mem_append]
  refine or_congr ?_ ?_
  · rw [List.mem_map]
    constructor
    · rintro ⟨⟨name, _⟩, hmem, rfl⟩
      exact ⟨name, hmem⟩
    · rintro ⟨name, hmem⟩
      exact ⟨(name, id), hmem, rfl⟩
  · rw [List.mem_flatMap]
    constructor
    · rintro ⟨cell, hcell, hrecipe⟩
      obtain ⟨index, hindex⟩ := List.mem_iff_getElem?.mp hcell
      obtain ⟨coordinate, hmem, rfl⟩ := List.mem_map.mp hrecipe
      obtain ⟨axis, edge, rfl⟩ := Cell.mem_coordinates.mp hmem
      refine ⟨⟨⟨index⟩, axis, edge⟩, _, coordinate?_eq_some_iff.mpr ⟨cell, ?_, rfl⟩, rfl⟩
      rwa [cell?, ← Array.getElem?_toList]
    · rintro ⟨owner, coordinate, hcoordinate, rfl⟩
      obtain ⟨cell, hcell, rfl⟩ := coordinate?_eq_some_iff.mp hcoordinate
      rw [cell?, ← Array.getElem?_toList] at hcell
      exact ⟨cell, List.mem_of_getElem? hcell,
        List.mem_map_of_mem (Cell.mem_coordinates.mpr ⟨owner.axis, owner.edge, rfl⟩)⟩

theorem includes_recipeOf_iff {owner : CoordinateId} {wiring : Nat} :
    tree.audience.includes (.recipeOf owner wiring) = true ↔
      ∃ coordinate, tree.coordinate? owner = some coordinate ∧ coordinate.wiring = wiring := by
  have hoffset : 2 * owner.axis.index + owner.edge.index < 4 := by
    cases owner.axis <;> cases owner.edge <;> decide
  have hwirings : tree.audience.wirings[owner.rank]? =
      (tree.coordinate? owner).map (·.wiring) := by
    rw [audience, ← Array.getElem?_toList, Array.toList_flatMap, CoordinateId.rank, Nat.add_assoc,
      getElem?_flatMap_of_length (fun cell => by rfl) _ _ hoffset, Array.getElem?_toList,
      coordinate?, cell?, Option.map_map]
    cases tree.cells[owner.cell.index]? with
    | none => rfl
    | some cell =>
        simp only [Option.bind_some, Option.map_some, List.getElem?_map,
          cell.getElem?_coordinates]
        rfl
  rw [Audience.includes, hwirings, beq_iff_eq, Option.map_eq_some_iff]

theorem lt_of_includes_operandOf {id : LengthId}
    (hincluded : tree.audience.includes (.operandOf id) = true) :
    id.index < tree.network.lengths.size :=
  Network.size_heldFrom tree.network tree.roots ▸ Graph.Marked.lt hincluded

theorem includes_operandOf_iff (holder : tree.network.Older)
    (hroots : ∀ root ∈ tree.roots, root.index < tree.network.lengths.size) {id : LengthId} :
    tree.audience.includes (.operandOf id) = true ↔
      ∃ root ∈ tree.roots, tree.network.BuiltOf root id :=
  Network.marked_heldFrom holder hroots

end RegionTree

end RegionLayout
