import RegionLayout.Proofs.Length.Announcing
import RegionLayout.Proofs.Tree.Tares

/-!
Moves. A cell that is attached or detached changes its own parent and the children of the cells it
leaves and joins, and no other link, relative value or recipe; its new parent is told once, and then
the new children of both cells, whatever else the move has lengths and coordinates announce.
-/

namespace RegionLayout

/-- What a notice tells about a link between cells. -/
def Notice.aboutLink? : Notice → Option Message
  | .sent (.parent cell old new) => some (.parent cell old new)
  | .sent (.children cell) => some (.children cell)
  | _ => none

theorem Notice.aboutLink?_of_isOnValue {notice : Notice} (hvalue : notice.isOnValue = true) :
    notice.aboutLink? = none := by
  unfold isOnValue at hvalue
  split at hvalue
  all_goals first | rfl | contradiction

theorem Notice.aboutLink?_of_isOnLength {notice : Notice}
    (hlength : notice.isOnLength = true) : notice.aboutLink? = none := by
  unfold isOnLength at hlength
  split at hlength
  all_goals first | rfl | contradiction

namespace Network

/-- All that is new about links between cells, in order. -/
structure Logs (messages : List Message) (before after : Network) : Prop where
  recorded : Recorded before after
  logged : (news before after).filterMap Notice.aboutLink? = messages

namespace Logs

variable {before middle after : Network} {first second : List Message}

theorem of_journal (hjournal : after.journal = before.journal) : Logs [] before after where
  recorded := .of_journal hjournal
  logged := by rw [news_of_journal hjournal, List.filterMap_nil]

theorem refl (network : Network) : Logs [] network network :=
  .of_journal rfl

theorem trans (hfirst : Logs first before middle) (hsecond : Logs second middle after) :
    Logs (first ++ second) before after where
  recorded := hfirst.recorded.trans hsecond.recorded
  logged := by
    rw [news_trans hfirst.recorded hsecond.recorded, List.filterMap_append, hfirst.logged,
      hsecond.logged]

theorem quietly (hfirst : Logs first before middle) (hsecond : Logs [] middle after) :
    Logs first before after := by
  have hboth := hfirst.trans hsecond
  rwa [List.append_nil] at hboth

theorem note (network : Network) (notice : Notice) :
    Logs notice.aboutLink?.toList network (network.note notice) where
  recorded := .note network notice
  logged := by
    rw [news_note, List.filterMap_cons]
    cases notice.aboutLink? <;> rfl

end Logs

/-- Lengths log nothing about links. -/
theorem Logs.of_murmurs {before after : Network} (hmurmurs : Murmurs before after) :
    Logs [] before after where
  recorded := hmurmurs.recorded
  logged := List.filterMap_eq_nil_iff.mpr fun notice hnotice =>
    Notice.aboutLink?_of_isOnLength (hmurmurs.onLengths notice hnotice)

end Network

namespace RegionTree

open Network

theorem murmurs_rebind (tree : RegionTree) (ids : List CellId) :
    Murmurs tree.network (tree.rebind ids).network := by
  refine foldl_related (r := fun first second : RegionTree => Murmurs first.network second.network)
    (fun state => .refl state.network) .trans (fun state id _ => ?_) tree
  unfold bindCell
  split
  · exact .refl state.network
  · exact foldl_related (r := Murmurs) .refl .trans
      (fun network entry _ => murmurs_bind tree.audience entry.1 _ _ network) state.network

theorem murmurs_bindLength (tree : RegionTree) (owner : CoordinateId) (id : LengthId) :
    Murmurs tree.network (tree.bindLength owner id).network :=
  murmurs_bind tree.audience owner _ id tree.network

/-! Neither do tares. -/

theorem retaring_logs :
    Retaring fun before after => Logs [] before.network after.network where
  refl tree := .refl tree.network
  trans := .trans
  note tree notice hvalue := by
    have hnoted := Logs.note tree.network notice
    rwa [Notice.aboutLink?_of_isOnValue hvalue] at hnoted
  retare tree _ _ _ _ _ := .refl tree.network

theorem logs_tareAs (tree : RegionTree) (id : CoordinateId) (tare : Option Float) :
    Logs [] tree.network (tree.tareAs id tare).network :=
  retaring_logs.storing.tareAs tree id tare

theorem logs_detach (tree : RegionTree) (parent child : CellId) :
    Logs [] tree.network (tree.detach parent child).network :=
  foldl_related (r := fun first second : RegionTree => Logs [] first.network second.network)
    (fun _ => .refl _) .trans (fun state id _ => logs_tareAs state id none)
    (tree.unlink parent child)

theorem logs_attach (tree : RegionTree) (parent child : CellId) (index : Nat) :
    Logs [] tree.network (tree.attach parent child index).network := by
  have htares : ∀ (tree : RegionTree) axis,
      Logs [] tree.network (tree.tareFromParent parent child axis).network := fun tree axis =>
    (logs_tareAs tree (child.coordinate axis .alpha) _).trans
      (logs_tareAs _ (child.coordinate axis .beta) _)
  exact (htares (tree.link parent child index) .x).trans (htares _ .y)

theorem logs_freed (tree : RegionTree) (child : CellId) :
    Logs [] tree.network (tree.freed child).network := by
  unfold freed
  split
  · exact logs_detach tree _ child
  · exact .refl tree.network

theorem logs_send (tree : RegionTree) (message : Message)
    (hlink : (Notice.sent message).aboutLink? = some message) :
    Logs [message] tree.network (tree.send message).network := by
  have hsent := Logs.note tree.network (.sent message)
  rw [hlink] at hsent
  exact hsent

theorem logs_children (tree : RegionTree) (ids : List CellId) :
    Logs (ids.map .children) tree.network
      (ids.foldl (fun tree id => tree.send (.children id)) tree).network := by
  induction ids generalizing tree with
  | nil => exact .refl tree.network
  | cons id rest ih => exact (logs_send tree _ rfl).trans (ih (tree.send (.children id)))

/-- What a move is told as: the new parent first, then the cells whose children are others now. -/
def told (child : CellId) (old new : Option CellId) : List Message :=
  .parent child old new :: (old.toList ++ new.toList).map .children

theorem logs_place (tree : RegionTree) (parent child : CellId) (index : Nat) :
    Logs (told child (tree.parent child) (some parent)) tree.network
      (tree.place parent child index).network := by
  have hattached :=
    (logs_freed tree child).trans (logs_attach (tree.freed child) parent child index)
  have hmoved := hattached.trans (logs_send _ (.parent child (tree.parent child) (some parent)) rfl)
  have hleft := hmoved.trans (logs_children _ (tree.parent child).toList)
  have hjoined := hleft.trans (logs_send _ (.children parent) rfl)
  rw [told, List.map_append]
  exact hjoined.quietly (.of_murmurs (murmurs_rebind _ _))

theorem logs_remove {tree after : RegionTree} {parent child : CellId}
    (hremove : tree.remove parent child = .ok after) :
    Logs (told child (some parent) none) tree.network after.network := by
  have hmoved := (logs_detach tree parent child).trans
    (logs_send _ (.parent child (some parent) none) rfl)
  have hleft := hmoved.trans (logs_send _ (.children parent) rfl)
  rw [remove_eq_ok hremove]
  exact hleft.quietly (.of_murmurs (murmurs_rebind _ _))

/-! What a move leaves as it is. -/

/-- All cells stay, with their relative values and recipes. -/
structure Spares (before after : RegionTree) : Prop where
  size : after.size = before.size
  relative : ∀ id, after.relative id = before.relative id
  recipe : ∀ id, (after.coordinate? id).map (·.recipe) = (before.coordinate? id).map (·.recipe)

namespace Spares

variable {before middle after : RegionTree}

theorem refl (tree : RegionTree) : Spares tree tree :=
  ⟨rfl, fun _ => rfl, fun _ => rfl⟩

theorem trans (hfirst : Spares before middle) (hsecond : Spares middle after) :
    Spares before after where
  size := hsecond.size.trans hfirst.size
  relative id := (hsecond.relative id).trans (hfirst.relative id)
  recipe id := (hsecond.recipe id).trans (hfirst.recipe id)

theorem of_coordinate? (hsize : after.size = before.size)
    (hcoordinate : ∀ id, after.coordinate? id = before.coordinate? id) : Spares before after where
  size := hsize
  relative id := by rw [RegionTree.relative, hcoordinate, RegionTree.relative]
  recipe id := by rw [hcoordinate]

theorem of_cells (hcells : after.cells = before.cells) : Spares before after :=
  .of_coordinate? (by rw [RegionTree.size, hcells, RegionTree.size]) (coordinate?_congr hcells)

theorem of_retares (hretares : Retares before after) : Spares before after where
  size := hretares.size
  relative := hretares.relative
  recipe id := by
    have hwired := congrArg (Option.map Prod.fst) (hretares.wired id)
    rwa [Option.map_map, Option.map_map] at hwired

end Spares

theorem spares_detach (tree : RegionTree) (parent child : CellId) :
    Spares tree (tree.detach parent child) :=
  (Spares.of_coordinate? ((size_editCell _ child _).trans (size_editCell tree parent _))
    (coordinate?_unlink tree parent child)).trans
    (.of_retares (retares_foldl_tareAs _ child.coordinates none))

theorem spares_freed (tree : RegionTree) (child : CellId) : Spares tree (tree.freed child) := by
  unfold freed
  split
  · exact spares_detach tree _ child
  · exact .refl tree

theorem spares_attach (tree : RegionTree) (parent child : CellId) (index : Nat) :
    Spares tree (tree.attach parent child index) :=
  (Spares.of_coordinate? ((size_editCell _ child _).trans (size_editCell tree parent _))
    (coordinate?_link tree parent child index)).trans
    (.of_retares ((retares_tareFromParent _ parent child .x).trans
      (retares_tareFromParent _ parent child .y)))

theorem spares_place (tree : RegionTree) (parent child : CellId) (index : Nat) :
    Spares tree (tree.place parent child index) :=
  ((spares_freed tree child).trans (spares_attach (tree.freed child) parent child index)).trans
    (.of_cells (cells_place tree parent child index))

/-! What a move changes. -/

/-- A cell has been moved to a position among the children of another, or to none. -/
structure Moved (before after : RegionTree) (child : CellId) (place : Option (CellId × Nat)) : Prop
    extends Spares before after where
  parent : after.parent child = place.map (·.1)
  left : ∀ old, before.parent child = some old →
    after.children old = (before.children old).filter (· != child)
  joined : ∀ parent index, place = some (parent, index) →
    index ≤ (before.children parent).length ∧
      after.children parent = (before.children parent).insertIdx index child
  other_parents : ∀ id, id ≠ child → after.parent id = before.parent id
  other_children : ∀ id, before.parent child ≠ some id → place.map (·.1) ≠ some id →
    after.children id = before.children id
  logs : Logs (told child (before.parent child) (place.map (·.1))) before.network after.network

theorem parent_unlink (tree : RegionTree) (parent child id : CellId) :
    (tree.unlink parent child).parent id = if id = child then none else tree.parent id := by
  rw [unlink, parent_setParent, parent_setChildren, contains_editCell]
  by_cases heq : id = child
  · subst heq
    by_cases hknown : tree.contains id = true
    · simp [hknown]
    · simp [hknown, parent_of_not_contains hknown]
  · simp [heq]

theorem parent_link (tree : RegionTree) (parent child id : CellId) (index : Nat)
    (hchild : tree.contains child = true) :
    (tree.link parent child index).parent id =
      if id = child then some parent else tree.parent id := by
  rw [link, parent_setParent, contains_editCell,
    parent_setChildren tree parent id fun children => children.insertIdx index child]
  simp only [hchild, and_true]

section Freed

variable (tree : RegionTree) (child id : CellId)

theorem parent_freed :
    (tree.freed child).parent id = if id = child then none else tree.parent id := by
  unfold freed
  split
  next old _ => rw [(sameLinks_detach tree old child).parent, parent_unlink]
  next hnone =>
    split
    next heq => rw [heq, hnone]
    next => rfl

theorem children_freed : (tree.freed child).children id =
    if tree.parent child = some id then (tree.children id).filter (· != child)
    else tree.children id := by
  unfold freed
  split
  next old hold =>
    rw [(sameLinks_detach tree old child).children, children_unlink, hold]
    simp only [Option.some.injEq, eq_comm (a := old)]
    split
    next heq => rw [heq]
    next => rfl
  next hnone => simp [hnone]

end Freed

section Moves

variable {tree after : RegionTree} {parent child : CellId} {index : Nat}

theorem parent_place (hforest : tree.Forest) (hfits : tree.Fits parent child index)
    (id : CellId) : (tree.place parent child index).parent id =
      if id = child then some parent else tree.parent id := by
  obtain ⟨_, hfits', _⟩ := hforest.freed hfits
  rw [(sameLinks_place tree parent child index).parent,
    (sameLinks_attach (tree.freed child) parent child index).parent,
    parent_link _ _ _ _ _ hfits'.known_child, parent_freed]
  split <;> rfl

/-- A cell is never attached to the parent it has, so it leaves one list and joins another. -/
theorem parent_ne_of_fits (hforest : tree.Forest) (hfits : tree.Fits parent child index) :
    tree.parent child ≠ some parent := fun hparent =>
  hfits.new ((hforest.mem_children_iff parent child).mpr hparent)

theorem children_place (hforest : tree.Forest) (hfits : tree.Fits parent child index)
    (id : CellId) : (tree.place parent child index).children id =
      if id = parent then (tree.children parent).insertIdx index child
      else if tree.parent child = some id then (tree.children id).filter (· != child)
      else tree.children id := by
  obtain ⟨_, hfits', _⟩ := hforest.freed hfits
  rw [(sameLinks_place tree parent child index).children,
    (sameLinks_attach (tree.freed child) parent child index).children,
    children_link _ _ _ _ hfits'.known_parent, children_freed, children_freed,
    if_neg (parent_ne_of_fits hforest hfits)]

theorem moved_of_insert (hforest : tree.Forest)
    (hinsert : tree.insert parent child index = .ok after) :
    Moved tree after child (some (parent, index)) := by
  obtain ⟨hplaceable, rfl⟩ := insert_eq_ok hinsert
  have hfits := fits_of_placeable hforest hplaceable
  have hparents := parent_place hforest hfits
  have hchildren := children_place hforest hfits
  exact {
    toSpares := spares_place tree parent child index
    parent := (hparents child).trans (if_pos rfl)
    left := fun old hold => by
      have hne : old ≠ parent := fun heq => parent_ne_of_fits hforest hfits (heq ▸ hold)
      rw [hchildren, if_neg hne, if_pos hold]
    joined := by
      rintro _ _ ⟨⟩
      rw [hchildren, if_pos rfl]
      exact ⟨hfits.index, rfl⟩
    other_parents := fun id hne => by rw [hparents, if_neg hne]
    other_children := fun id hold hother => by
      have hne : id ≠ parent := fun heq => hother (congrArg some heq.symm)
      rw [hchildren, if_neg hne, if_neg hold]
    logs := logs_place tree parent child index }

theorem moved_of_remove (hforest : tree.Forest) (hremove : tree.remove parent child = .ok after) :
    tree.parent child = some parent ∧ Moved tree after child none := by
  obtain ⟨hchild, hcells⟩ := cells_remove hremove
  have hparent : tree.parent child = some parent :=
    (hforest.mem_children_iff parent child).mp hchild
  have hsame := (sameLinks_detach tree parent child).trans (.of_cells hcells)
  have hlogs := logs_remove hremove
  rw [← hparent] at hlogs
  exact ⟨hparent, {
    toSpares := (spares_detach tree parent child).trans (.of_cells hcells)
    parent := by rw [hsame.parent, parent_unlink, if_pos rfl, Option.map_none]
    left := fun old hold => by
      obtain rfl : parent = old := Option.some.inj (hparent.symm.trans hold)
      rw [hsame.children, children_unlink, if_pos rfl]
    joined := nofun
    other_parents := fun id hne => by rw [hsame.parent, parent_unlink, if_neg hne]
    other_children := fun id hold _ => by
      have hne : id ≠ parent := fun heq => hold (heq ▸ hparent)
      rw [hsame.children, children_unlink, if_neg hne]
    logs := hlogs }⟩

/-- Whatever was done to a tree of cells before, a cell that is inserted is moved to its new place,
and one that is removed to none: parents and children of other cells, relative values and recipes
stay, and the journal tells of one new parent and then of the lists of children that changed. -/
theorem insert_moves_and_remove_frees (operations : List TreeOperation) (parent child : CellId) :
    (∀ index after, (built operations).insert parent child index = .ok after →
      Moved (built operations) after child (some (parent, index))) ∧
    ∀ after, (built operations).remove parent child = .ok after →
      (built operations).parent child = some parent ∧ Moved (built operations) after child none :=
  ⟨fun _ _ => moved_of_insert (forest_built operations),
    fun _ => moved_of_remove (forest_built operations)⟩

/-- A root with a child, and one below that. -/
def lineage : List TreeOperation :=
  [.replaceLengths ⟨#[⟨.constant 5.0, [], []⟩], #[]⟩ [], .createRoot ⟨⟨0⟩, ⟨0⟩, ⟨0⟩, ⟨0⟩⟩,
    .createCell ⟨⟨0⟩, ⟨0⟩, ⟨0⟩, ⟨0⟩⟩, .createCell ⟨⟨0⟩, ⟨0⟩, ⟨0⟩, ⟨0⟩⟩, .append ⟨0⟩ ⟨1⟩,
    .append ⟨1⟩ ⟨2⟩]

/-- The last of the lineage comes to hang before the one it hung from, or from nothing. -/
theorem lineage_moves :
    (∃ after, (built lineage).insert ⟨0⟩ ⟨2⟩ 0 = .ok after ∧ after.children ⟨0⟩ = [⟨2⟩, ⟨1⟩] ∧
      Moved (built lineage) after ⟨2⟩ (some (⟨0⟩, 0))) ∧
    ∃ after, (built lineage).remove ⟨1⟩ ⟨2⟩ = .ok after ∧ after.children ⟨1⟩ = [] ∧
      Moved (built lineage) after ⟨2⟩ none := by
  have hinsert : ((built lineage).insert ⟨0⟩ ⟨2⟩ 0).toOption.map (·.children ⟨0⟩) =
      some [⟨2⟩, ⟨1⟩] := by decide +kernel
  have hremove : ((built lineage).remove ⟨1⟩ ⟨2⟩).toOption.map (·.children ⟨1⟩) = some [] := by
    decide +kernel
  constructor
  · cases hafter : (built lineage).insert ⟨0⟩ ⟨2⟩ 0 with
    | ok after =>
        rw [hafter] at hinsert
        exact ⟨after, rfl, Option.some.inj hinsert,
          (insert_moves_and_remove_frees lineage ⟨0⟩ ⟨2⟩).1 0 after hafter⟩
    | error failure =>
        rw [hafter] at hinsert
        contradiction
  · cases hafter : (built lineage).remove ⟨1⟩ ⟨2⟩ with
    | ok after =>
        rw [hafter] at hremove
        exact ⟨after, rfl, Option.some.inj hremove,
          ((insert_moves_and_remove_frees lineage ⟨1⟩ ⟨2⟩).2 after hafter).2⟩
    | error failure =>
        rw [hafter] at hremove
        contradiction

end Moves

end RegionTree

end RegionLayout
