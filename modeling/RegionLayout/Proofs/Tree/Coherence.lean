import RegionLayout.Proofs.Tree.Moves

/-!
Values and what is told of them cohere. An absolute value is brought up to date with every relative
value and every tare that is stored, and each new value is told together with the one that it
replaces. So whatever is done to a tree, what is told of a value leads from none to the one stored,
and an absolute value is the sum of what it is made of.
-/

namespace RegionLayout

/-- What a notice tells of one value of a coordinate: what it was, and what it is. -/
def Notice.change? (kind : ValueKind) (id : CoordinateId) :
    Notice → Option (Option Float × Option Float)
  | .sent (.relative of old new) =>
    if kind = .relative ∧ of = id then some (old, new) else none
  | .sent (.absolute of old new) =>
    if kind = .absolute ∧ of = id then some (old, new) else none
  | _ => none

def Notice.changes (kind : ValueKind) (id : CoordinateId) (notices : List Notice) :
    List (Option Float × Option Float) :=
  notices.filterMap (change? kind id)

theorem Notice.change?_of_isOnLength {kind : ValueKind} {id : CoordinateId} {notice : Notice}
    (hlength : notice.isOnLength = true) : notice.change? kind id = none := by
  unfold isOnLength at hlength
  split at hlength
  all_goals first | rfl | contradiction

/-- Each change is to a value not equal to the old one, which is what the change before left. -/
inductive Chains : Option Float → List (Option Float × Option Float) → Option Float → Prop
  | nil (value : Option Float) : Chains value [] value
  | cons {old new last : Option Float} {rest : List (Option Float × Option Float)}
      (hdiffers : (old == new) = false) (hrest : Chains new rest last) :
      Chains old ((old, new) :: rest) last

theorem Chains.append {first middle last : Option Float}
    {changes more : List (Option Float × Option Float)} (hchanges : Chains first changes middle)
    (hmore : Chains middle more last) : Chains first (changes ++ more) last := by
  induction hchanges with
  | nil value => exact hmore
  | cons hdiffers _ ih => exact .cons hdiffers (ih hmore)

/-- Relative value, tare and absolute value. -/
def Coordinate.values (coordinate : Coordinate) : Option Float × Option Float × Option Float :=
  (coordinate.relative, coordinate.tare, coordinate.absolute)

namespace RegionTree

open Network

def value (tree : RegionTree) : ValueKind → CoordinateId → Option Float
  | .relative, id => tree.relative id
  | .absolute, id => tree.absolute id

def values (tree : RegionTree) (id : CoordinateId) : Option Float × Option Float × Option Float :=
  ((tree.coordinate? id).map (·.values)).getD (none, none, none)

/-- Relative value and tare of a coordinate together. -/
def total (tree : RegionTree) (id : CoordinateId) : Option Float :=
  (tree.coordinate? id).bind (·.sum)

/-- An absolute value is the sum of what it is made of, or is equal to it as numbers are. -/
def Summed (tree : RegionTree) (id : CoordinateId) : Prop :=
  tree.absolute id = tree.total id ∨ (tree.absolute id == tree.total id) = true

/-- What was told of a coordinate's values leads from those before to those after, and its absolute
value is still what it should be. -/
structure Coheres (id : CoordinateId) (before after : RegionTree) : Prop where
  recorded : Recorded before.network after.network
  chains : ∀ kind, Chains (before.value kind id)
    (Notice.changes kind id (news before.network after.network)) (after.value kind id)
  summed : before.Summed id → after.Summed id

section Steps

variable {id target : CoordinateId} {before middle after tree : RegionTree}

theorem values_eq (tree : RegionTree) (id : CoordinateId) :
    tree.values id = (tree.relative id, tree.tare id, tree.absolute id) := by
  rw [values, relative, tare, absolute]
  cases tree.coordinate? id <;> rfl

theorem total_eq (tree : RegionTree) (id : CoordinateId) : tree.total id =
    match tree.relative id, tree.tare id with
    | some relative, some tare => some (relative + tare)
    | _, _ => none := by
  rw [total, relative, tare]
  cases tree.coordinate? id <;> rfl

theorem Summed.eq_none_iff (hsummed : tree.Summed id) :
    tree.absolute id = none ↔ tree.total id = none := by
  unfold Summed at hsummed
  cases habsolute : tree.absolute id with
  | none => cases htotal : tree.total id <;> simp_all
  | some absolute => cases htotal : tree.total id <;> simp_all

theorem Summed.exists_absolute (hsummed : tree.Summed id) {total : Float}
    (htotal : tree.total id = some total) :
    ∃ absolute, tree.absolute id = some absolute ∧
      (absolute = total ∨ (absolute == total) = true) := by
  cases habsolute : tree.absolute id with
  | none =>
      rw [hsummed.eq_none_iff, htotal] at habsolute
      contradiction
  | some absolute =>
      rw [Summed, habsolute, htotal] at hsummed
      exact ⟨absolute, rfl, hsummed.imp_left Option.some.inj⟩

namespace Coheres

theorem refl (tree : RegionTree) : Coheres id tree tree where
  recorded := .refl tree.network
  chains kind := by
    rw [news_self]
    exact .nil _
  summed hsummed := hsummed

theorem trans (hfirst : Coheres id before middle) (hsecond : Coheres id middle after) :
    Coheres id before after where
  recorded := hfirst.recorded.trans hsecond.recorded
  chains kind := by
    rw [news_trans hfirst.recorded hsecond.recorded, Notice.changes, List.filterMap_append]
    exact (hfirst.chains kind).append (hsecond.chains kind)
  summed hsummed := hsecond.summed (hfirst.summed hsummed)

/-- The values are as they were, and nothing was told of them. -/
theorem of_silent (hrecorded : Recorded before.network after.network)
    (hsilent : ∀ kind, Notice.changes kind id (news before.network after.network) = [])
    (hvalues : after.values id = before.values id) : Coheres id before after := by
  rw [values_eq, values_eq] at hvalues
  obtain ⟨hrelative, hrest⟩ := Prod.mk.inj hvalues
  obtain ⟨htare, habsolute⟩ := Prod.mk.inj hrest
  refine ⟨hrecorded, fun kind => ?_, fun hsummed => ?_⟩
  · have hsame : after.value kind id = before.value kind id := by
      cases kind with
      | relative => exact hrelative
      | absolute => exact habsolute
    rw [hsilent, hsame]
    exact .nil _
  · rw [Summed, total_eq, hrelative, htare, habsolute, ← total_eq]
    exact hsummed

theorem of_murmurs (hmurmurs : Murmurs before.network after.network)
    (hvalues : after.values id = before.values id) : Coheres id before after :=
  .of_silent hmurmurs.recorded (fun _ => List.filterMap_eq_nil_iff.mpr fun notice hnotice =>
    Notice.change?_of_isOnLength (hmurmurs.onLengths notice hnotice)) hvalues

theorem of_coordinate? (hmurmurs : Murmurs before.network after.network)
    (hsame : after.coordinate? id = before.coordinate? id) : Coheres id before after :=
  .of_murmurs hmurmurs (by rw [values, hsame, values])

theorem note (tree : RegionTree) {notice : Notice}
    (hsilent : ∀ kind, notice.change? kind id = none) : Coheres id tree (tree.note notice) := by
  refine .of_silent (.note tree.network notice) (fun kind => ?_) rfl
  rw [RegionTree.note, news_note, Notice.changes, List.filterMap_cons_none (hsilent kind),
    List.filterMap_nil]

end Coheres

/-! Storing values. -/

theorem network_settle (tree : RegionTree) (target : CoordinateId) (new : Coordinate) :
    (tree.settle target new).2.network =
      if new.isStale then tree.network.send (.absolute target new.absolute new.sum)
      else tree.network := by
  unfold settle
  dsimp only
  split <;> rfl

theorem news_settle (tree : RegionTree) (target : CoordinateId) (new : Coordinate) :
    Recorded tree.network (tree.settle target new).2.network ∧
      news tree.network (tree.settle target new).2.network =
        if new.isStale then [.sent (.absolute target new.absolute new.sum)] else [] := by
  rw [network_settle]
  split
  · exact ⟨.note _ _, news_note _ _⟩
  · exact ⟨.refl _, news_self _⟩

theorem changes_relative_settle (tree : RegionTree) (target : CoordinateId) (new : Coordinate) :
    Notice.changes .relative id (news tree.network (tree.settle target new).2.network) = [] := by
  rw [(news_settle tree target new).2]
  split
  · simp [Notice.changes, Notice.change?]
  · rfl

/-- To settle a coordinate tells exactly how its absolute value moves. -/
theorem chains_absolute_settle {old new : Coordinate} (hold : tree.coordinate? target = some old)
    (habsolute : new.absolute = old.absolute) :
    Chains (tree.absolute id)
      (Notice.changes .absolute id (news tree.network (tree.settle target new).2.network))
      ((tree.settle target new).2.absolute id) := by
  rw [(news_settle tree target new).2, absolute, absolute, coordinate?_settle]
  by_cases heq : id = target
  · rw [heq, hold, if_pos rfl, Option.map_some, Option.bind_some, Option.bind_some, ← habsolute,
      Coordinate.refresh, Coordinate.isStale]
    cases hequal : new.absolute == new.sum with
    | true =>
        rw [bne, hequal]
        exact .nil _
    | false =>
        rw [bne, hequal]
        simp only [Notice.changes, Notice.change?, Bool.not_false, if_true, and_self,
          List.filterMap_cons, List.filterMap_nil]
        exact .cons hequal (.nil _)
  · have hnone : Notice.changes .absolute id
        (if new.isStale then [.sent (.absolute target new.absolute new.sum)] else []) = [] := by
      split
      · simp [Notice.changes, Notice.change?, Ne.symm heq]
      · rfl
    rw [hnone, if_neg heq]
    exact .nil _

theorem summed_settle {old : Coordinate} (hold : tree.coordinate? target = some old)
    (new : Coordinate) (hsummed : tree.Summed id) : (tree.settle target new).2.Summed id := by
  rw [Summed, absolute, total, coordinate?_settle]
  split
  next heq =>
    have hsum : new.refresh.sum = new.sum := by
      obtain ⟨absolute, hrefresh⟩ := refresh_eq new
      rw [hrefresh]
      rfl
    rw [heq, hold, Option.map_some, Option.bind_some, Option.bind_some, hsum, Coordinate.refresh]
    split
    next hequal => exact .inr hequal
    next => exact .inl rfl
  next => exact hsummed

/-- A relative value may have been told before the coordinate is settled with it. -/
theorem coheres_settle {said : RegionTree} {old new : Coordinate} (hcells : said.cells = tree.cells)
    (hrecorded : Recorded tree.network said.network)
    (hsilent : Notice.changes .absolute id (news tree.network said.network) = [])
    (hold : tree.coordinate? target = some old) (habsolute : new.absolute = old.absolute)
    (hrelative : Chains (tree.relative id)
      (Notice.changes .relative id (news tree.network said.network))
      (if id = target then new.relative else tree.relative id)) :
    Coheres id tree (said.settle target new).2 := by
  have hcoordinate := coordinate?_congr hcells
  have hsaid : said.coordinate? target = some old := (hcoordinate target).trans hold
  obtain ⟨hsettled, _⟩ := news_settle said target new
  refine ⟨hrecorded.trans hsettled, fun kind => ?_, fun hsummed => summed_settle hsaid new ?_⟩
  · rw [news_trans hrecorded hsettled, Notice.changes, List.filterMap_append, ← Notice.changes,
      ← Notice.changes]
    cases kind with
    | absolute =>
        rw [hsilent, List.nil_append, value, ← absolute_congr (hcoordinate id)]
        exact chains_absolute_settle hsaid habsolute
    | relative =>
        have hsame : said.relative id = tree.relative id := by rw [relative, hcoordinate, relative]
        rw [changes_relative_settle, List.append_nil, value, value, relative_settle hsaid, hsame]
        exact hrelative
  · rw [Summed, absolute_congr (hcoordinate id), total, hcoordinate, ← total]
    exact hsummed

theorem coheres_settle_of_relative {old new : Coordinate}
    (hold : tree.coordinate? target = some old) (habsolute : new.absolute = old.absolute)
    (hrelative : new.relative = old.relative) : Coheres id tree (tree.settle target new).2 := by
  refine coheres_settle rfl (.refl _) ?_ hold habsolute ?_
  · rw [news_self]
    rfl
  · have hsame : (if id = target then new.relative else tree.relative id) = tree.relative id := by
      split
      next heq => rw [heq, relative_eq_of_coordinate? hold, hrelative]
      next => rfl
    rw [news_self, hsame]
    exact .nil _

theorem coheres_storeTare (tree : RegionTree) (target : CoordinateId) (tare : Option Float) :
    Coheres id tree (tree.storeTare target tare).2 := by
  unfold storeTare
  split
  next => exact .refl tree
  next old hold => exact coheres_settle_of_relative hold rfl rfl

theorem coheres_storeRelative (tree : RegionTree) (target : CoordinateId) (value : Option Float) :
    Coheres id tree (tree.storeRelative target value).2 := by
  unfold storeRelative
  split
  next => exact .refl tree
  next old hold =>
    split
    next => exact coheres_settle_of_relative hold rfl rfl
    next hdiffers =>
      have hnews : news tree.network (tree.send (.relative target old.relative value)).network =
          [.sent (.relative target old.relative value)] := news_note _ _
      refine coheres_settle rfl (.note _ _) ?_ hold rfl ?_
      · simp [hnews, Notice.changes, Notice.change?]
      · rw [hnews, Notice.changes, List.filterMap_cons, List.filterMap_nil]
        by_cases heq : id = target
        · subst heq
          simp only [Notice.change?, and_self, if_true]
          rw [relative_eq_of_coordinate? hold]
          exact .cons (Bool.eq_false_iff.mpr hdiffers) (.nil _)
        · simp only [Notice.change?, Ne.symm heq, heq, and_false, if_false]
          exact .nil _

variable (id)

theorem calculating_coheres : Calculating (Coheres id) where
  refl := .refl
  trans := .trans
  evaluated tree _ := .note tree fun _ => rfl
  storeTare := coheres_storeTare
  storeRelative := coheres_storeRelative

/-! Structure. -/

theorem relinking_coheres : Relinking (Coheres id) where
  toStoring := (calculating_coheres id).toStoring
  setParent tree cell _ := .of_coordinate? (.refl _)
    (coordinate?_editCell tree cell (fun cell => cell.coordinate_relinked _ _) id)
  setChildren tree cell _ := .of_coordinate? (.refl _)
    (coordinate?_editCell tree cell (fun cell => cell.coordinate_relinked _ _) id)
  tellParent tree _ _ _ := .note tree fun _ => rfl
  tellChildren tree _ := .note tree fun _ => rfl

theorem coheres_rebind (tree : RegionTree) (ids : List CellId) :
    Coheres id tree (tree.rebind ids) :=
  .of_coordinate? (murmurs_rebind tree ids) (coordinate?_congr (cells_rebind tree ids) id)

theorem coheres_insert {parent child : CellId} {index : Nat}
    (hinsert : tree.insert parent child index = .ok after) : Coheres id tree after := by
  obtain ⟨_, rfl⟩ := insert_eq_ok hinsert
  rw [place_eq]
  exact ((relinking_coheres id).relocated tree parent child index).trans (coheres_rebind id _ _)

theorem coheres_remove {parent child : CellId} (hremove : tree.remove parent child = .ok after) :
    Coheres id tree after := by
  rw [remove_eq_ok hremove]
  exact ((relinking_coheres id).loosened tree parent child).trans (coheres_rebind id _ _)

theorem coheres_withCell (tree : RegionTree) (recipes : Recipes) (pinned : Bool) :
    Coheres id tree (tree.withCell (.of recipes pinned)) := by
  refine .of_murmurs (.refl _) ?_
  rw [values, coordinate?_withCell, values]
  split
  next hnew =>
    obtain ⟨cell, axis, edge⟩ := id
    subst hnew
    have hunknown : tree.coordinate? ⟨tree.nextCell, axis, edge⟩ = none :=
      coordinate?_nextCell tree axis edge
    rw [hunknown]
    cases axis <;> cases edge <;> rfl
  next => rfl

theorem coheres_addCell (tree : RegionTree) (recipes : Recipes) (pinned : Bool) :
    Coheres id tree (tree.addCell recipes pinned) := by
  have hlistens : ∀ (pairs : List (CoordinateId × Coordinate)) (state : RegionTree),
      Coheres id state (state.listenAll pairs) := fun pairs state =>
    foldl_related .refl .trans
      (fun state _ _ => .of_coordinate? (.of_journal rfl) (coordinate?_congr rfl id)) state
  rw [addCell_eq]
  exact ((coheres_withCell id tree recipes pinned).trans (hlistens _ _)).trans
    (coheres_rebind id _ _)

theorem coheres_createRoot (tree : RegionTree) (recipes : Recipes) :
    Coheres id tree (tree.createRoot recipes).2 := by
  have hadded := coheres_addCell id tree recipes true
  unfold createRoot
  generalize tree.addCell recipes true = added at hadded ⊢
  exact hadded.trans ((calculating_coheres id).storeTares added _ _)

theorem coheres_setName (tree : RegionTree) (cell : CellId) (name : Option String) :
    Coheres id tree (tree.setName cell name) := by
  obtain ⟨label, hlabel⟩ := exists_coordinate?_setName tree cell name id
  refine .of_murmurs (.refl _) ?_
  rw [values, hlabel, Option.map_map, values]
  rfl

theorem coheres_setRecipe {target : CoordinateId} {recipe : LengthId}
    (hset : tree.setRecipe target recipe = .ok after) : Coheres id tree after := by
  refine .of_murmurs ?_ ?_
  · obtain ⟨old, _, rfl⟩ := exists_of_setRecipe hset
    have hassigned : Murmurs tree.network (tree.reassign target old recipe).network :=
      .of_journal rfl
    have hbound := hassigned.trans (murmurs_bindLength _ target recipe)
    rw [announceRecipe]
    split
    · exact hbound.trans (.note _ _ rfl)
    · exact (hbound.trans (.note _ _ rfl)).trans (.note _ _ rfl)
  · obtain ⟨old, hold, hcoordinate⟩ := coordinate?_setRecipe hset
    rw [values, hcoordinate, values]
    split
    next heq =>
      rw [heq, hold]
      rfl
    next => rfl

end Steps

/-! Whole runs. -/

/-- All notices of an operation. Lengths that are replaced from outside bring a journal along, in
which nothing is due to the operation. -/
def report (tree : RegionTree) : TreeOperation → List Notice
  | .replaceLengths _ _ => []
  | operation => news tree.network (tree.perform operation).network

/-- All notices of some operations, one after the other. -/
def chronicle (tree : RegionTree) : List TreeOperation → List Notice
  | [] => []
  | operation :: rest => tree.report operation ++ chronicle (tree.perform operation) rest

section Runs

variable (id : CoordinateId)

theorem coheres_perform (tree : RegionTree) {operation : TreeOperation}
    (hkind : match operation with
      | .replaceLengths _ _ => False
      | _ => True) : Coheres id tree (tree.perform operation) := by
  cases operation with
  | createCell recipes => exact coheres_addCell id tree recipes false
  | createRoot recipes => exact coheres_createRoot id tree recipes
  | append parent child => exact attempt_of (.refl tree) fun _ => coheres_insert id
  | insert parent child index => exact attempt_of (.refl tree) fun _ => coheres_insert id
  | remove parent child => exact attempt_of (.refl tree) fun _ => coheres_remove id
  | setRecipe coordinate recipe => exact attempt_of (.refl tree) fun _ => coheres_setRecipe id
  | setTare coordinate tare =>
      refine attempt_of (.refl tree) fun after hset => ?_
      rw [setTare_eq_ok hset]
      exact (calculating_coheres id).tareAs tree coordinate tare
  | calculate coordinate => exact (calculating_coheres id).calculate tree coordinate
  | rename cell name =>
      refine attempt_of (.refl tree) fun after hrename => ?_
      rw [rename_eq_ok hrename]
      exact coheres_setName id tree cell name
  | replaceLengths network names => exact hkind.elim

theorem chains_report (kind : ValueKind) (tree : RegionTree) (operation : TreeOperation) :
    Chains (tree.value kind id) (Notice.changes kind id (tree.report operation))
      ((tree.perform operation).value kind id) := by
  cases operation with
  | replaceLengths network names =>
      have hsame : (tree.perform (.replaceLengths network names)).value kind id =
          tree.value kind id := by cases kind <;> rfl
      rw [hsame]
      exact .nil _
  | _ => exact (coheres_perform id tree trivial).chains kind

theorem chains_chronicle (kind : ValueKind) (tree : RegionTree) (operations : List TreeOperation) :
    Chains (tree.value kind id) (Notice.changes kind id (tree.chronicle operations))
      ((operations.foldl perform tree).value kind id) := by
  induction operations generalizing tree with
  | nil => exact .nil _
  | cons operation rest ih =>
      rw [chronicle, Notice.changes, List.filterMap_append]
      exact (chains_report id kind tree operation).append (ih (tree.perform operation))

theorem summed_perform {tree : RegionTree} (hsummed : tree.Summed id) (operation : TreeOperation) :
    (tree.perform operation).Summed id := by
  cases operation with
  | replaceLengths network names => exact hsummed
  | _ => exact (coheres_perform id tree trivial).summed hsummed

theorem summed_built (operations : List TreeOperation) : (built operations).Summed id :=
  List.foldlRecOn (motive := fun tree => tree.Summed id) operations perform (.inl rfl)
    fun _ hsummed operation _ => summed_perform id hsummed operation

end Runs

/-- After any operations, a coordinate has an absolute value just if it has both a relative value
and a tare, and then it is their sum, or a number equal to it. What the operations told of its
relative and of its absolute value leads, change by change, from no value to the one it has. -/
theorem values_cohere (operations : List TreeOperation) (id : CoordinateId) :
    ((built operations).absolute id = none ↔
      (built operations).relative id = none ∨ (built operations).tare id = none) ∧
    (∀ relative tare, (built operations).relative id = some relative →
      (built operations).tare id = some tare → ∃ absolute,
        (built operations).absolute id = some absolute ∧
          (absolute = relative + tare ∨ (absolute == relative + tare) = true)) ∧
    Chains none (Notice.changes .relative id (empty.chronicle operations))
      ((built operations).relative id) ∧
    Chains none (Notice.changes .absolute id (empty.chronicle operations))
      ((built operations).absolute id) := by
  have hsummed := summed_built id operations
  refine ⟨?_, fun relative tare hrelative htare => ?_,
    chains_chronicle id .relative empty operations,
    chains_chronicle id .absolute empty operations⟩
  · rw [hsummed.eq_none_iff, total_eq]
    cases (built operations).relative id with
    | none => simp
    | some relative => cases (built operations).tare id <;> simp
  · apply hsummed.exists_absolute
    rw [total_eq, hrelative, htare]

/-- A root whose near edge is calculated and moved twice by hand. -/
def shifted : List TreeOperation :=
  [.replaceLengths (Network.empty.add (.constant 2.0)).2 [], .createRoot ⟨⟨0⟩, ⟨0⟩, ⟨0⟩, ⟨0⟩⟩,
    .calculate ⟨⟨0⟩, .x, .alpha⟩, .setTare ⟨⟨0⟩, .x, .alpha⟩ (some 3.0),
    .setTare ⟨⟨0⟩, .x, .alpha⟩ none]

example : Notice.changes .absolute ⟨⟨0⟩, .x, .alpha⟩ (empty.chronicle shifted) =
    [(none, some 2.0), (some 2.0, some 5.0), (some 5.0, none)] := by
  decide +kernel

end RegionTree

end RegionLayout
