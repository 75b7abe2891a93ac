import RegionLayout.Proofs.Tree.Placement

/-!
Edits of a tree as an application makes them. It makes built-in lengths, keeps them under names, and
names them wherever a length is asked for; an edit that cannot be made changes nothing.
-/

namespace RegionLayout

/-! Lengths as a session describes them. -/

inductive Part where
  | length (name : String)
  | value (number : Float)

inductive Blueprint where
  | constant (value : Float)
  | ancestorSpan (generations : Nat) (factor : Float)
  | childrenMax
  | sibling (edge : Edge) (strict : Bool) (offset : Float)
  | fallback (preferred alternative : String)
  | binary (operator : Operator) (lhs rhs : String)
  | chain (parts : List Part) (operators : List Operator)

namespace Blueprint

def leaf? : Blueprint → Option Formula
  | constant value => some (.constant value)
  | ancestorSpan generations factor => some (.ancestorSpan (.of generations factor))
  | childrenMax => some (.childrenMax [])
  | sibling edge strict offset => some (.sibling (.of edge strict offset))
  | _ => none

def operand? (named : String → Option LengthId) : Part → Option Operand
  | .length name => (named name).map .length
  | .value number => some (.value number)

def operands? (named : String → Option LengthId) : List Part → Option (List Operand)
  | [] => some []
  | part :: rest =>
    match operand? named part, operands? named rest with
    | some operand, some operands => some (operand :: operands)
    | _, _ => none

/-- The shape of a compound, if all its operands are known. -/
def shape? (named : String → Option LengthId) : Blueprint → Option Compound
  | fallback preferred alternative =>
    match named preferred, named alternative with
    | some preferred, some alternative => some (.fallback preferred alternative)
    | _, _ => none
  | binary operator lhs rhs =>
    match named lhs, named rhs with
    | some lhs, some rhs => some (.binary operator lhs rhs)
    | _, _ => none
  | chain parts operators => (operands? named parts).map fun operands => .chain operands operators
  | _ => none

end Blueprint

/-- The names of a cell's recipes. -/
structure RecipeNames where
  xAlpha : String
  xBeta : String
  yAlpha : String
  yBeta : String

def RecipeNames.recipes? (names : RecipeNames) (named : String → Option LengthId) :
    Option Recipes :=
  match named names.xAlpha, named names.xBeta, named names.yAlpha, named names.yBeta with
  | some xAlpha, some xBeta, some yAlpha, some yBeta => some ⟨xAlpha, xBeta, yAlpha, yBeta⟩
  | _, _, _, _ => none

/-! Edits. -/

/-- An edit of the tree, or of a length in it, that moves no relative value. -/
inductive TreeEdit where
  | make (name : String) (blueprint : Blueprint)
  /-- Keeps the recipe of a coordinate under a name. -/
  | share (name : String) (coordinate : CoordinateId)
  | forget (name : String)
  | setConstant (name : String) (value : Float)
  | createCell (names : RecipeNames)
  | createRoot (names : RecipeNames)
  | append (parent child : CellId)
  | insert (parent child : CellId) (index : Nat)
  | remove (parent child : CellId)
  | setRecipe (coordinate : CoordinateId) (name : String)
  | setTare (coordinate : CoordinateId) (tare : Option Float)
  | rename (cell : CellId) (name : Option String)

namespace RegionTree

def make (tree : RegionTree) (name : String) (blueprint : Blueprint) : RegionTree :=
  match blueprint.leaf? with
  | some formula => (tree.addLength formula).2.keep name (tree.addLength formula).1
  | none =>
    match blueprint.shape? tree.named? with
    | some shape => (tree.addCompound shape).2.keep name (tree.addCompound shape).1
    | none => tree

def attempt (tree : RegionTree) : Except LayoutError RegionTree → RegionTree
  | .ok after => after
  | .error _ => tree

end RegionTree

def TreeEdit.apply (tree : RegionTree) : TreeEdit → RegionTree
  | make name blueprint => tree.make name blueprint
  | share name coordinate =>
    match tree.coordinate? coordinate with
    | some coordinate => tree.keep name coordinate.recipe
    | none => tree
  | forget name => (tree.forget name).2
  | setConstant name value =>
    match tree.named? name with
    | some id => tree.setConstant id value
    | none => tree
  | createCell names =>
    match names.recipes? tree.named? with
    | some recipes => (tree.createCell recipes).2
    | none => tree
  | createRoot names =>
    match names.recipes? tree.named? with
    | some recipes => (tree.createRoot recipes).2
    | none => tree
  | append parent child => tree.attempt (tree.append parent child)
  | insert parent child index => tree.attempt (tree.insert parent child index)
  | remove parent child => tree.attempt (tree.remove parent child)
  | setRecipe coordinate name =>
    match tree.named? name with
    | some recipe => tree.attempt (tree.setRecipe coordinate recipe)
    | none => tree
  | setTare coordinate tare => tree.attempt (tree.setTare coordinate tare)
  | rename cell name => tree.attempt (tree.rename cell name)

/-! Every edit of the tree tells what it changes. -/

namespace Blueprint

theorem leaf_of_leaf? {blueprint : Blueprint} {formula : Formula}
    (hleaf : blueprint.leaf? = some formula) : Network.Leaf formula := by
  cases blueprint with
  | constant value =>
      rw [← Option.some.inj hleaf]
      exact Network.leaf_constant value
  | ancestorSpan generations factor =>
      rw [← Option.some.inj hleaf]
      refine ⟨rfl, rfl, nofun, List.nodup_nil, fun span heq => .inl ?_⟩
      rw [← Formula.ancestorSpan.inj heq]
      rfl
  | childrenMax =>
      rw [← Option.some.inj hleaf]
      exact ⟨rfl, rfl, nofun, List.nodup_nil, nofun⟩
  | sibling edge strict offset =>
      rw [← Option.some.inj hleaf]
      exact Network.leaf_sibling _
  | _ => contradiction

theorem named_of_operands? {named : String → Option LengthId} {parts : List Part}
    {operands : List Operand} (hoperands : operands? named parts = some operands)
    {operand : Operand} (hmem : operand ∈ operands) {id : LengthId}
    (hid : operand.length? = some id) : ∃ name, named name = some id := by
  induction parts generalizing operands with
  | nil =>
      rw [← Option.some.inj hoperands] at hmem
      contradiction
  | cons part rest ih =>
      rw [operands?] at hoperands
      split at hoperands
      next first others hfirst hothers =>
        rw [← Option.some.inj hoperands] at hmem
        rcases List.mem_cons.mp hmem with rfl | hmem
        · cases part with
          | length name =>
              obtain ⟨found, hfound, rfl⟩ := Option.map_eq_some_iff.mp hfirst
              exact ⟨name, hfound.trans hid⟩
          | value number =>
              rw [← Option.some.inj hfirst] at hid
              contradiction
        · exact ih hothers hmem
      next => contradiction

theorem named_of_shape? {named : String → Option LengthId} {blueprint : Blueprint}
    {shape : Compound} (hshape : blueprint.shape? named = some shape) {id : LengthId}
    (hid : id ∈ shape.lengths) : ∃ name, named name = some id := by
  cases blueprint with
  | fallback preferred alternative =>
      rw [shape?] at hshape
      split at hshape
      next first second hfirst hsecond =>
        rw [← Option.some.inj hshape] at hid
        simp only [Compound.lengths, List.mem_cons, List.not_mem_nil, or_false] at hid
        rcases hid with rfl | rfl
        · exact ⟨preferred, hfirst⟩
        · exact ⟨alternative, hsecond⟩
      next => contradiction
  | binary operator lhs rhs =>
      rw [shape?] at hshape
      split at hshape
      next first second hfirst hsecond =>
        rw [← Option.some.inj hshape] at hid
        simp only [Compound.lengths, List.mem_cons, List.not_mem_nil, or_false] at hid
        rcases hid with rfl | rfl
        · exact ⟨lhs, hfirst⟩
        · exact ⟨rhs, hsecond⟩
      next => contradiction
  | chain parts operators =>
      obtain ⟨operands, hoperands, rfl⟩ := Option.map_eq_some_iff.mp hshape
      obtain ⟨operand, hmem, hlength⟩ := List.mem_filterMap.mp hid
      exact named_of_operands? hoperands hmem hlength
  | _ => contradiction

end Blueprint

theorem RecipeNames.named_of_recipes? {names : RecipeNames} {named : String → Option LengthId}
    {recipes : Recipes} (hrecipes : names.recipes? named = some recipes) {id : LengthId}
    (hid : id ∈ recipes.lengths) : ∃ name, named name = some id := by
  unfold recipes? at hrecipes
  split at hrecipes
  next hxAlpha hxBeta hyAlpha hyBeta =>
    rw [← Option.some.inj hrecipes] at hid
    simp only [Recipes.lengths, List.mem_cons, List.not_mem_nil, or_false] at hid
    rcases hid with rfl | rfl | rfl | rfl
    · exact ⟨_, hxAlpha⟩
    · exact ⟨_, hxBeta⟩
    · exact ⟨_, hyAlpha⟩
    · exact ⟨_, hyBeta⟩
  next => contradiction

namespace RegionTree

variable {tree : RegionTree}

theorem Sound.includes_named (hsound : tree.Sound) {id : LengthId}
    (hnamed : ∃ name, tree.named? name = some id) :
    tree.audience.includes (.operandOf id) = true := by
  obtain ⟨name, hname⟩ := hnamed
  exact hsound.includes_name (mem_of_named? hname)

theorem Sound.usable_named (hsound : tree.Sound) {ids : List LengthId}
    (hnamed : ∀ id ∈ ids, ∃ name, tree.named? name = some id) : tree.Usable ids :=
  hsound.usable fun id hid => hsound.includes_named (hnamed id hid)

theorem edits_make (tree : RegionTree) (name : String) (blueprint : Blueprint) :
    Edits tree (tree.make name blueprint) := by
  unfold make
  split
  next formula hleaf => exact edits_keepLength tree name (Blueprint.leaf_of_leaf? hleaf)
  next =>
    split
    next shape hshape =>
      exact edits_keepCompound name fun hsound operand hoperand =>
        hsound.includes_named (Blueprint.named_of_shape? hshape hoperand)
    next => exact .refl tree

/-- What holds of the tree and of all that the attempt makes of it holds after the attempt. -/
theorem attempt_of {holds : RegionTree → Prop} {result : Except LayoutError RegionTree}
    (htree : holds tree) (hresult : ∀ after, result = .ok after → holds after) :
    holds (tree.attempt result) := by
  cases result with
  | error failure => exact htree
  | ok after => exact hresult after rfl

end RegionTree

/-- What an edit can make of a tree. The lengths that it names are known, and what it asks for is
accepted; or else the tree stays as it is. -/
inductive TreeEdit.Applied (tree : RegionTree) : RegionTree → Prop where
  | refused : Applied tree tree
  | made (name : String) (blueprint : Blueprint) : Applied tree (tree.make name blueprint)
  | shared (name : String) {id : CoordinateId} {coordinate : Coordinate}
      (hcoordinate : tree.coordinate? id = some coordinate) :
      Applied tree (tree.keep name coordinate.recipe)
  | forgotten (name : String) : Applied tree (tree.forget name).2
  | setConstant (id : LengthId) (value : Float) : Applied tree (tree.setConstant id value)
  | createdCell {recipes : Recipes}
      (hnamed : ∀ id ∈ recipes.lengths, ∃ name, tree.named? name = some id) :
      Applied tree (tree.createCell recipes).2
  | createdRoot {recipes : Recipes}
      (hnamed : ∀ id ∈ recipes.lengths, ∃ name, tree.named? name = some id) :
      Applied tree (tree.createRoot recipes).2
  | inserted {after : RegionTree} {parent child : CellId} {index : Nat}
      (hinsert : tree.insert parent child index = .ok after) : Applied tree after
  | removed {after : RegionTree} {parent child : CellId}
      (hremove : tree.remove parent child = .ok after) : Applied tree after
  | setRecipe {after : RegionTree} {id : CoordinateId} {recipe : LengthId}
      (hnamed : ∃ name, tree.named? name = some recipe)
      (hset : tree.setRecipe id recipe = .ok after) : Applied tree after
  | setTare {after : RegionTree} {id : CoordinateId} {tare : Option Float}
      (hset : tree.setTare id tare = .ok after) : Applied tree after
  | renamed {after : RegionTree} {id : CellId} {name : Option String}
      (hrename : tree.rename id name = .ok after) : Applied tree after

theorem TreeEdit.applied_apply (tree : RegionTree) (edit : TreeEdit) :
    Applied tree (edit.apply tree) := by
  cases edit with
  | make name blueprint => exact .made name blueprint
  | share name coordinate =>
      simp only [apply]
      split
      next held hheld => exact .shared name hheld
      next => exact .refused
  | forget name => exact .forgotten name
  | setConstant name value =>
      simp only [apply]
      split
      next id _ => exact .setConstant id value
      next => exact .refused
  | createCell names =>
      simp only [apply]
      split
      next recipes hrecipes =>
        exact .createdCell fun _ hid => RecipeNames.named_of_recipes? hrecipes hid
      next => exact .refused
  | createRoot names =>
      simp only [apply]
      split
      next recipes hrecipes =>
        exact .createdRoot fun _ hid => RecipeNames.named_of_recipes? hrecipes hid
      next => exact .refused
  | append parent child => exact RegionTree.attempt_of .refused fun _ => .inserted
  | insert parent child index => exact RegionTree.attempt_of .refused fun _ => .inserted
  | remove parent child => exact RegionTree.attempt_of .refused fun _ => .removed
  | setRecipe coordinate name =>
      simp only [apply]
      split
      next recipe hrecipe =>
        exact RegionTree.attempt_of .refused fun _ => .setRecipe ⟨name, hrecipe⟩
      next => exact .refused
  | setTare coordinate tare => exact RegionTree.attempt_of .refused fun _ => .setTare
  | rename cell name => exact RegionTree.attempt_of .refused fun _ => .renamed

namespace RegionTree

variable {tree after : RegionTree}

theorem edits_of_applied (happlied : TreeEdit.Applied tree after) : Edits tree after := by
  cases happlied with
  | refused => exact .refl tree
  | made name blueprint => exact edits_make tree name blueprint
  | shared name hcoordinate =>
      exact edits_keep name fun hsound => hsound.includes_recipe hcoordinate
  | forgotten name => exact edits_forget tree name
  | setConstant id value => exact edits_setConstant tree id value
  | createdCell hnamed => exact edits_createCell fun hsound => hsound.usable_named hnamed
  | createdRoot hnamed => exact edits_createRoot fun hsound => hsound.usable_named hnamed
  | inserted hinsert => exact edits_insert hinsert
  | removed hremove => exact edits_remove hremove
  | setRecipe hnamed hset => exact edits_setRecipe (fun hsound => hsound.includes_named hnamed) hset
  | setTare hset => exact edits_setTare hset
  | renamed hrename => exact edits_rename hrename

theorem edits_apply (tree : RegionTree) (edit : TreeEdit) : Edits tree (edit.apply tree) :=
  edits_of_applied (edit.applied_apply tree)

end RegionTree

end RegionLayout
