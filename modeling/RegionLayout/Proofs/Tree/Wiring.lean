import RegionLayout.Proofs.Tree.Edits

/-!
Edits of lengths, names and recipes. Whatever is newly used was in use before or is new itself, so
its rosters are as they should be; and a coordinate that gets another recipe announces it.
-/

namespace RegionLayout

/-- The sweep for what is in use depends on nothing but operands. -/
theorem Network.heldFrom_congr {network after : Network}
    (hsize : after.lengths.size = network.lengths.size)
    (hoperands : ∀ id, after.operandsAt id = network.operandsAt id) (roots : List LengthId) :
    after.heldFrom roots = network.heldFrom roots := by
  have hmark : after.markOperands = network.markOperands := by
    funext index marks
    rw [markOperands, hoperands, markOperands]
  show (List.range after.lengths.size).foldr after.markOperands (roots.foldl mark
    (Array.replicate after.lengths.size false)) = (List.range network.lengths.size).foldr
      network.markOperands (roots.foldl mark (Array.replicate network.lengths.size false))
  rw [hmark, hsize]

namespace RegionTree

variable {tree after : RegionTree}

/-! Lengths and names. -/

theorem formula?_of_constant? {id : LengthId} {value : Float}
    (hconstant : tree.constant? id = some value) :
    tree.network.formula? id = some (.constant value) := by
  unfold constant? at hconstant
  split at hconstant
  next hfound => rw [hfound, Option.some.inj hconstant]
  next => contradiction

/-- An edit of a constant moves no operand, so the audience stays. -/
theorem setConstant_of_ne {id : LengthId} {old value : Float} (hold : tree.constant? id = some old)
    (hne : (old == value) = false) : tree.setConstant id value = tree.mapNetwork fun network =>
      (network.setFormula id (.constant value)).invalidate tree.audience id := by
  have hheld := Network.heldFrom_congr (tree.network.size_setFormula id (.constant value))
    (Network.operandsAt_setFormula tree.network (.constant value) (formula?_of_constant? hold) rfl)
    tree.roots
  have hset : (tree.mapNetwork fun network => network.setFormula id (.constant value)).audience =
      tree.audience :=
    congrArg (fun held => (⟨held, tree.audience.wirings, tree.audience.watches⟩ : Audience)) hheld
  simp only [setConstant, hold, hne, Bool.false_eq_true, if_false, invalidate]
  rw [hset]
  rfl

theorem setConstant_of_eq {id : LengthId} {old value : Float} (hold : tree.constant? id = some old)
    (heq : (old == value) = true) : tree.setConstant id value = tree := by
  simp only [setConstant, hold, heq, if_true]

/-- Only a constant that comes to another value is edited. -/
theorem setConstant_cases (tree : RegionTree) (id : LengthId) (value : Float) :
    tree.setConstant id value = tree ∨ ∃ old, tree.constant? id = some old ∧
      (old == value) = false ∧ tree.setConstant id value = tree.mapNetwork fun network =>
        (network.setFormula id (.constant value)).invalidate tree.audience id := by
  cases hold : tree.constant? id with
  | none => exact .inl (by simp only [setConstant, hold])
  | some old =>
      cases hequal : old == value with
      | true => exact .inl (setConstant_of_eq hold hequal)
      | false => exact .inr ⟨old, rfl, hequal, setConstant_of_ne hold hequal⟩

theorem setConstant_eq_network (tree : RegionTree) (id : LengthId) (value : Float) :
    tree.setConstant id value = { tree with network := (tree.setConstant id value).network } := by
  unfold setConstant
  split
  · split
    · rfl
    · rfl
  · rfl

theorem edits_setConstant (tree : RegionTree) (id : LengthId) (value : Float) :
    Edits tree (tree.setConstant id value) := by
  rcases setConstant_cases tree id value with hsame | ⟨old, hold, _, hedit⟩
  · rw [hsame]
    exact .refl tree
  · rw [hedit]
    exact Rebinds.edits ⟨rfl, rfl, Network.honest_setConstant (formula?_of_constant? hold) value⟩

theorem edits_setNames {names : List (String × LengthId)} (hsound : tree.Sound)
    (hheld : ∀ entry ∈ names, tree.audience.includes (.operandOf entry.2) = true) :
    Tells tree { tree with names } ∧ Sound { tree with names } := by
  have hincluded : ∀ root ∈ RegionTree.roots { tree with names },
      tree.audience.includes (.operandOf root) = true := by
    intro root hroot
    rcases mem_roots_iff.mp hroot with ⟨name, hname⟩ | hrecipe
    · exact hheld (name, root) hname
    · exact hsound.includes_root (mem_roots_iff.mpr (.inr hrecipe))
  obtain ⟨hnetwork, hroots⟩ := network_sound_of_held { tree with names } hsound.network hincluded
  refine ⟨⟨⟨.refl _, .refl _, fun id old hold => ?_⟩, fun _ => rfl⟩, hnetwork, hroots,
    hsound.enrolled, hsound.addressed, hsound.children_nodup, hsound.children_lt⟩
  exact ⟨old, hold, .of_same hsound rfl (fun _ _ => rfl) hold⟩

theorem Sound.includes_name (hsound : tree.Sound) {entry : String × LengthId}
    (hentry : entry ∈ tree.names) : tree.audience.includes (.operandOf entry.2) = true :=
  hsound.includes_root (mem_roots_iff.mpr (.inl ⟨entry.1, hentry⟩))

theorem mem_of_named? {name : String} {id : LengthId} (hnamed : tree.named? name = some id) :
    (name, id) ∈ tree.names := by
  obtain ⟨entry, hentry, rfl⟩ := Option.map_eq_some_iff.mp hnamed
  have hname := List.find?_some hentry
  rw [← beq_iff_eq.mp hname]
  exact List.mem_of_find?_eq_some hentry

theorem edits_forget (tree : RegionTree) (name : String) : Edits tree (tree.forget name).2 :=
  fun hsound => edits_setNames hsound fun _ hentry =>
    hsound.includes_name (List.mem_of_mem_filter hentry)

theorem edits_keep (name : String) {id : LengthId}
    (hheld : tree.Sound → tree.audience.includes (.operandOf id) = true) :
    Edits tree (tree.keep name id) := by
  intro hsound
  refine edits_setNames hsound fun entry hentry => ?_
  rcases List.mem_cons.mp hentry with rfl | hentry
  · exact hheld hsound
  · exact hsound.includes_name (List.mem_of_mem_filter hentry)

/-! A new length, kept under a name. -/

section Growth

variable {formula : Formula} (hsound : tree.Sound)
  (hgrows : Network.Grows tree.network after.network formula) (hcells : after.cells = tree.cells)
  (hnames : ∀ entry ∈ after.names, entry ∈ tree.names ∨ entry.2 = ⟨tree.network.lengths.size⟩)
  (hoperands : ∀ operand ∈ formula.operands,
    tree.audience.includes (.operandOf operand) = true)

include hcells hnames in
theorem mem_roots_of_grows {root : LengthId} (hroot : root ∈ after.roots) :
    root ∈ tree.roots ∨ root = ⟨tree.network.lengths.size⟩ := by
  rcases mem_roots_iff.mp hroot with ⟨name, hname⟩ | ⟨owner, coordinate, hcoordinate, rfl⟩
  · exact (hnames (name, root) hname).imp_left fun hentry => mem_roots_iff.mpr (.inl ⟨name, hentry⟩)
  · rw [coordinate?_congr hcells] at hcoordinate
    exact .inl (mem_roots_iff.mpr (.inr ⟨owner, coordinate, hcoordinate, rfl⟩))

include hsound hgrows hcells hnames

theorem roots_lt_of_grows {root : LengthId} (hroot : root ∈ after.roots) :
    root.index < after.network.lengths.size := by
  rw [hgrows.size]
  rcases mem_roots_of_grows hcells hnames hroot with hold | rfl
  · exact (hsound.roots root hold).trans (Nat.lt_succ_self _)
  · exact Nat.lt_succ_self _

include hoperands

/-- What is in use of a larger tree is new or was in use before. -/
theorem held_of_grows (id : LengthId) (hheld : after.audience.includes (.operandOf id) = true) :
    id = ⟨tree.network.lengths.size⟩ ∨ tree.audience.includes (.operandOf id) = true := by
  have holder := hsound.network.laid.older
  have holder' := hgrows.older holder fun operand hoperand =>
    hsound.network.laid.bounded operand (hoperands operand hoperand)
  obtain ⟨root, hroot, hpath⟩ := (includes_operandOf_iff holder' fun root hroot =>
    roots_lt_of_grows hsound hgrows hcells hnames hroot).mp hheld
  rcases mem_roots_of_grows hcells hnames hroot with hold | rfl
  · rw [hgrows.builtOf_iff holder (hsound.roots root hold)] at hpath
    exact .inr ((includes_operandOf_iff holder hsound.roots).mpr ⟨root, hold, hpath⟩)
  · rcases hpath.cases_head with rfl | ⟨operand, hoperand, hrest⟩
    · exact .inl rfl
    · rw [hgrows.operandsAt_new] at hoperand
      have hused := hoperands operand hoperand
      rw [show Relation.ReflTransGen _ operand id = after.network.BuiltOf operand id from rfl,
        hgrows.builtOf_iff holder (hsound.network.laid.bounded operand hused)] at hrest
      exact .inr (hsound.network.laid.closed_builtOf hused hrest)

theorem edits_of_grows (hnetwork : ∀ larger : Audience,
      (∀ id, larger.includes (.operandOf id) = true →
        id = ⟨tree.network.lengths.size⟩ ∨ tree.audience.includes (.operandOf id) = true) →
      (∀ upper lower, larger.includes (.operandOf upper) = true →
        lower ∈ after.network.operandsAt upper → larger.includes (.operandOf lower) = true) →
      after.network.Sound larger) :
    Tells tree after ∧ after.Sound := by
  have hroots : ∀ root ∈ after.roots, root.index < after.network.lengths.size :=
    fun _ hroot => roots_lt_of_grows hsound hgrows hcells hnames hroot
  have holder := hgrows.older hsound.network.laid.older fun operand hoperand =>
    hsound.network.laid.bounded operand (hoperands operand hoperand)
  have hgrown := hnetwork after.audience (held_of_grows hsound hgrows hcells hnames hoperands)
    (closed_audience holder hroots)
  have hcoordinate := coordinate?_congr hcells
  have hchildren := children_congr hcells
  have hunfolds := hgrows.unfolds hsound.network.laid.builtIn hgrown.laid.builtIn
  refine ⟨⟨⟨?_, hunfolds, fun id old hold => ?_⟩, fun id => ?_⟩, hgrown, hroots,
    fun owner coordinate hold channel => ?_, fun channel id owner wiring hmem => ?_, fun id => ?_,
    fun id => ?_⟩
  · simp only [Network.Recorded, hgrows.journal, List.prefix_rfl]
  · refine ⟨old, (hcoordinate id).trans hold, .of_same hsound rfl (fun id hlt => ?_) hold⟩
    rw [hgrows.formula, if_neg (Network.Grows.ne_of_lt hlt)]
  · rw [relative, hcoordinate, relative]
  · rw [hcoordinate] at hold
    rw [hgrows.listeners]
    exact List.mem_append_left _ (hsound.enrolled owner coordinate hold channel)
  · rw [hgrows.listeners, List.mem_append] at hmem
    rw [Addresses, hcoordinate]
    refine hsound.addressed channel id owner wiring (hmem.resolve_right fun hnew => ?_)
    exact absurd (List.eq_of_mem_replicate hnew) (by simp)
  · rw [hchildren]
    exact hsound.children_nodup id
  · rw [hchildren, size, hcells]
    exact hsound.children_lt id

end Growth

theorem mem_names_keep {names : List (String × LengthId)} {name : String} {id : LengthId}
    {entry : String × LengthId}
    (hentry : entry ∈ (name, id) :: names.filter fun entry => entry.1 != name) :
    entry ∈ names ∨ entry.2 = id := by
  rcases List.mem_cons.mp hentry with rfl | hentry
  · exact .inr rfl
  · exact .inl (List.mem_of_mem_filter hentry)

theorem edits_keepLength (tree : RegionTree) (name : String) {formula : Formula}
    (hleaf : Network.Leaf formula) :
    Edits tree ((tree.addLength formula).2.keep name (tree.addLength formula).1) := by
  intro hsound
  exact edits_of_grows hsound (Network.grows_add tree.network hleaf.operands) rfl
    (fun _ => mem_names_keep) (by simp [hleaf.operands])
    fun larger hheld hclosed => Network.sound_add hsound.network hheld hleaf hclosed

theorem edits_keepCompound (name : String) {shape : Compound}
    (hheld : tree.Sound → ∀ operand ∈ shape.lengths,
      tree.audience.includes (.operandOf operand) = true) :
    Edits tree ((tree.addCompound shape).2.keep name (tree.addCompound shape).1) := by
  intro hsound
  have hlt : ∀ operand ∈ shape.lengths, operand.index < tree.network.lengths.size :=
    fun operand hoperand => hsound.network.laid.bounded operand (hheld hsound operand hoperand)
  exact edits_of_grows hsound (Network.grows_addCompound hsound.network.laid.builtIn hlt) rfl
    (fun _ => mem_names_keep) (hheld hsound)
    fun larger hheld hclosed => Network.sound_addCompound hsound.network hheld hlt hclosed

end RegionTree

end RegionLayout
