import RegionLayout.Proofs.Tree.Session

/-!
What compounds read. Between any two actions, a compound that is in use lists once each what at
least one of its operands reads; and while lengths are bound anew, each announces exactly how what
it reads changes, so a compound gives a coordinate up when the last operand that read it lets it go.
So no length that is in use reads more of a tree than it lists.
-/

namespace RegionLayout

/-- What an application does with a tree of cells and the lengths in it. -/
inductive TreeAction where
  | edit (edit : TreeEdit)
  | calculate (coordinate : CoordinateId)
  /-- Binds a length for a coordinate that need not have it as its recipe. -/
  | bind (name : String) (owner : CoordinateId)

namespace RegionTree

def act (tree : RegionTree) : TreeAction → RegionTree
  | .edit edit => edit.apply tree
  | .calculate coordinate => (tree.calculate coordinate).2
  | .bind name owner =>
    match tree.named? name with
    | some id => tree.bindLength owner id
    | none => tree

/-- The tree after some actions, starting from none. -/
def acted (actions : List TreeAction) : RegionTree :=
  actions.foldl act empty

theorem keeps_act (tree : RegionTree) (action : TreeAction) : Keeps tree (tree.act action) := by
  cases action with
  | edit edit => exact (edits_apply tree edit).keeps
  | calculate coordinate => exact keeps_calculate tree coordinate
  | bind name owner =>
      simp only [act]
      split
      next id _ => exact (edits_bindLength tree owner id).keeps
      next => exact .refl tree

theorem Sound.empty : RegionTree.empty.Sound where
  network := Network.sound_of_constants (fun _ hlength => absurd hlength (Array.not_mem_empty _))
    fun _ => lt_of_includes_operandOf
  roots _ hroot := absurd hroot List.not_mem_nil
  enrolled _ _ hcoordinate := nomatch hcoordinate
  addressed _ _ _ _ hmem := absurd hmem List.not_mem_nil
  children_nodup _ := List.nodup_nil
  children_lt _ _ hchild := absurd hchild List.not_mem_nil

theorem Sound.acted (actions : List TreeAction) : (acted actions).Sound :=
  List.foldlRecOn actions act Sound.empty fun tree hsound action _ =>
    (keeps_act tree action hsound).2

theorem Sound.prerequisites_compound {tree : RegionTree} (hsound : tree.Sound) {root id : LengthId}
    (hroot : root ∈ tree.roots) (hpath : tree.network.BuiltOf root id) {shape : Compound}
    {tally : PrerequisiteTally}
    (hformula : tree.network.formula? id = some (.compound shape tally)) :
    (tree.network.prerequisites id).Nodup ∧
      ∀ coordinate, coordinate ∈ tree.network.prerequisites id ↔
        ∃ operand ∈ shape.lengths, coordinate ∈ tree.network.prerequisites operand := by
  have hheld := hsound.network.laid.closed_builtOf (hsound.includes_root hroot) hpath
  simp only [hsound.network.laid.builtIn.prerequisites]
  exact ⟨hsound.network.ledger.nodup id,
    fun _ => hsound.network.ledger.mem_reads_iff hheld hformula⟩

/-- After any actions, compounds in use read the union of what their operands read, without
duplicates; whatever is done next unfolds into steps in which lengths announce exactly how they
change, each announcement in one of them; and a new compound takes its operands up as exactly. -/
theorem compounds_read_union (actions : List TreeAction) :
    (∀ root ∈ (acted actions).roots, ∀ id shape tally,
      (acted actions).network.BuiltOf root id →
        (acted actions).network.formula? id = some (.compound shape tally) →
          ((acted actions).network.prerequisites id).Nodup ∧
            ∀ coordinate, coordinate ∈ (acted actions).network.prerequisites id ↔
              ∃ operand ∈ shape.lengths,
                coordinate ∈ (acted actions).network.prerequisites operand) ∧
    (∀ action,
      Network.Unfolds (acted actions).network (acted (actions ++ [action])).network ∧
        ∀ id change, .sent (.lengthPrerequisites id change) ∈
            Network.news (acted actions).network (acted (actions ++ [action])).network →
          ∃ first second, Network.Unfolds (acted actions).network first ∧
            Network.Announces id change first second ∧
              Network.Unfolds second (acted (actions ++ [action])).network) ∧
    ∀ done next,
      (((acted actions).network.tallyOf done).apply
        (.adding ((acted actions).network.prerequisites next))).1.Exact
          ((acted actions).network.tallyOf done).members
          ((acted actions).network.tallyOf (done ++ [next])).members := by
  have hsound := Sound.acted actions
  refine ⟨fun root hroot id shape tally hpath hformula =>
    hsound.prerequisites_compound hroot hpath hformula, fun action => ?_, fun done next => ?_⟩
  · have hstep : acted (actions ++ [action]) = (acted actions).act action := by
      rw [acted, List.foldl_append, List.foldl_cons, List.foldl_nil, ← acted]
    have hunfolds := (keeps_act (acted actions) action hsound).1.unfolds
    rw [hstep]
    exact ⟨hunfolds, fun id change hnews => hunfolds.exists_announces hnews⟩
  · refine Network.exact_tallyOf ?_ done
    rw [hsound.network.laid.builtIn.prerequisites]
    exact hsound.network.ledger.nodup next

/-- Two spans of one ancestor, and their sum as the recipe of a cell that comes and goes. -/
def spansShared : List TreeAction :=
  [.edit (.make "zero" (.constant 0.0)), .edit (.make "first" (.ancestorSpan 1 1.0)),
    .edit (.make "second" (.ancestorSpan 1 0.5)),
    .edit (.make "sum" (.binary .add "first" "second")),
    .edit (.createRoot ⟨"zero", "zero", "zero", "zero"⟩),
    .edit (.createCell ⟨"zero", "sum", "zero", "zero"⟩), .edit (.append ⟨0⟩ ⟨1⟩),
    .edit (.remove ⟨0⟩ ⟨1⟩)]

def changesOf (tree : RegionTree) (id : LengthId) : List PrerequisiteChange :=
  tree.network.journal.toList.filterMap fun
    | .sent (.lengthPrerequisites of change) => if of = id then some change else none
    | _ => none

example : (acted spansShared).changesOf ⟨3⟩ =
    [.adding [⟨⟨0⟩, .x, .alpha⟩, ⟨⟨0⟩, .x, .beta⟩],
      .removing [⟨⟨0⟩, .x, .alpha⟩, ⟨⟨0⟩, .x, .beta⟩]] := by
  decide +kernel

/-- Trees that give the same relative values where a length reads give it the same result, be it a
value, the absence of one or a failure, however else they differ. -/
theorem value_eq_of_prerequisites {actions : List TreeAction} {root id : LengthId}
    (hroot : root ∈ (acted actions).roots) (hpath : (acted actions).network.BuiltOf root id)
    {first second : RegionTree}
    (hsame : ∀ coordinate ∈ (acted actions).network.prerequisites id,
      first.relative coordinate = second.relative coordinate) :
    (acted actions).network.value first.relative id =
      (acted actions).network.value second.relative id := by
  have hsound := Sound.acted actions
  have hlaid := hsound.network.laid
  have hheld := hlaid.closed_builtOf (hsound.includes_root hroot) hpath
  refine Network.value_congr_read hlaid.builtIn hlaid.older
    (hsound.network.ledger.covers hlaid hheld) ?_
  rwa [← hlaid.builtIn.prerequisites]

theorem acted_snoc (actions : List TreeAction) (action : TreeAction) :
    acted (actions ++ [action]) = (acted actions).act action := by
  rw [acted, List.foldl_append, List.foldl_cons, List.foldl_nil, acted]

theorem relative_acted_edit (actions : List TreeAction) (edit : TreeEdit) (id : CoordinateId) :
    (acted (actions ++ [.edit edit])).relative id = (acted actions).relative id := by
  rw [acted_snoc]
  exact ((edits_apply (acted actions) edit) (Sound.acted actions)).1.relative id

theorem relative_acted_calculate (actions : List TreeAction) {id other : CoordinateId}
    (hne : other ≠ id) :
    (acted (actions ++ [.calculate id])).relative other = (acted actions).relative other := by
  rw [acted_snoc, act, (calculate_spec (acted actions) id).2.2, if_neg hne]

/-- A root that has values on one axis. -/
def measured : List TreeAction :=
  [.edit (.make "zero" (.constant 0.0)), .edit (.createRoot ⟨"zero", "zero", "zero", "zero"⟩),
    .calculate ⟨⟨0⟩, .x, .alpha⟩, .calculate ⟨⟨0⟩, .x, .beta⟩]

/-- The sum of two spans of a root on one axis stays the same when the root gets a value on the
other axis, another tare and a child. -/
theorem spans_value_eq :
    (acted (spansShared.take 7)).network.prerequisites ⟨3⟩ =
      [⟨⟨0⟩, .x, .alpha⟩, ⟨⟨0⟩, .x, .beta⟩] ∧
    (acted (spansShared.take 7)).network.value (acted measured).relative ⟨3⟩ =
      (acted (spansShared.take 7)).network.value
        (acted (measured ++ [.calculate ⟨⟨0⟩, .y, .alpha⟩] ++
          [.edit (.setTare ⟨⟨0⟩, .x, .alpha⟩ none)] ++
          [.edit (.createCell ⟨"zero", "zero", "zero", "zero"⟩)] ++
          [.edit (.append ⟨0⟩ ⟨1⟩)])).relative ⟨3⟩ := by
  have hreads : (acted (spansShared.take 7)).network.prerequisites ⟨3⟩ =
      [⟨⟨0⟩, .x, .alpha⟩, ⟨⟨0⟩, .x, .beta⟩] := by decide +kernel
  have hroot : ⟨3⟩ ∈ (acted (spansShared.take 7)).roots := by decide +kernel
  refine ⟨hreads, value_eq_of_prerequisites hroot .refl fun coordinate hmem => ?_⟩
  rw [relative_acted_edit, relative_acted_edit, relative_acted_edit, relative_acted_calculate]
  rintro rfl
  rw [hreads] at hmem
  exact absurd hmem (by decide)

end RegionTree

end RegionLayout
