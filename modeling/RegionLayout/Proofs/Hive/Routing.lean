import RegionLayout.Proofs.Hive.Passes
import RegionLayout.Proofs.Tree.Routing
import RegionLayout.Proofs.Tree.Watch

/-!
Setting a constant as a hive sees it. Whatever was done before, a value equal to the present one
changes nothing; any other adds to the work of the next pass the registered coordinates that now
rely on the constant, and nothing else.
-/

namespace RegionLayout

/-- A step of an application that also looks on, and binds lengths by itself. -/
inductive Move where
  | act (action : Action)
  | bind (owner : CoordinateId) (name : String)
  | watch (tag : String) (target : WatchTarget)
  | unwatch (tag : String)

namespace Hive

def move (hive : Hive) : Move → Hive
  | .act action => hive.perform action
  | .bind owner name =>
    match hive.tree.named? name with
    | some id => hive.edit fun tree => tree.bindLength owner id
    | none => hive
  | .watch tag target => hive.edit fun tree => (tree.watch tag target).2
  | .unwatch tag => hive.edit fun tree => (tree.unwatch tag).2

/-- The hive after an application made its moves. -/
def reached (config : HiveConfig) (moves : List Move) : Hive :=
  moves.foldl move (ofConfig config)

variable {hive : Hive}

theorem Sound.adopt (hsound : hive.Sound) {tree : RegionTree}
    (hedits : RegionTree.Edits hive.tree tree) : (hive.adopt tree).Sound :=
  hsound.advances (advances_adopt hive hedits.keeps)

theorem Sound.move (hsound : hive.Sound) (move : Move) : (hive.move move).Sound := by
  cases move with
  | act action => exact hsound.perform action
  | bind owner name =>
      simp only [Hive.move]
      split
      next id _ => exact hsound.adopt (RegionTree.edits_bindLength hive.tree owner id)
      next => exact hsound
  | watch tag target => exact hsound.adopt (RegionTree.edits_watch hive.tree tag target)
  | unwatch tag => exact hsound.adopt (RegionTree.edits_unwatch hive.tree tag)

theorem sound_reached (config : HiveConfig) (moves : List Move) : (reached config moves).Sound :=
  List.foldlRecOn moves Hive.move (sound_ofConfig config) fun _ hsound move _ => hsound.move move

end Hive

namespace Backlog

variable {registered : CoordinateId → Bool} {pending : Backlog}

theorem hear_eq_invalidated {notice : Notice}
    (hquiet : ∀ coordinate, notice.tells .prerequisites coordinate = false) :
    pending.hear registered notice =
      { pending with invalidated := (pending.hear registered notice).invalidated } := by
  unfold hear
  split
  · split
    · rfl
    · rfl
  next other change => simp [Notice.tells] at hquiet
  · rfl

theorem foldl_hear_eq_invalidated {news : List Notice}
    (hquiet : ∀ notice ∈ news, ∀ coordinate, notice.tells .prerequisites coordinate = false) :
    news.foldl (hear registered) pending =
      { pending with invalidated := (news.foldl (hear registered) pending).invalidated } := by
  induction news generalizing pending with
  | nil => rfl
  | cons first rest ih =>
      obtain ⟨hfirst, hrest⟩ := List.forall_mem_cons.mp hquiet
      rw [List.foldl_cons, ih hrest, hear_eq_invalidated hfirst]

end Backlog

namespace Hive

variable {hive : Hive}

/-- A constant came to another value: what relies on it and is registered has to be calculated anew,
and nothing else happened. -/
structure Invalidates (before after : Hive) (id : LengthId) (value : Float) : Prop where
  /-- Registered or not, the coordinates that say so are those that rely on the constant. -/
  announced : ∀ coordinate, Network.Announced before.tree.network after.tree.network .invalidated
    coordinate ↔ before.tree.Relies coordinate id
  invalidated : ∀ coordinate, coordinate ∈ after.pending.invalidated ↔
    coordinate ∈ before.pending.invalidated ∨
      coordinate ∈ before.registry ∧ before.tree.Relies coordinate id
  pending : after.pending = { before.pending with invalidated := after.pending.invalidated }
  formula : ∀ other, after.tree.network.formula? other =
    if other = id then some (.constant value) else before.tree.network.formula? other
  /-- Who listened and is still there listens as before. -/
  follows : Network.Follows before.tree.audience before.tree.network after.tree.network
  tree : after.tree = { before.tree with network := after.tree.network }
  rest : after = { before with tree := after.tree, pending := after.pending }

theorem edit_id (hive : Hive) : hive.edit id = hive := by
  show ({ hive with
    pending := (Network.news hive.tree.network hive.tree.network).foldl
      (Backlog.hear hive.isRegistered) hive.pending } : Hive) = hive
  rw [Network.news_self]
  rfl

section SetConstant

variable {id : LengthId} {old value : Float} (hold : hive.tree.constant? id = some old)

include hold

theorem edit_setConstant_of_eq (heq : (old == value) = true) :
    (hive.edit fun tree => tree.setConstant id value) = hive := by
  have hsame : hive.tree.setConstant id value = hive.tree := RegionTree.setConstant_of_eq hold heq
  have hedit : (hive.edit fun tree => tree.setConstant id value) = hive.edit fun tree => tree := by
    rw [edit, edit, hsame]
  exact hedit.trans (edit_id hive)

theorem Sound.invalidates (hsound : hive.Sound) (hne : (old == value) = false) :
    Invalidates hive (hive.edit fun tree => tree.setConstant id value) id value := by
  have hannounced : ∀ coordinate, Network.Announced hive.tree.network
      (hive.tree.setConstant id value).network .invalidated coordinate ↔
        hive.tree.Relies coordinate id :=
    fun _ => RegionTree.announced_setConstant_iff hold hne hsound.tree
  have hadvances : Advances hive (hive.edit fun tree => tree.setConstant id value) [] :=
    advances_edit (RegionTree.edits_setConstant hive.tree id value).keeps
  refine ⟨hannounced, fun coordinate => ?_, ?_, RegionTree.formula?_setConstant hold hne,
    RegionTree.follows_setConstant hold hne, RegionTree.setConstant_eq_network hive.tree id value,
    rfl⟩
  · rw [hadvances.invalidated]
    exact or_congr_right (and_congr_right fun _ => hannounced coordinate)
  · refine Backlog.foldl_hear_eq_invalidated fun notice hnotice coordinate => ?_
    by_contra htells
    exact RegionTree.not_announced_setConstant hold hne hsound.tree
      ⟨notice, hnotice, Bool.eq_true_of_not_eq_false htells⟩

end SetConstant

/-- After any moves, setting a constant to an equal value changes nothing. Setting it to another
adds to the invalidated coordinates exactly those that are registered and whose present recipe is
the constant or is built of it, and leaves all else as it was. -/
theorem setConstant_routes (config : HiveConfig) (moves : List Move) {id : LengthId} {old : Float}
    (hold : (reached config moves).tree.constant? id = some old) (value : Float) :
    ((old == value) = true →
      ((reached config moves).edit fun tree => tree.setConstant id value) =
        reached config moves) ∧
      ((old == value) = false → Invalidates (reached config moves)
        ((reached config moves).edit fun tree => tree.setConstant id value) id value) :=
  ⟨edit_setConstant_of_eq hold, (sound_reached config moves).invalidates hold⟩

/-- Two regions are as wide as one constant, the second through a chain of compounds; then the first
gets another recipe. -/
def turnover : List Move :=
  [.act (.edit (.make "zero" (.constant 0.0))), .act (.edit (.make "ten" (.constant 10.0))),
    .act (.edit (.make "width" (.constant 10.0))),
    .watch "eye" (.lengthInvalidated ⟨6⟩),
    .act (.edit (.make "pair" (.binary .add "width" "ten"))),
    .act (.edit (.make "spare" (.fallback "pair" "ten"))),
    .act (.edit (.make "row" (.chain [.length "ten", .length "spare"] [.multiply]))),
    .act (.newRegion ⟨some ("zero", "width"), some ("zero", "ten"), none, none, []⟩),
    .act (.newRegion ⟨some ("zero", "row"), some ("zero", "ten"), none, none, []⟩),
    .act (.edit (.setRecipe ⟨⟨1⟩, .x, .beta⟩ "ten")),
    .bind ⟨⟨1⟩, .x, .alpha⟩ "row",
    .act (.edit (.forget "pair")),
    .act .layout]

/-- The constant is heard through the chain, and no longer through the recipe that was replaced. -/
theorem turnover_routes :
    (reached .standard turnover).tree.constant? ⟨6⟩ = some 10.0 ∧ ((10.0 : Float) == 40.0) = false ∧
      Invalidates (reached .standard turnover)
        ((reached .standard turnover).edit fun tree => tree.setConstant ⟨6⟩ 40.0) ⟨6⟩ 40.0 ∧
      ((reached .standard turnover).edit fun tree =>
        tree.setConstant ⟨6⟩ 40.0).pending.invalidated.toList = [⟨⟨2⟩, .x, .beta⟩] := by
  have hold : (reached .standard turnover).tree.constant? ⟨6⟩ = some 10.0 := by decide +kernel
  have hne : ((10.0 : Float) == 40.0) = false := by decide +kernel
  exact ⟨hold, hne, (setConstant_routes .standard turnover hold 40.0).2 hne, by decide +kernel⟩

end Hive

end RegionLayout
