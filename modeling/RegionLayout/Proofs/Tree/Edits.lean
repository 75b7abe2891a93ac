import RegionLayout.Proofs.Length.Enrollment
import RegionLayout.Proofs.Tree.Audience

/-!
Edits of a tree tell what they change. A sound tree stays sound, no relative value moves, whenever a
coordinate's recipe now comes to something else, up to the order of children, or reads something
else, the coordinate has announced it, and compounds announce exactly how they change.
-/

namespace RegionLayout

namespace Network

theorem builtOf_of_alike {network other : Network} {upper lower : LengthId}
    (halike : ∀ lower, network.BuiltOf upper lower → AlikeAt network other lower)
    (hpath : network.BuiltOf upper lower) : other.BuiltOf upper lower := by
  induction hpath with
  | refl => exact .refl
  | @tail middle last hbefore hoperand ih =>
      obtain ⟨formula, hformula⟩ := exists_formula?_of_lt (lt_of_mem_operandsAt hoperand)
      obtain ⟨formula', hformula', hlike⟩ := halike middle hbefore formula hformula
      refine ih.tail ?_
      rw [operandsAt, hformula, Option.map_some, Option.getD_some] at hoperand
      rwa [operandsAt, hformula', Option.map_some, Option.getD_some, hlike.operands_eq]

/-- The audience of a network does not matter beyond who is in use. -/
theorem Sound.shrink {network : Network} {audience smaller : Audience}
    (hsound : network.Sound audience)
    (hheld : ∀ id, smaller.includes (.operandOf id) = true →
      audience.includes (.operandOf id) = true)
    (hclosed : ∀ upper lower, smaller.includes (.operandOf upper) = true →
      lower ∈ network.operandsAt upper → smaller.includes (.operandOf lower) = true) :
    network.Sound smaller where
  laid := {
    builtIn := hsound.laid.builtIn
    older := hsound.laid.older
    closed := hclosed
    bounded := fun compound hincluded => hsound.laid.bounded compound (hheld compound hincluded)
    listed := hsound.laid.listed
    enrolled := fun channel id compound hincluded =>
      hsound.laid.enrolled channel id compound (hheld compound hincluded) }
  ledger := {
    nodup := hsound.ledger.nodup
    valid := hsound.ledger.valid
    descending := .nil
    leads := by simp
    bounded := by simp
    balanced := fun compound hincluded =>
      hsound.ledger.balanced compound (hheld compound hincluded) }
  spans := hsound.spans

end Network

namespace RegionTree

theorem coordinate?_congr {before after : RegionTree} (hcells : after.cells = before.cells)
    (id : CoordinateId) : after.coordinate? id = before.coordinate? id := by
  rw [coordinate?, cell?, hcells, coordinate?, cell?]

theorem children_congr {before after : RegionTree} (hcells : after.cells = before.cells)
    (id : CellId) : after.children id = before.children id := by
  rw [children, cell?, hcells, children, cell?]

/-- What a coordinate's recipe reads. -/
def prerequisites (tree : RegionTree) (id : CoordinateId) : List CoordinateId :=
  ((tree.coordinate? id).map fun coordinate => tree.network.prerequisites coordinate.recipe).getD []

/-- A wiring of a coordinate is past, or is the present one and the coordinate's recipe is `id`. -/
def Addresses (tree : RegionTree) (owner : CoordinateId) (wiring : Nat) (id : LengthId) : Prop :=
  ∃ coordinate, tree.coordinate? owner = some coordinate ∧
    (wiring < coordinate.wiring ∨ wiring = coordinate.wiring ∧ coordinate.recipe = id)

structure Sound (tree : RegionTree) : Prop where
  network : tree.network.Sound tree.audience
  roots : ∀ root ∈ tree.roots, root.index < tree.network.lengths.size
  enrolled : ∀ owner coordinate, tree.coordinate? owner = some coordinate → ∀ channel,
    .recipeOf owner coordinate.wiring ∈ tree.network.listeners channel coordinate.recipe
  addressed : ∀ channel id owner wiring,
    .recipeOf owner wiring ∈ tree.network.listeners channel id →
    tree.Addresses owner wiring id
  children_nodup : ∀ id, (tree.children id).Nodup
  children_lt : ∀ id, ∀ child ∈ tree.children id, child.index < tree.size

section Held

variable {tree after : RegionTree}

theorem closed_audience (holder : tree.network.Older)
    (hroots : ∀ root ∈ tree.roots, root.index < tree.network.lengths.size) (upper lower : LengthId)
    (hheld : tree.audience.includes (.operandOf upper) = true)
    (hoperand : lower ∈ tree.network.operandsAt upper) :
    tree.audience.includes (.operandOf lower) = true := by
  obtain ⟨root, hroot, hpath⟩ := (includes_operandOf_iff holder hroots).mp hheld
  exact (includes_operandOf_iff holder hroots).mpr ⟨root, hroot, hpath.tail hoperand⟩

theorem Sound.includes_root (hsound : tree.Sound) {root : LengthId} (hroot : root ∈ tree.roots) :
    tree.audience.includes (.operandOf root) = true :=
  (includes_operandOf_iff hsound.network.laid.older hsound.roots).mpr ⟨root, hroot, .refl⟩

theorem Sound.includes_recipe (hsound : tree.Sound) {owner : CoordinateId} {coordinate : Coordinate}
    (hcoordinate : tree.coordinate? owner = some coordinate) :
    tree.audience.includes (.operandOf coordinate.recipe) = true :=
  hsound.includes_root (mem_roots_iff.mpr (.inr ⟨owner, coordinate, hcoordinate, rfl⟩))

theorem Sound.recipe_lt (hsound : tree.Sound) {owner : CoordinateId} {coordinate : Coordinate}
    (hcoordinate : tree.coordinate? owner = some coordinate) :
    coordinate.recipe.index < tree.network.lengths.size :=
  hsound.roots _ (mem_roots_iff.mpr (.inr ⟨owner, coordinate, hcoordinate, rfl⟩))

/-- A network stays sound when nothing comes into use. -/
theorem network_sound_of_held (after : RegionTree) {audience : Audience}
    (hnetwork : after.network.Sound audience)
    (hheld : ∀ root ∈ after.roots, audience.includes (.operandOf root) = true) :
    after.network.Sound after.audience ∧
      ∀ root ∈ after.roots, root.index < after.network.lengths.size := by
  have hroots : ∀ root ∈ after.roots, root.index < after.network.lengths.size :=
    fun root hroot => hnetwork.laid.bounded root (hheld root hroot)
  refine ⟨hnetwork.shrink (fun id hincluded => ?_)
    (closed_audience hnetwork.laid.older hroots), hroots⟩
  obtain ⟨root, hroot, hpath⟩ :=
    (includes_operandOf_iff hnetwork.laid.older hroots).mp hincluded
  exact hnetwork.laid.closed_builtOf (hheld root hroot) hpath

end Held

/-! What an edit tells. -/

/-- A coordinate's recipe is alike and reads the same, unless the coordinate announced otherwise. -/
structure TellsAt (before after : RegionTree) (id : CoordinateId) (old new : Coordinate) :
    Prop where
  value : (new.recipe = old.recipe ∧ ∀ lower, before.network.BuiltOf old.recipe lower →
      Network.AlikeAt before.network after.network lower) ∨
    Network.Announced before.network after.network .invalidated id
  reads : (∀ prerequisite, prerequisite ∈ after.network.reads new.recipe ↔
      prerequisite ∈ before.network.reads old.recipe) ∨
    Network.Announced before.network after.network .prerequisites id

structure Notifies (before after : RegionTree) : Prop where
  recorded : Network.Recorded before.network after.network
  unfolds : Network.Unfolds before.network after.network
  told : ∀ id old, before.coordinate? id = some old →
    ∃ new, after.coordinate? id = some new ∧ TellsAt before after id old new

structure Tells (before after : RegionTree) : Prop extends Notifies before after where
  relative : ∀ id, after.relative id = before.relative id

/-- A change of a tree that keeps it sound and tells what it does, though values may move. -/
def Keeps (before after : RegionTree) : Prop :=
  before.Sound → Notifies before after ∧ after.Sound

/-- A change of a tree that keeps it sound, tells what it does, and moves no relative value. -/
def Edits (before after : RegionTree) : Prop :=
  before.Sound → Tells before after ∧ after.Sound

theorem Edits.keeps {before after : RegionTree} (hedits : Edits before after) :
    Keeps before after := by
  intro hsound
  obtain ⟨htells, hafter⟩ := hedits hsound
  exact ⟨htells.toNotifies, hafter⟩

section Compose

variable {before middle after : RegionTree}

theorem TellsAt.of_same {id : CoordinateId} {old new : Coordinate} (hsound : before.Sound)
    (hrecipe : new.recipe = old.recipe)
    (hformula : ∀ id, id.index < before.network.lengths.size →
      after.network.formula? id = before.network.formula? id)
    (hold : before.coordinate? id = some old) : TellsAt before after id old new where
  value := by
    refine .inl ⟨hrecipe, fun lower _ formula hlower => ⟨formula, ?_, ?_⟩⟩
    · rw [hformula lower (Network.formula?_eq_some_lt hlower), hlower]
    · exact .refl (hsound.network.laid.builtIn lower formula hlower)
  reads := by
    have hlt := hsound.roots old.recipe (mem_roots_iff.mpr (.inr ⟨id, old, hold, rfl⟩))
    refine .inl fun prerequisite => ?_
    rw [hrecipe, Network.reads, hformula _ hlt, Network.reads]

theorem Tells.refl (hsound : before.Sound) : Tells before before where
  recorded := .refl before.network
  unfolds := .refl before.network
  told _ old hold := ⟨old, hold, .of_same hsound rfl (fun _ _ => rfl) hold⟩
  relative _ := rfl

theorem TellsAt.trans {id : CoordinateId} {first second third : Coordinate}
    (hbefore : Network.Recorded before.network middle.network)
    (hafter : Network.Recorded middle.network after.network)
    (hfirst : TellsAt before middle id first second)
    (hsecond : TellsAt middle after id second third) : TellsAt before after id first third where
  value := by
    rcases hfirst.value with ⟨hrecipe, halike⟩ | htold
    · rcases hsecond.value with ⟨hrecipe', halike'⟩ | htold
      · refine .inl ⟨hrecipe'.trans hrecipe, fun lower hpath =>
          (halike lower hpath).trans (halike' lower ?_)⟩
        rw [hrecipe]
        exact Network.builtOf_of_alike halike hpath
      · exact .inr (htold.extend hbefore hafter (.refl _))
    · exact .inr (htold.extend (.refl _) hbefore hafter)
  reads := by
    rcases hfirst.reads with hsame | htold
    · rcases hsecond.reads with hsame' | htold
      · exact .inl fun prerequisite => (hsame' prerequisite).trans (hsame prerequisite)
      · exact .inr (htold.extend hbefore hafter (.refl _))
    · exact .inr (htold.extend (.refl _) hbefore hafter)

theorem Notifies.trans (hfirst : Notifies before middle) (hsecond : Notifies middle after) :
    Notifies before after where
  recorded := hfirst.recorded.trans hsecond.recorded
  unfolds := hfirst.unfolds.trans hsecond.unfolds
  told id old hold := by
    obtain ⟨new, hnew, htells⟩ := hfirst.told id old hold
    obtain ⟨newer, hnewer, htells'⟩ := hsecond.told id new hnew
    exact ⟨newer, hnewer, htells.trans hfirst.recorded hsecond.recorded htells'⟩

theorem Tells.trans (hfirst : Tells before middle) (hsecond : Tells middle after) :
    Tells before after where
  toNotifies := hfirst.toNotifies.trans hsecond.toNotifies
  relative id := (hsecond.relative id).trans (hfirst.relative id)

theorem Keeps.refl (tree : RegionTree) : Keeps tree tree :=
  fun hsound => ⟨(Tells.refl hsound).toNotifies, hsound⟩

theorem Keeps.trans (hfirst : Keeps before middle) (hsecond : Keeps middle after) :
    Keeps before after := by
  intro hsound
  obtain ⟨htells, hmiddle⟩ := hfirst hsound
  obtain ⟨htells', hafter⟩ := hsecond hmiddle
  exact ⟨htells.trans htells', hafter⟩

theorem Edits.refl (tree : RegionTree) : Edits tree tree :=
  fun hsound => ⟨.refl hsound, hsound⟩

theorem Edits.trans (hfirst : Edits before middle) (hsecond : Edits middle after) :
    Edits before after := by
  intro hsound
  obtain ⟨htells, hmiddle⟩ := hfirst hsound
  obtain ⟨htells', hafter⟩ := hsecond hmiddle
  exact ⟨htells.trans htells', hafter⟩

end Compose

/-! Changes that recipes do not notice. -/

/-- Lengths, names and wirings stay; values, links between cells and the journal may change. -/
structure Steady (before after : RegionTree) : Prop where
  lengths : after.network.lengths = before.network.lengths
  hushed : Network.Hushed before.network after.network
  names : after.names = before.names
  size : after.size = before.size
  wired : ∀ id,
    (after.coordinate? id).map (fun coordinate => (coordinate.recipe, coordinate.wiring)) =
      (before.coordinate? id).map fun coordinate => (coordinate.recipe, coordinate.wiring)

namespace Steady

variable {before middle after : RegionTree}

theorem refl (tree : RegionTree) : Steady tree tree :=
  ⟨rfl, .refl tree.network, rfl, rfl, fun _ => rfl⟩

theorem recorded (hsteady : Steady before after) : Network.Recorded before.network after.network :=
  hsteady.hushed.recorded

theorem trans (hfirst : Steady before middle) (hsecond : Steady middle after) :
    Steady before after where
  lengths := hsecond.lengths.trans hfirst.lengths
  hushed := hfirst.hushed.trans hsecond.hushed
  names := hsecond.names.trans hfirst.names
  size := hsecond.size.trans hfirst.size
  wired id := (hsecond.wired id).trans (hfirst.wired id)

theorem symm_coordinate (hsteady : Steady before after) {id : CoordinateId} {new : Coordinate}
    (hnew : after.coordinate? id = some new) : ∃ old, before.coordinate? id = some old ∧
      new.recipe = old.recipe ∧ new.wiring = old.wiring := by
  have hwired := hsteady.wired id
  rw [hnew, Option.map_some, eq_comm, Option.map_eq_some_iff] at hwired
  obtain ⟨old, hold, hsame⟩ := hwired
  exact ⟨old, hold, (Prod.mk.inj hsame).1.symm, (Prod.mk.inj hsame).2.symm⟩

theorem exists_coordinate (hsteady : Steady before after) {id : CoordinateId} {old : Coordinate}
    (hold : before.coordinate? id = some old) : ∃ new, after.coordinate? id = some new ∧
      new.recipe = old.recipe ∧ new.wiring = old.wiring := by
  have hwired := hsteady.wired id
  rw [hold, Option.map_some, Option.map_eq_some_iff] at hwired
  obtain ⟨new, hnew, hsame⟩ := hwired
  exact ⟨new, hnew, (Prod.mk.inj hsame).1, (Prod.mk.inj hsame).2⟩

theorem formula? (hsteady : Steady before after) (id : LengthId) :
    after.network.formula? id = before.network.formula? id := by
  rw [Network.formula?, hsteady.lengths, Network.formula?]

theorem listeners (hsteady : Steady before after) (channel : Channel) (id : LengthId) :
    after.network.listeners channel id = before.network.listeners channel id := by
  rw [Network.listeners, hsteady.lengths, Network.listeners]

theorem relays (hsteady : Steady before after) (audience : Audience) :
    Network.Relays audience before.network after.network where
  size := by rw [hsteady.lengths]
  recorded := hsteady.recorded
  operands id := by rw [Network.operandsAt, hsteady.formula?, Network.operandsAt]
  builtIn hbuilt id formula hformula := hbuilt id formula (hsteady.formula? id ▸ hformula)
  kept channel id listener _ := by rw [hsteady.listeners]
  listed channel id := by
    rw [hsteady.listeners]
    exact List.Subset.refl _
  formula := hsteady.formula?

theorem mem_roots (hsteady : Steady before after) {root : LengthId} (hroot : root ∈ after.roots) :
    root ∈ before.roots := by
  rw [mem_roots_iff, hsteady.names] at hroot
  rcases hroot with hname | ⟨owner, new, hnew, rfl⟩
  · exact mem_roots_iff.mpr (.inl hname)
  · obtain ⟨old, hold, hrecipe, _⟩ := hsteady.symm_coordinate hnew
    exact mem_roots_iff.mpr (.inr ⟨owner, old, hold, hrecipe.symm⟩)

theorem sound (hsteady : Steady before after) (hsound : before.Sound)
    (hnodup : ∀ id, (after.children id).Nodup)
    (hlt : ∀ id, ∀ child ∈ after.children id, child.index < before.size) : after.Sound := by
  obtain ⟨hnetwork, hroots⟩ := network_sound_of_held after
    (hsound.network.relays (hsteady.relays before.audience))
    fun root hroot => hsound.includes_root (hsteady.mem_roots hroot)
  refine ⟨hnetwork, hroots, fun owner new hnew channel => ?_,
    fun channel id owner wiring hmem => ?_, hnodup, hsteady.size ▸ hlt⟩
  · obtain ⟨old, hold, hrecipe, hwiring⟩ := hsteady.symm_coordinate hnew
    rw [hsteady.listeners, hrecipe, hwiring]
    exact hsound.enrolled owner old hold channel
  · rw [hsteady.listeners] at hmem
    obtain ⟨old, hold, haddresses⟩ := hsound.addressed channel id owner wiring hmem
    obtain ⟨new, hnew, hrecipe, hwiring⟩ := hsteady.exists_coordinate hold
    exact ⟨new, hnew, hwiring ▸ hrecipe ▸ haddresses⟩

theorem notifies (hsteady : Steady before after) (hsound : before.Sound) :
    Notifies before after where
  recorded := hsteady.recorded
  unfolds := (hsteady.hushed.aside hsteady.formula?).unfolds
  told id old hold := by
    obtain ⟨new, hnew, hrecipe, _⟩ := hsteady.exists_coordinate hold
    exact ⟨new, hnew, .of_same hsound hrecipe (fun id _ => hsteady.formula? id) hold⟩

theorem keeps (hsteady : Steady before after)
    (hchildren : ∀ id, after.children id = before.children id) : Keeps before after := by
  intro hsound
  refine ⟨hsteady.notifies hsound, hsteady.sound hsound (fun id => ?_) fun id => ?_⟩
  · rw [hchildren]
    exact hsound.children_nodup id
  · rw [hchildren]
    exact hsound.children_lt id

theorem edits (hsteady : Steady before after)
    (hrelative : ∀ id, after.relative id = before.relative id)
    (hchildren : ∀ id, after.children id = before.children id) : Edits before after := by
  intro hsound
  obtain ⟨hnotifies, hafter⟩ := hsteady.keeps hchildren hsound
  exact ⟨⟨hnotifies, hrelative⟩, hafter⟩

end Steady

theorem steady_note (tree : RegionTree) {notice : Notice}
    (hsilent : notice.rewiresLength = false) : Steady tree (tree.note notice) :=
  ⟨rfl, .note tree.network hsilent, rfl, rfl, fun _ => rfl⟩

theorem edits_send (tree : RegionTree) {message : Message}
    (hsilent : (Notice.sent message).rewiresLength = false) : Edits tree (tree.send message) :=
  (steady_note tree hsilent).edits (fun _ => rfl) fun _ => rfl

/-! Binding anew. -/

/-- Only lengths changed, and they told. -/
structure Rebinds (audience : Audience) (before after : RegionTree) : Prop where
  cells : after.cells = before.cells
  names : after.names = before.names
  honest : Network.Honest audience before.network after.network

namespace Rebinds

variable {audience : Audience} {before after : RegionTree}

theorem coordinate? (hrebinds : Rebinds audience before after) (id : CoordinateId) :
    after.coordinate? id = before.coordinate? id :=
  coordinate?_congr hrebinds.cells id

theorem children (hrebinds : Rebinds audience before after) (id : CellId) :
    after.children id = before.children id :=
  children_congr hrebinds.cells id

theorem roots (hrebinds : Rebinds audience before after) : after.roots = before.roots := by
  rw [RegionTree.roots, hrebinds.names, hrebinds.cells, RegionTree.roots]

/-- Whoever has a recipe listens to it, and so has announced what was told. -/
theorem tellsAt (hsound : before.Sound)
    (hheralds : Network.Heralds before.audience before.network after.network)
    {id : CoordinateId} {old : Coordinate} (hold : before.coordinate? id = some old) :
    TellsAt before after id old old := by
  have hincluded : before.audience.includes (.recipeOf id old.wiring) = true :=
    includes_recipeOf_iff.mpr ⟨old, hold, rfl⟩
  refine ⟨?_, ?_⟩
  · by_cases halike : ∀ lower, before.network.BuiltOf old.recipe lower →
        Network.AlikeAt before.network after.network lower
    · exact .inl ⟨rfl, halike⟩
    · push Not at halike
      obtain ⟨lower, hpath, hdiffers⟩ := halike
      have htold := (hheralds.formula lower).resolve_left hdiffers old.recipe
        (hsound.includes_recipe hold) hpath
      exact .inr (htold id old.wiring (hsound.enrolled id old hold .invalidated) hincluded)
  · rcases hheralds.reads old.recipe with hsame | htold
    · exact .inl hsame
    · exact .inr (htold id old.wiring (hsound.enrolled id old hold .prerequisites) hincluded)

theorem edits (hrebinds : Rebinds before.audience before after) : Edits before after := by
  intro hsound
  obtain ⟨hheralds, hafter⟩ := hrebinds.honest hsound.network
  obtain ⟨hnetwork, hroots⟩ := network_sound_of_held after hafter
    fun root hroot => hsound.includes_root (hrebinds.roots ▸ hroot)
  refine ⟨⟨⟨hheralds.recorded, hheralds.unfolds, fun id old hold => ?_⟩, fun id => ?_⟩,
    hnetwork, hroots, fun owner coordinate hcoordinate channel => ?_,
    fun channel id owner wiring hmem => ?_, fun id => ?_, fun id => ?_⟩
  · exact ⟨old, (hrebinds.coordinate? id).trans hold, tellsAt hsound hheralds hold⟩
  · rw [relative, hrebinds.coordinate?, relative]
  · rw [hrebinds.coordinate?] at hcoordinate
    exact (hheralds.mem_listeners (includes_recipeOf_iff.mpr ⟨coordinate, hcoordinate, rfl⟩)).mpr
      (hsound.enrolled owner coordinate hcoordinate channel)
  · rw [Addresses, hrebinds.coordinate?]
    exact hsound.addressed channel id owner wiring (hheralds.listed channel id hmem)
  · rw [hrebinds.children]
    exact hsound.children_nodup id
  · rw [hrebinds.children, size, hrebinds.cells]
    exact hsound.children_lt id

end Rebinds

theorem bindCell_eq (audience : Audience) (tree : RegionTree) (id : CellId) :
    bindCell audience tree id = { tree with network := (bindCell audience tree id).network } := by
  unfold bindCell
  split <;> rfl

/-- Binding anew changes nothing but lengths. -/
theorem rebind_eq (tree : RegionTree) (ids : List CellId) :
    tree.rebind ids = { tree with network := (tree.rebind ids).network } := by
  refine foldl_related
    (r := fun first second : RegionTree => second = { first with network := second.network })
    (fun _ => rfl) (fun hfirst hsecond => ?_) (fun state id _ => bindCell_eq _ state id) tree
  rw [hsecond, hfirst]

theorem cells_rebind (tree : RegionTree) (ids : List CellId) :
    (tree.rebind ids).cells = tree.cells := by
  rw [rebind_eq]

theorem shifts_bindCell {audience : Audience} {tree : RegionTree} {id : CellId}
    (hnodup : (tree.children id).Nodup) :
    Network.Shifts audience tree.network (bindCell audience tree id).network := by
  unfold bindCell
  split
  next => exact .refl tree.network
  next =>
    exact foldl_related .refl .trans
      (fun network entry _ => Network.shifts_bind hnodup _ network) tree.network

theorem shifts_rebind {tree : RegionTree} (hnodup : ∀ id, (tree.children id).Nodup)
    (ids : List CellId) :
    Network.Shifts tree.audience tree.network (tree.rebind ids).network := by
  let r (first second : RegionTree) : Prop := (∀ id, (first.children id).Nodup) →
    Network.Shifts tree.audience first.network second.network ∧
      ∀ id, (second.children id).Nodup
  have hshifts : r tree (tree.rebind ids) := by
    refine foldl_related (r := r) (fun state hnodup => ⟨.refl state.network, hnodup⟩)
      (fun hfirst hsecond hnodup => ?_) (fun state id _ hnodup => ⟨shifts_bindCell (hnodup id), ?_⟩)
      tree
    · obtain ⟨hshifts, hmiddle⟩ := hfirst hnodup
      exact ⟨hshifts.trans (hsecond hmiddle).1, (hsecond hmiddle).2⟩
    · rw [bindCell_eq]
      exact hnodup
  exact (hshifts hnodup).1

theorem edits_rebind (tree : RegionTree) (ids : List CellId) : Edits tree (tree.rebind ids) := by
  intro hsound
  have hrebinds : Rebinds tree.audience tree (tree.rebind ids) :=
    ⟨cells_rebind tree ids, by rw [rebind_eq],
      (shifts_rebind hsound.children_nodup ids).honest⟩
  exact hrebinds.edits hsound

theorem edits_bindLength (tree : RegionTree) (owner : CoordinateId) (id : LengthId) :
    Edits tree (tree.bindLength owner id) := by
  intro hsound
  have hrebinds : Rebinds tree.audience tree (tree.bindLength owner id) :=
    ⟨rfl, rfl, Network.honest_bind (hsound.children_nodup owner.cell) id tree.network⟩
  exact hrebinds.edits hsound

end RegionTree

end RegionLayout
