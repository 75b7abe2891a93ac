import RegionLayout.Proofs.Tree.Recipes

/-!
Where an invalidation goes. A length is heard by the coordinates whose present recipe is the length
or is built of it, however far below, and by no other: not by one that left such a recipe, and not
through a compound that nothing uses.
-/

namespace RegionLayout

theorem Network.exists_announced_step {α : Type} {r : Network → Network → Prop}
    {step : Network → α → Network} (hrefl : ∀ network, r network network)
    (htrans : ∀ {first second third}, r first second → r second third → r first third)
    (hrecorded : ∀ {first second}, r first second → Recorded first second) {items : List α}
    (hstep : ∀ state, ∀ item ∈ items, r state (step state item)) {network : Network}
    {channel : Channel} {coordinate : CoordinateId}
    (hannounced : Announced network (items.foldl step network) channel coordinate) :
    ∃ item ∈ items, ∃ state, r network state ∧
      Announced state (step state item) channel coordinate := by
  induction items generalizing network with
  | nil => exact absurd hannounced not_announced_self
  | cons first rest ih =>
      have hfirst := hstep network first List.mem_cons_self
      have hrest : ∀ state, ∀ item ∈ rest, r state (step state item) :=
        fun state item hitem => hstep state item (List.mem_cons_of_mem _ hitem)
      have hafter := hrecorded (foldl_related hrefl htrans hrest (step network first))
      rcases (announced_trans_iff (hrecorded hfirst) hafter).mp hannounced with hnow | hlater
      · exact ⟨first, List.mem_cons_self, network, hrefl network, hnow⟩
      · obtain ⟨item, hitem, state, hbetween, hthen⟩ := ih hrest hlater
        exact ⟨item, List.mem_cons_of_mem _ hitem, state, htrans hfirst hbetween, hthen⟩

namespace Network

variable {audience : Audience} {before after network : Network} {channel : Channel}
  {coordinate : CoordinateId} {id : LengthId}

/-- A coordinate listens to a length that is `id` or is built of it. -/
def Heard (network : Network) (audience : Audience) (id : LengthId) (coordinate : CoordinateId) :
    Prop :=
  ∃ upper wiring, network.BuiltOf upper id ∧
    audience.includes (.recipeOf coordinate wiring) = true ∧
      .recipeOf coordinate wiring ∈ network.listeners .invalidated upper

theorem Heard.of_listener {wiring : Nat}
    (hincluded : audience.includes (.recipeOf coordinate wiring) = true)
    (hlistens : .recipeOf coordinate wiring ∈ network.listeners .invalidated id) :
    network.Heard audience id coordinate :=
  ⟨id, wiring, .refl, hincluded, hlistens⟩

theorem Heard.of_operand {compound : LengthId} (hoperand : id ∈ network.operandsAt compound)
    (hheard : network.Heard audience compound coordinate) :
    network.Heard audience id coordinate := by
  obtain ⟨upper, wiring, hpath, hincluded, hlistens⟩ := hheard
  exact ⟨upper, wiring, hpath.tail hoperand, hincluded, hlistens⟩

theorem Follows.heard_iff (hfollows : Follows audience before after) :
    after.Heard audience id coordinate ↔ before.Heard audience id coordinate := by
  refine exists_congr fun upper => exists_congr fun wiring => ?_
  rw [hfollows.builtOf_iff]
  exact and_congr_right fun _ => and_congr_right fun hincluded => hfollows.mem_listeners hincluded

/-- Announcements of some depth say that a value may have changed, to those who listen. -/
def Routes (audience : Audience) (depth : Nat) : Prop :=
  ∀ id network, network.Laid audience → ∀ {channel coordinate},
    Announced network (announceInvalidated audience depth id network) channel coordinate →
      channel = .invalidated ∧ network.Heard audience id coordinate

theorem heard_of_hearInvalidated {depth : Nat} (hroutes : Routes audience depth)
    (hlaid : network.Laid audience) {listener : Listener}
    (hlistens : listener ∈ network.listeners .invalidated id)
    (hincluded : audience.includes listener = true)
    (hannounced : Announced network (hearInvalidated audience depth id network listener) channel
      coordinate) :
    channel = .invalidated ∧ network.Heard audience id coordinate := by
  cases listener with
  | operandOf compound =>
      obtain ⟨hchannel, hheard⟩ := hroutes compound network hlaid hannounced
      exact ⟨hchannel, hheard.of_operand ((hlaid.mem_operandsAt hincluded).mp hlistens)⟩
  | recipeOf owner wiring =>
      have htells := announced_note_iff.mp hannounced
      simp only [Notice.tells, Bool.and_eq_true, beq_iff_eq] at htells
      obtain ⟨rfl, rfl⟩ := htells
      exact ⟨rfl, .of_listener hincluded hlistens⟩
  | watch number => exact absurd (announced_note_iff.mp hannounced) Bool.false_ne_true

theorem routes (audience : Audience) (depth : Nat) : Routes audience depth := by
  induction depth with
  | zero => exact fun id network _ _ _ hannounced => absurd hannounced not_announced_self
  | succ depth ih =>
      intro id network hlaid channel coordinate hannounced
      have hopened := relays_opened audience network .invalidated id (.lengthInvalidated id)
      have hroster := roster_opened audience hlaid.builtIn .invalidated id (.lengthInvalidated id)
      have hquiet : ¬ Announced network
          (network.opened audience .invalidated id (.lengthInvalidated id)) channel coordinate := by
        have hstruck : network.news (network.opened audience .invalidated id
          (.lengthInvalidated id)) = [.sent (.lengthInvalidated id)] := news_note _ _
        simp [Announced, hstruck, Notice.tells]
      rw [announceInvalidated_succ] at hannounced
      generalize network.opened audience .invalidated id (.lengthInvalidated id) = start
        at hopened hroster hquiet hannounced
      have hstep : ∀ state, ∀ listener ∈ start.roster .invalidated id,
          Relays audience state (hearInvalidated audience depth id state listener) :=
        fun state listener _ =>
          relays_hearInvalidated (relays_announceInvalidated audience depth) id state listener
      have hfold := foldl_related .refl .trans hstep start
      have hlater :=
        ((announced_trans_iff hopened.recorded hfold.recorded).mp hannounced).resolve_left hquiet
      obtain ⟨listener, hlistener, state, hbetween, hthen⟩ :=
        exists_announced_step .refl .trans (fun hrelays => hrelays.recorded) hstep hlater
      rw [hroster, List.mem_filter] at hlistener
      -- The roster was read at the start; who is on it and still there is on it now.
      have hreached := hopened.trans hbetween
      obtain ⟨hchannel, hheard⟩ := heard_of_hearInvalidated ih (hreached.laid hlaid)
        ((hreached.mem_listeners hlistener.2).mpr hlistener.1) hlistener.2 hthen
      exact ⟨hchannel, hreached.heard_iff.mp hheard⟩

theorem not_announced_prerequisites_invalidate (hlaid : network.Laid audience) :
    ¬ Announced network (network.invalidate audience id) .prerequisites coordinate := by
  rw [invalidate, hlaid.builtIn.channelOf]
  intro hannounced
  exact absurd (routes audience _ id network hlaid hannounced).1 (by decide)

theorem announced_invalidate_iff (hlaid : network.Laid audience)
    (hheld : ∀ upper wiring, audience.includes (.recipeOf coordinate wiring) = true →
      .recipeOf coordinate wiring ∈ network.listeners .invalidated upper →
        audience.includes (.operandOf upper) = true) :
    Announced network (network.invalidate audience id) .invalidated coordinate ↔
      network.Heard audience id coordinate := by
  rw [invalidate, hlaid.builtIn.channelOf]
  refine ⟨fun hannounced => (routes audience _ id network hlaid hannounced).2, ?_⟩
  rintro ⟨upper, wiring, hpath, hincluded, hlistens⟩
  exact told_announceInvalidated hlaid (Nat.le_add_right _ _)
    (.inr (hheld upper wiring hincluded hlistens)) hpath coordinate wiring hlistens hincluded

end Network

namespace RegionTree

variable {tree after : RegionTree}

/-! Routes of a tree. -/

/-- A coordinate's present recipe is `id`, or is built of it. -/
def Relies (tree : RegionTree) (coordinate : CoordinateId) (id : LengthId) : Prop :=
  ∃ present, tree.coordinate? coordinate = some present ∧
    tree.network.BuiltOf present.recipe id

/-- Who still listens, listens to its present recipe. -/
theorem Sound.recipe_eq (hsound : tree.Sound) {channel : Channel} {id : LengthId}
    {owner : CoordinateId} {wiring : Nat}
    (hincluded : tree.audience.includes (.recipeOf owner wiring) = true)
    (hlistens : .recipeOf owner wiring ∈ tree.network.listeners channel id) :
    ∃ coordinate, tree.coordinate? owner = some coordinate ∧ coordinate.recipe = id := by
  obtain ⟨coordinate, hcoordinate, rfl⟩ := includes_recipeOf_iff.mp hincluded
  obtain ⟨present, hpresent, hplace⟩ := hsound.addressed channel id owner _ hlistens
  obtain rfl : coordinate = present := Option.some.inj (hcoordinate.symm.trans hpresent)
  exact ⟨coordinate, hcoordinate, (hplace.resolve_left (Nat.lt_irrefl _)).2⟩

theorem Sound.heard_iff (hsound : tree.Sound) {id : LengthId} {coordinate : CoordinateId} :
    tree.network.Heard tree.audience id coordinate ↔ tree.Relies coordinate id := by
  constructor
  · rintro ⟨upper, wiring, hpath, hincluded, hlistens⟩
    obtain ⟨present, hpresent, rfl⟩ := hsound.recipe_eq hincluded hlistens
    exact ⟨present, hpresent, hpath⟩
  · rintro ⟨present, hpresent, hpath⟩
    exact ⟨present.recipe, present.wiring, hpath,
      includes_recipeOf_iff.mpr ⟨present, hpresent, rfl⟩,
      hsound.enrolled coordinate present hpresent .invalidated⟩

/-! Setting a constant. -/

section SetConstant

variable {id : LengthId} {old value : Float} (hold : tree.constant? id = some old)
  (hne : (old == value) = false)

include hold

theorem follows_constant (value : Float) : Network.Follows tree.audience tree.network
    (tree.network.setFormula id (.constant value)) :=
  Network.follows_setFormula tree.network (formula?_of_constant? hold) rfl rfl

include hne

theorem follows_setConstant :
    Network.Follows tree.audience tree.network (tree.setConstant id value).network := by
  rw [setConstant_of_ne hold hne]
  exact (follows_constant hold value).trans
    (Network.relays_announceInvalidated _ _ _ _).toFollows

theorem formula?_setConstant (other : LengthId) :
    (tree.setConstant id value).network.formula? other =
      if other = id then some (.constant value) else tree.network.formula? other := by
  rw [setConstant_of_ne hold hne]
  refine ((Network.relays_announceInvalidated _ _ _ _).formula other).trans ?_
  rw [Network.formula?_setFormula]
  split
  next heq =>
    rw [heq, formula?_of_constant? hold]
    rfl
  next => rfl

variable {coordinate : CoordinateId}

/-- A constant that comes to another value is heard by all that rely on it, and by no other. -/
theorem announced_setConstant_iff (hsound : tree.Sound) :
    Network.Announced tree.network (tree.setConstant id value).network .invalidated coordinate ↔
      tree.Relies coordinate id := by
  have hset := follows_constant hold value
  rw [setConstant_of_ne hold hne]
  refine (Network.announced_invalidate_iff (hset.laid hsound.network.laid)
    fun upper wiring hincluded hlistens => ?_).trans (hset.heard_iff.trans hsound.heard_iff)
  obtain ⟨present, hpresent, rfl⟩ :=
    hsound.recipe_eq hincluded ((hset.mem_listeners hincluded).mp hlistens)
  exact hsound.includes_recipe hpresent

theorem not_announced_setConstant (hsound : tree.Sound) :
    ¬ Network.Announced tree.network (tree.setConstant id value).network .prerequisites
      coordinate := by
  rw [setConstant_of_ne hold hne]
  exact Network.not_announced_prerequisites_invalidate
    ((follows_constant hold value).laid hsound.network.laid)

end SetConstant

end RegionTree

end RegionLayout
