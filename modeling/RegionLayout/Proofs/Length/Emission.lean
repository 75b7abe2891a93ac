import RegionLayout.Proofs.Length.Network
import RegionLayout.Proofs.Prerequisite.Tally

/-!
Announcements reach everyone above. An invalidation is told to every coordinate whose recipe is in
use and is built of the length; a change of prerequisites is told wherever, on its way up, it
changed what a length reads.
-/

namespace RegionLayout

open Relation

/-- Whether a notice says that a coordinate announced something on a channel. -/
def Notice.tells (channel : Channel) (coordinate : CoordinateId) : Notice → Bool
  | .sent (.invalidated of) => channel == .invalidated && of == coordinate
  | .sent (.prerequisites of _) => channel == .prerequisites && of == coordinate
  | _ => false

/-- Whether a notice belongs to an announcement that a value may have changed. -/
def Notice.isInvalidation : Notice → Bool
  | .sent (.lengthInvalidated _) => true
  | .sent (.invalidated _) => true
  | .heard _ (.lengthInvalidated _) => true
  | _ => false

/-- Whether a notice says that the prerequisites of a length changed. -/
def Notice.rewiresLength : Notice → Bool
  | .sent (.lengthPrerequisites _ _) => true
  | _ => false

namespace Network

/-! What is new in a journal. -/

def news (before after : Network) : List Notice :=
  after.journal.toList.drop before.journal.size

/-- The journal of one network is a beginning of the other's. -/
def Recorded (before after : Network) : Prop :=
  before.journal.toList <+: after.journal.toList

theorem Recorded.of_journal {before after : Network} (hjournal : after.journal = before.journal) :
    Recorded before after := by
  simp only [Recorded, hjournal, List.prefix_rfl]

theorem Recorded.refl (network : Network) : Recorded network network :=
  .of_journal rfl

theorem Recorded.trans {before middle after : Network} (hfirst : Recorded before middle)
    (hsecond : Recorded middle after) : Recorded before after :=
  List.IsPrefix.trans hfirst hsecond

theorem Recorded.journal_eq {before after : Network} (hrecorded : Recorded before after) :
    after.journal.toList = before.journal.toList ++ news before after := by
  obtain ⟨added, hadded⟩ := hrecorded
  rw [news, ← hadded, ← Array.length_toList, List.drop_left]

theorem news_trans {before middle after : Network} (hfirst : Recorded before middle)
    (hsecond : Recorded middle after) :
    news before after = news before middle ++ news middle after := by
  have hwhole := (hfirst.trans hsecond).journal_eq
  rw [hsecond.journal_eq, hfirst.journal_eq, List.append_assoc] at hwhole
  exact (List.append_cancel_left hwhole).symm

theorem news_note (network : Network) (notice : Notice) :
    news network (network.note notice) = [notice] := by
  rw [news, note, Array.toList_push, ← Array.length_toList, List.drop_left]

theorem news_of_journal {before after : Network} (hjournal : after.journal = before.journal) :
    news before after = [] := by
  rw [news, hjournal, ← Array.length_toList, List.drop_length]

theorem news_self (network : Network) : news network network = [] :=
  news_of_journal rfl

/-- Nothing new says that a length reads something else. -/
structure Hushed (before after : Network) : Prop where
  recorded : Recorded before after
  silent : ∀ notice ∈ news before after, notice.rewiresLength = false

namespace Hushed

variable {before middle after : Network}

theorem of_journal (hjournal : after.journal = before.journal) : Hushed before after where
  recorded := .of_journal hjournal
  silent := by simp [news_of_journal hjournal]

theorem refl (network : Network) : Hushed network network :=
  .of_journal rfl

theorem trans (hfirst : Hushed before middle) (hsecond : Hushed middle after) :
    Hushed before after where
  recorded := hfirst.recorded.trans hsecond.recorded
  silent := by
    rw [news_trans hfirst.recorded hsecond.recorded]
    exact List.forall_mem_append.mpr ⟨hfirst.silent, hsecond.silent⟩

end Hushed

/-- A coordinate announced something between two states of a network. -/
def Announced (before after : Network) (channel : Channel) (coordinate : CoordinateId) : Prop :=
  ∃ notice ∈ news before after, notice.tells channel coordinate = true

theorem announced_note_iff {network : Network} {notice : Notice} {channel : Channel}
    {coordinate : CoordinateId} : Announced network (network.note notice) channel coordinate ↔
      notice.tells channel coordinate = true := by
  simp [Announced, news_note]

theorem not_announced_self {network : Network} {channel : Channel} {coordinate : CoordinateId} :
    ¬ Announced network network channel coordinate := by
  simp [Announced, news_self]

theorem Announced.extend {first second third fourth : Network} {channel : Channel}
    {coordinate : CoordinateId} (hannounced : Announced second third channel coordinate)
    (hbefore : Recorded first second) (hbetween : Recorded second third)
    (hafter : Recorded third fourth) : Announced first fourth channel coordinate := by
  obtain ⟨notice, hnotice, htells⟩ := hannounced
  refine ⟨notice, ?_, htells⟩
  rw [news_trans (hbefore.trans hbetween) hafter, news_trans hbefore hbetween]
  exact List.mem_append_left _ (List.mem_append_right _ hnotice)

theorem announced_trans_iff {first second third : Network} {channel : Channel}
    {coordinate : CoordinateId} (hfirst : Recorded first second) (hsecond : Recorded second third) :
    Announced first third channel coordinate ↔ Announced first second channel coordinate ∨
      Announced second third channel coordinate := by
  simp only [Announced, news_trans hfirst hsecond, List.mem_append, or_and_right, exists_or]

/-- Every coordinate whose recipe a length is has announced what reached it on a channel. -/
def Told (audience : Audience) (before after : Network) (channel : Channel) (id : LengthId) :
    Prop :=
  ∀ coordinate wiring, .recipeOf coordinate wiring ∈ before.listeners channel id →
    audience.includes (.recipeOf coordinate wiring) = true →
      Announced before after channel coordinate

/-! Networks that only announced something, or edited what no roster depends on. -/

structure Follows (audience : Audience) (before after : Network) : Prop where
  size : after.lengths.size = before.lengths.size
  recorded : Recorded before after
  operands : ∀ id, after.operandsAt id = before.operandsAt id
  builtIn : before.BuiltIn → after.BuiltIn
  /-- Only listeners that are gone are struck off. -/
  kept : ∀ channel id listener, audience.includes listener = true →
    (after.listeners channel id).count listener = (before.listeners channel id).count listener
  listed : ∀ channel id, after.listeners channel id ⊆ before.listeners channel id

namespace Follows

variable {audience : Audience} {before middle after : Network}

theorem refl (network : Network) : Follows audience network network :=
  ⟨rfl, .refl network, fun _ => rfl, id, fun _ _ _ _ => rfl, fun _ _ => List.Subset.refl _⟩

theorem trans (hfirst : Follows audience before middle)
    (hsecond : Follows audience middle after) : Follows audience before after where
  size := hsecond.size.trans hfirst.size
  recorded := hfirst.recorded.trans hsecond.recorded
  operands id := (hsecond.operands id).trans (hfirst.operands id)
  builtIn hbuilt := hsecond.builtIn (hfirst.builtIn hbuilt)
  kept channel id listener hincluded :=
    (hsecond.kept channel id listener hincluded).trans (hfirst.kept channel id listener hincluded)
  listed channel id := List.Subset.trans (hsecond.listed channel id) (hfirst.listed channel id)

theorem laid (hfollows : Follows audience before after) (hlaid : before.Laid audience) :
    after.Laid audience where
  builtIn := hfollows.builtIn hlaid.builtIn
  older upper lower hmem := hlaid.older upper lower (hfollows.operands upper ▸ hmem)
  closed upper lower hheld hmem := hlaid.closed upper lower hheld (hfollows.operands upper ▸ hmem)
  bounded compound hheld := hfollows.size ▸ hlaid.bounded compound hheld
  listed channel id compound hmem :=
    hfollows.size ▸ hlaid.listed channel id compound (hfollows.listed channel id hmem)
  enrolled channel id compound hheld := by
    rw [hfollows.kept channel id _ hheld, hfollows.operands]
    exact hlaid.enrolled channel id compound hheld

theorem builtOf_iff (hfollows : Follows audience before after) {upper lower : LengthId} :
    after.BuiltOf upper lower ↔ before.BuiltOf upper lower := by
  rw [BuiltOf, BuiltOf, show after.operandsAt = before.operandsAt from funext hfollows.operands]

theorem mem_listeners (hfollows : Follows audience before after) {channel : Channel}
    {id : LengthId} {listener : Listener} (hincluded : audience.includes listener = true) :
    listener ∈ after.listeners channel id ↔ listener ∈ before.listeners channel id := by
  rw [← List.count_pos_iff, hfollows.kept channel id listener hincluded, List.count_pos_iff]

end Follows

theorem Told.extend {audience : Audience} {first second third fourth : Network}
    {channel : Channel} {id : LengthId} (htold : Told audience second third channel id)
    (hbefore : Follows audience first second) (hbetween : Recorded second third)
    (hafter : Recorded third fourth) : Told audience first fourth channel id :=
  fun coordinate wiring hlistens hincluded =>
    (htold coordinate wiring ((hbefore.mem_listeners hincluded).mpr hlistens) hincluded).extend
      hbefore.recorded hbetween hafter

theorem Recorded.note (network : Network) (notice : Notice) :
    Recorded network (network.note notice) := by
  rw [Recorded, Network.note, Array.toList_push]
  exact List.prefix_append _ _

theorem Hushed.note (network : Network) {notice : Notice} (hsilent : notice.rewiresLength = false) :
    Hushed network (network.note notice) where
  recorded := .note network notice
  silent := by
    rw [news_note]
    exact List.forall_mem_singleton.mpr hsilent

section Steps

variable {audience : Audience} (network : Network)

theorem follows_note (notice : Notice) : Follows audience network (network.note notice) where
  size := rfl
  recorded := .note network notice
  operands _ := rfl
  builtIn hbuilt := hbuilt
  kept _ _ _ _ := rfl
  listed _ _ := List.Subset.refl _

theorem follows_strike (channel : Channel) (id : LengthId) :
    Follows audience network (network.strike audience channel id) where
  size := size_strike network id channel audience
  recorded := .refl network
  operands other := by rw [operandsAt, formula?_strike, operandsAt]
  builtIn hbuilt other formula hformula :=
    hbuilt other formula (formula?_strike network id other channel audience ▸ hformula)
  kept along other listener hincluded := by
    rw [listeners_strike]
    split
    · exact List.count_filter hincluded
    · rfl
  listed along other := by
    rw [listeners_strike]
    split
    · exact List.filter_subset_self _
    · exact List.Subset.refl _

theorem operandsAt_setFormula {id : LengthId} {old : Formula} (new : Formula)
    (hold : network.formula? id = some old) (hsame : new.operands = old.operands)
    (other : LengthId) :
    (network.setFormula id new).operandsAt other = network.operandsAt other := by
  rw [operandsAt, formula?_setFormula, operandsAt]
  split
  next heq => simp [heq, hold, hsame]
  next => rfl

theorem follows_setFormula {id : LengthId} {old new : Formula}
    (hold : network.formula? id = some old) (hsame : new.operands = old.operands)
    (hbuilt : new.isBuiltIn = true) : Follows audience network (network.setFormula id new) where
  size := size_setFormula network id new
  recorded := .refl network
  operands := operandsAt_setFormula network new hold hsame
  builtIn hall other formula hformula := by
    rw [formula?_setFormula] at hformula
    split at hformula
    next heq =>
      obtain ⟨_, _, rfl⟩ := Option.map_eq_some_iff.mp hformula
      exact hbuilt
    next => exact hall other formula hformula
  kept channel other listener _ := by rw [listeners_setFormula]
  listed channel other := by
    rw [listeners_setFormula]
    exact List.Subset.refl _

end Steps

/-! Announcing that a value may have changed. -/

/-- Only rosters and the journal changed. -/
structure Relays (audience : Audience) (before after : Network) : Prop
    extends Follows audience before after where
  formula : ∀ id, after.formula? id = before.formula? id

namespace Relays

variable {audience : Audience} {before middle after : Network}

theorem refl (network : Network) : Relays audience network network :=
  ⟨.refl network, fun _ => rfl⟩

theorem trans (hfirst : Relays audience before middle)
    (hsecond : Relays audience middle after) : Relays audience before after :=
  ⟨hfirst.toFollows.trans hsecond.toFollows,
    fun id => (hsecond.formula id).trans (hfirst.formula id)⟩

theorem note (network : Network) (notice : Notice) :
    Relays audience network (network.note notice) :=
  ⟨follows_note network notice, fun _ => rfl⟩

theorem strike (network : Network) (channel : Channel) (id : LengthId) :
    Relays audience network (network.strike audience channel id) :=
  ⟨follows_strike network channel id,
    fun other => formula?_strike network id other channel audience⟩

end Relays

/-- An announcement that has begun: its listeners are counted, and it is in the journal. -/
def opened (network : Network) (audience : Audience) (channel : Channel) (id : LengthId)
    (message : Message) : Network :=
  (network.strike audience channel id).send message

theorem relays_opened (audience : Audience) (network : Network) (channel : Channel)
    (id : LengthId) (message : Message) :
    Relays audience network (network.opened audience channel id message) :=
  (Relays.strike network channel id).trans (.note _ _)

theorem roster_opened (audience : Audience) {network : Network} (hbuilt : network.BuiltIn)
    (channel : Channel) (id : LengthId) (message : Message) :
    (network.opened audience channel id message).roster channel id =
      (network.listeners channel id).filter audience.includes := by
  have hopened := relays_opened audience network channel id message
  rw [(hopened.builtIn hbuilt).roster, opened, send, listeners_note, listeners_strike,
    if_pos ⟨rfl, rfl⟩]

theorem lt_of_mem_listeners {network : Network} {channel : Channel} {id : LengthId}
    {listener : Listener} (hmem : listener ∈ network.listeners channel id) :
    id.index < network.lengths.size := by
  by_contra hge
  simp [listeners, Array.getElem?_eq_none (Nat.le_of_not_lt hge)] at hmem

theorem Older.le_of_builtOf {network : Network} (holder : network.Older) {upper lower : LengthId}
    (hpath : network.BuiltOf upper lower) : lower.index ≤ upper.index := by
  induction hpath with
  | refl => exact Nat.le_refl _
  | tail _ hoperand ih => exact (Nat.le_of_lt (holder _ _ hoperand)).trans ih

/-- What announcing an invalidation does for one listener. -/
def hearInvalidated (audience : Audience) (depth : Nat) (id : LengthId) (network : Network) :
    Listener → Network
  | .operandOf compound => announceInvalidated audience depth compound network
  | .recipeOf coordinate _ => network.send (.invalidated coordinate)
  | .watch number => network.note (.heard number (.lengthInvalidated id))

theorem announceInvalidated_succ (audience : Audience) (depth : Nat) (id : LengthId)
    (network : Network) : announceInvalidated audience (depth + 1) id network =
      ((network.opened audience .invalidated id (.lengthInvalidated id)).roster .invalidated
        id).foldl (hearInvalidated audience depth id)
          (network.opened audience .invalidated id (.lengthInvalidated id)) := rfl

theorem relays_hearInvalidated {audience : Audience} {depth : Nat}
    (hannounce : ∀ id network,
      Relays audience network (announceInvalidated audience depth id network))
    (id : LengthId) (network : Network) (listener : Listener) :
    Relays audience network (hearInvalidated audience depth id network listener) := by
  cases listener with
  | operandOf compound => exact hannounce compound network
  | recipeOf coordinate wiring => exact .note network _
  | watch number => exact .note network _

/-- What rosters that are struck and notices of invalidations keep, whole announcements keep. -/
theorem announceInvalidated_related {r : Network → Network → Prop} {audience : Audience}
    (hrefl : ∀ state, r state state)
    (htrans : ∀ {first second third}, r first second → r second third → r first third)
    (hstrike : ∀ network id, r network (network.strike audience .invalidated id))
    (hnote : ∀ network notice, notice.isInvalidation = true → r network (network.note notice))
    (depth : Nat) (id : LengthId) (network : Network) :
    r network (announceInvalidated audience depth id network) := by
  induction depth generalizing id network with
  | zero => exact hrefl network
  | succ depth ih =>
      rw [announceInvalidated_succ]
      have hopened := htrans (hstrike network id) (hnote _ (.sent (.lengthInvalidated id)) rfl)
      refine htrans hopened (foldl_related hrefl htrans (fun state listener _ => ?_) _)
      cases listener with
      | operandOf compound => exact ih compound state
      | recipeOf coordinate wiring => exact hnote state (.sent (.invalidated coordinate)) rfl
      | watch number => exact hnote state (.heard number (.lengthInvalidated id)) rfl

theorem relays_announceInvalidated (audience : Audience) (depth : Nat) (id : LengthId)
    (network : Network) :
    Relays audience network (announceInvalidated audience depth id network) :=
  announceInvalidated_related .refl .trans (fun network id => .strike network .invalidated id)
    (fun network notice _ => .note network notice) depth id network

theorem hushed_announceInvalidated (audience : Audience) (depth : Nat) (id : LengthId)
    (network : Network) : Hushed network (announceInvalidated audience depth id network) := by
  refine announceInvalidated_related .refl .trans (fun _ _ => .of_journal rfl)
    (fun network notice hinvalidation => .note network ?_) depth id network
  unfold Notice.isInvalidation at hinvalidation
  split at hinvalidation
  all_goals first | rfl | contradiction

/-- Everyone who listens has a turn; what comes before it and after it only relays. -/
theorem exists_hearInvalidated {audience : Audience} {network : Network}
    (hbuilt : network.BuiltIn) (depth : Nat) {id : LengthId} {listener : Listener}
    (hlistens : listener ∈ network.listeners .invalidated id)
    (hincluded : audience.includes listener = true) :
    ∃ state, Relays audience network state ∧
      Relays audience (hearInvalidated audience depth id state listener)
        (announceInvalidated audience (depth + 1) id network) := by
  rw [announceInvalidated_succ]
  have hroster : listener ∈ (network.opened audience .invalidated id
      (.lengthInvalidated id)).roster .invalidated id := by
    rw [roster_opened audience hbuilt]
    exact List.mem_filter.mpr ⟨hlistens, hincluded⟩
  obtain ⟨state, hbefore, hafter⟩ := exists_foldl_step .refl .trans (fun state listener _ =>
    relays_hearInvalidated (relays_announceInvalidated audience depth) id state listener) hroster
    (network.opened audience .invalidated id (.lengthInvalidated id))
  exact ⟨state, (relays_opened audience network .invalidated id _).trans hbefore, hafter⟩

theorem told_announceInvalidated {audience : Audience} {depth : Nat} {id upper : LengthId}
    {network : Network} (hlaid : network.Laid audience)
    (hfuel : network.lengths.size ≤ depth + id.index)
    (hheld : upper = id ∨ audience.includes (.operandOf upper) = true)
    (hpath : network.BuiltOf upper id) :
    Told audience network (announceInvalidated audience depth id network) .invalidated upper := by
  induction depth generalizing id network with
  | zero =>
      intro coordinate wiring hlistens _
      have hlt := lt_of_mem_listeners hlistens
      have hle := hlaid.older.le_of_builtOf hpath
      omega
  | succ depth ih =>
      rcases hpath.cases_tail with rfl | ⟨middle, hupper, hoperand⟩
      · intro coordinate wiring hlistens hincluded
        obtain ⟨state, hbefore, hafter⟩ :=
          exists_hearInvalidated hlaid.builtIn depth hlistens hincluded
        have hannounced : Announced state (state.send (.invalidated coordinate)) .invalidated
            coordinate := announced_note_iff.mpr (by simp [Notice.tells])
        exact hannounced.extend hbefore.recorded (.note state _) hafter.recorded
      · have hless := hlaid.older _ _ hoperand
        have hle := hlaid.older.le_of_builtOf hupper
        -- Compounds come after their operands, so that the last on the way is not the first.
        have hupperHeld : audience.includes (.operandOf upper) = true := by
          refine hheld.resolve_left fun heq => ?_
          subst heq
          omega
        have hmiddle := hlaid.closed_builtOf hupperHeld hupper
        obtain ⟨state, hbefore, hafter⟩ := exists_hearInvalidated hlaid.builtIn depth
          ((hlaid.mem_operandsAt hmiddle).mpr hoperand) hmiddle
        have hfuel' : state.lengths.size ≤ depth + middle.index := by
          rw [hbefore.size]
          omega
        have htold := ih (hbefore.laid hlaid) hfuel' (.inr hupperHeld)
          (hbefore.builtOf_iff.mpr hupper)
        exact htold.extend hbefore.toFollows
          (relays_announceInvalidated audience depth middle state).recorded hafter.recorded

/-! Announcing a change of prerequisites. -/

/-- The same formula, except that a compound may have counted anew. -/
def SameButTally (before after : Option Formula) : Prop :=
  after = before ∨ ∃ shape old new,
    before = some (.compound shape old) ∧ after = some (.compound shape new)

theorem SameButTally.trans {first second third : Option Formula}
    (hfirst : SameButTally first second) (hsecond : SameButTally second third) :
    SameButTally first third := by
  rcases hfirst with rfl | ⟨shape, old, middle, rfl, rfl⟩
  · exact hsecond
  · rcases hsecond with rfl | ⟨other, _, new, hsame, rfl⟩
    · exact .inr ⟨shape, old, middle, rfl, rfl⟩
    · injection hsame with hsame
      injection hsame with hshape
      exact .inr ⟨shape, old, new, rfl, hshape ▸ rfl⟩

/-- Tallies changed, and who depends on what they list has been told. -/
structure Retallies (audience : Audience) (before after : Network) : Prop
    extends Follows audience before after where
  formula : ∀ id, SameButTally (before.formula? id) (after.formula? id)
  told : ∀ id, (∀ coordinate, coordinate ∈ after.reads id ↔ coordinate ∈ before.reads id) ∨
    Told audience before after .prerequisites id

namespace Retallies

variable {audience : Audience} {before middle after : Network}

theorem of_relays (hrelays : Relays audience before after) : Retallies audience before after where
  toFollows := hrelays.toFollows
  formula id := .inl (hrelays.formula id)
  told id := .inl fun coordinate => by rw [reads, hrelays.formula, reads]

theorem trans (hfirst : Retallies audience before middle)
    (hsecond : Retallies audience middle after) : Retallies audience before after where
  toFollows := hfirst.toFollows.trans hsecond.toFollows
  formula id := (hfirst.formula id).trans (hsecond.formula id)
  told id := by
    rcases hfirst.told id with hsame | htold
    · rcases hsecond.told id with hsame' | htold
      · exact .inl fun coordinate => (hsame' coordinate).trans (hsame coordinate)
      · exact .inr (htold.extend hfirst.toFollows hsecond.recorded (.refl after))
    · exact .inr (htold.extend (.refl before) hfirst.recorded hsecond.recorded)

end Retallies

theorem passOn_compound {network : Network} {compound : LengthId} {shape : Compound}
    {tally : PrerequisiteTally}
    (hformula : network.formula? compound = some (.compound shape tally))
    (change : PrerequisiteChange) : network.passOn compound change =
      ((tally.apply change).1,
        network.setFormula compound (.compound shape (tally.apply change).2)) := by
  rw [passOn, hformula]

/-- What announcing a change of prerequisites does for one listener. -/
def hearPrerequisites (audience : Audience) (depth : Nat) (id : LengthId)
    (change : PrerequisiteChange) (network : Network) : Listener → Network
  | .operandOf compound =>
    let (visible, network) := network.passOn compound change
    if visible.isEmpty then network
    else announcePrerequisites audience depth compound visible network
  | .recipeOf coordinate _ => network.send (.prerequisites coordinate change)
  | .watch number => network.note (.heard number (.lengthPrerequisites id change))

theorem announcePrerequisites_succ (audience : Audience) (depth : Nat) (id : LengthId)
    (change : PrerequisiteChange) (network : Network) :
    announcePrerequisites audience (depth + 1) id change network =
      ((network.opened audience .prerequisites id (.lengthPrerequisites id change)).roster
        .prerequisites id).foldl (hearPrerequisites audience depth id change)
          (network.opened audience .prerequisites id (.lengthPrerequisites id change)) := rfl

/-- What a compound lists changes when it counts anew, and is then announced. -/
theorem retallies_recount {audience : Audience} {network after : Network} {compound : LengthId}
    {shape : Compound} {old new : PrerequisiteTally}
    (hformula : network.formula? compound = some (.compound shape old))
    (hafter : Retallies audience (network.setFormula compound (.compound shape new)) after)
    (htold : new.members = old.members ∨
      Told audience (network.setFormula compound (.compound shape new)) after .prerequisites
        compound) :
    Retallies audience network after := by
  have hset : Follows audience network (network.setFormula compound (.compound shape new)) :=
    follows_setFormula network hformula rfl rfl
  refine ⟨hset.trans hafter.toFollows, fun id => ?_, fun id => ?_⟩
  · refine SameButTally.trans ?_ (hafter.formula id)
    rw [formula?_setFormula]
    split
    next heq => exact .inr ⟨shape, old, new, heq ▸ hformula, by rw [heq, hformula]; rfl⟩
    next => exact .inl rfl
  · by_cases heq : id = compound
    · subst heq
      rcases htold with hmembers | htold
      · have hreads : (network.setFormula id (.compound shape new)).reads id =
            network.reads id := by
          simp [reads, formula?_setFormula, hformula, Formula.prerequisites, hmembers]
        rcases hafter.told id with hsame | htold
        · exact .inl fun coordinate => hreads ▸ hsame coordinate
        · exact .inr (htold.extend hset hafter.recorded (.refl after))
      · exact .inr (htold.extend hset hafter.recorded (.refl after))
    · have hreads : (network.setFormula compound (.compound shape new)).reads id =
          network.reads id := by
        rw [reads, formula?_setFormula, if_neg heq, reads]
      rcases hafter.told id with hsame | htold
      · exact .inl fun coordinate => hreads ▸ hsame coordinate
      · exact .inr (htold.extend hset hafter.recorded (.refl after))

theorem BuiltIn.exists_compound {network : Network} (hbuilt : network.BuiltIn)
    {upper lower : LengthId} (hoperand : lower ∈ network.operandsAt upper) :
    ∃ shape tally, network.formula? upper = some (.compound shape tally) ∧
      lower ∈ shape.lengths := by
  cases hformula : network.formula? upper with
  | none => simp [operandsAt, hformula] at hoperand
  | some formula =>
      have hkind := hbuilt upper formula hformula
      cases formula with
      | compound shape tally =>
          exact ⟨shape, tally, rfl,
            by simpa [operandsAt, hformula, Formula.operands] using hoperand⟩
      | tracer own => exact absurd hkind Bool.false_ne_true
      | _ => simp [operandsAt, hformula, Formula.operands] at hoperand

/-- That announcements of some depth keep to their relation, whatever they start from. -/
def Reaches (audience : Audience) (depth : Nat) : Prop :=
  ∀ (id : LengthId) {network : Network}, network.Laid audience →
    network.lengths.size ≤ depth + id.index → ∀ change,
      Retallies audience network (announcePrerequisites audience depth id change network) ∧
        Told audience network (announcePrerequisites audience depth id change network)
          .prerequisites id

theorem retallies_hearPrerequisites {audience : Audience} {depth : Nat}
    (hreaches : Reaches audience depth) {id : LengthId} {network : Network}
    (hlaid : network.Laid audience) (hfuel : network.lengths.size ≤ depth + 1 + id.index)
    (change : PrerequisiteChange) {listener : Listener}
    (hlistens : listener ∈ network.listeners .prerequisites id)
    (hincluded : audience.includes listener = true) :
    Retallies audience network (hearPrerequisites audience depth id change network listener) := by
  cases listener with
  | recipeOf coordinate wiring => exact .of_relays (.note network _)
  | watch number => exact .of_relays (.note network _)
  | operandOf compound =>
      have hoperand := (hlaid.mem_operandsAt hincluded).mp hlistens
      have hless := hlaid.older _ _ hoperand
      obtain ⟨shape, tally, hformula, _⟩ := hlaid.builtIn.exists_compound hoperand
      have hset : Follows audience network
          (network.setFormula compound (.compound shape (tally.apply change).2)) :=
        follows_setFormula network hformula rfl rfl
      simp only [hearPrerequisites, passOn_compound hformula]
      split
      next hempty =>
        exact retallies_recount hformula (.of_relays (.refl _))
          (.inl (PrerequisiteTally.members_apply_of_isEmpty hempty))
      next =>
        obtain ⟨hafter, htold⟩ := hreaches compound (hset.laid hlaid)
          (by rw [hset.size]; omega) (tally.apply change).1
        exact retallies_recount hformula hafter (.inr htold)

theorem reaches (audience : Audience) (depth : Nat) : Reaches audience depth := by
  induction depth with
  | zero =>
      intro id network _ hfuel change
      refine ⟨.of_relays (.refl network), fun coordinate wiring hlistens _ => ?_⟩
      have hlt := lt_of_mem_listeners hlistens
      omega
  | succ depth ih =>
      intro id network hlaid hfuel change
      have hopened := relays_opened audience network .prerequisites id
        (.lengthPrerequisites id change)
      have hroster := roster_opened audience hlaid.builtIn .prerequisites id
        (.lengthPrerequisites id change)
      rw [announcePrerequisites_succ]
      generalize network.opened audience .prerequisites id (.lengthPrerequisites id change) = start
        at hopened hroster ⊢
      -- The fold goes over the roster at its start; who is on it stays on it.
      let r (first second : Network) : Prop :=
        Follows audience network first → Retallies audience first second
      have hstep : ∀ state, ∀ listener ∈ start.roster .prerequisites id,
          r state (hearPrerequisites audience depth id change state listener) := by
        intro state listener hmem hreached
        rw [hroster, List.mem_filter] at hmem
        exact retallies_hearPrerequisites ih (hreached.laid hlaid) (by rw [hreached.size]; omega)
          change ((hreached.mem_listeners hmem.2).mpr hmem.1) hmem.2
      have hrefl : ∀ state, r state state := fun state _ => .of_relays (.refl state)
      have htrans : ∀ {first second third : Network}, r first second → r second third →
          r first third :=
        fun hfirst hsecond hreached =>
          (hfirst hreached).trans (hsecond (hreached.trans (hfirst hreached).toFollows))
      refine ⟨(Retallies.of_relays hopened).trans
        (foldl_related (r := r) hrefl htrans hstep start hopened.toFollows), ?_⟩
      intro coordinate wiring hlistens hincluded
      have hmem : Listener.recipeOf coordinate wiring ∈ start.roster .prerequisites id := by
        rw [hroster]
        exact List.mem_filter.mpr ⟨hlistens, hincluded⟩
      obtain ⟨state, hbefore, hafter⟩ := exists_foldl_step (r := r) hrefl htrans hstep hmem start
      have hreached := hopened.toFollows.trans (hbefore hopened.toFollows).toFollows
      have hannounced : Announced state (state.send (.prerequisites coordinate change))
          .prerequisites coordinate := announced_note_iff.mpr (by simp [Notice.tells])
      exact hannounced.extend hreached.recorded (.note state _)
        (hafter (hreached.trans (follows_note state _))).recorded

end Network

end RegionLayout
