import RegionLayout.Length.Binding
import RegionLayout.Proofs.Length.Emission

/-!
What lengths say. To announce something is to strike rosters, to note what is said, and to have
compounds count anew; a relation that these steps keep holds from the network before to the network
after. Whatever else binding changes, all that it has said is on lengths.
-/

namespace RegionLayout

/-- What lengths say of themselves, and for the coordinates whose recipes they are. -/
def Notice.isOnLength : Notice → Bool
  | .sent (.lengthInvalidated _) => true
  | .sent (.lengthPrerequisites _ _) => true
  | .sent (.invalidated _) => true
  | .sent (.prerequisites _ _) => true
  | .heard _ _ => true
  | .bound _ _ => true
  | _ => false

theorem Notice.isOnLength_of_isInvalidation {notice : Notice}
    (hinvalidation : notice.isInvalidation = true) : notice.isOnLength = true := by
  unfold isInvalidation at hinvalidation
  split at hinvalidation
  all_goals first | rfl | contradiction

namespace Network

/-- A relation that the steps of an announcement keep. -/
structure Announcing (audience : Audience) (r : Network → Network → Prop) : Prop where
  refl : ∀ network, r network network
  trans : ∀ {first second third}, r first second → r second third → r first third
  strike : ∀ network channel id, r network (network.strike audience channel id)
  note : ∀ network notice, notice.isOnLength = true → r network (network.note notice)
  recount : ∀ network id shape old new, network.formula? id = some (.compound shape old) →
    r network (network.setFormula id (.compound shape new))

namespace Announcing

variable {audience : Audience} {r : Network → Network → Prop}
  (hannouncing : Announcing audience r) (network : Network)

include hannouncing

theorem announceInvalidated (depth : Nat) (id : LengthId) :
    r network (Network.announceInvalidated audience depth id network) :=
  announceInvalidated_related hannouncing.refl hannouncing.trans
    (fun state id => hannouncing.strike state .invalidated id)
    (fun state notice hinvalidation =>
      hannouncing.note state notice (Notice.isOnLength_of_isInvalidation hinvalidation))
    depth id network

theorem passOn (compound : LengthId) (change : PrerequisiteChange) :
    r network (network.passOn compound change).2 := by
  unfold Network.passOn
  split
  next shape tally hformula => exact hannouncing.recount network compound shape tally _ hformula
  next => exact hannouncing.refl network

theorem announcePrerequisites (depth : Nat) (id : LengthId) (change : PrerequisiteChange) :
    r network (Network.announcePrerequisites audience depth id change network) := by
  induction depth generalizing id change network with
  | zero => exact hannouncing.refl network
  | succ depth ih =>
      rw [announcePrerequisites_succ]
      have hopened := hannouncing.trans (hannouncing.strike network .prerequisites id)
        (hannouncing.note _ (.sent (.lengthPrerequisites id change)) rfl)
      refine hannouncing.trans hopened
        (foldl_related hannouncing.refl hannouncing.trans (fun state listener _ => ?_) _)
      cases listener with
      | operandOf compound =>
          have hpassed := hannouncing.passOn state compound change
          simp only [hearPrerequisites]
          split
          · exact hpassed
          · exact hannouncing.trans hpassed (ih _ compound _)
      | recipeOf coordinate wiring => exact hannouncing.note state _ rfl
      | watch number => exact hannouncing.note state _ rfl

theorem announceMove (id : LengthId) (old new : List CoordinateId) :
    r network (network.announceMove audience id old new) := by
  unfold Network.announceMove
  dsimp only
  split
  · exact hannouncing.refl network
  · exact hannouncing.trans (hannouncing.announcePrerequisites network _ _ _)
      (hannouncing.announceInvalidated _ _ _)

end Announcing

/-! All that is said. -/

/-- Whatever was said was on lengths. -/
structure Murmurs (before after : Network) : Prop where
  recorded : Recorded before after
  onLengths : ∀ notice ∈ news before after, notice.isOnLength = true

namespace Murmurs

variable {before middle after : Network}

theorem of_journal (hjournal : after.journal = before.journal) : Murmurs before after where
  recorded := .of_journal hjournal
  onLengths := by simp [news_of_journal hjournal]

theorem refl (network : Network) : Murmurs network network :=
  .of_journal rfl

theorem trans (hfirst : Murmurs before middle) (hsecond : Murmurs middle after) :
    Murmurs before after where
  recorded := hfirst.recorded.trans hsecond.recorded
  onLengths := by
    rw [news_trans hfirst.recorded hsecond.recorded]
    exact List.forall_mem_append.mpr ⟨hfirst.onLengths, hsecond.onLengths⟩

theorem note (network : Network) (notice : Notice) (hlength : notice.isOnLength = true) :
    Murmurs network (network.note notice) where
  recorded := .note network notice
  onLengths := by
    rw [news_note]
    exact List.forall_mem_singleton.mpr hlength

end Murmurs

section Binding

variable (audience : Audience)

theorem announcing_murmurs : Announcing audience Murmurs where
  refl := .refl
  trans := .trans
  strike _ _ _ := .of_journal rfl
  note := .note
  recount _ _ _ _ _ _ := .of_journal rfl

theorem murmurs_bindWith {inner : LengthId → Network → Network}
    (hinner : ∀ id network, Murmurs network (inner id network)) (owner : CoordinateId)
    (around : Surroundings) (id : LengthId) (network : Network) :
    Murmurs network (bindWith inner audience owner around id network) := by
  have hset : ∀ formula, Murmurs network (network.setFormula id formula) := fun _ =>
    .of_journal rfl
  have hmoves : ∀ formula old new, Murmurs network
      ((network.setFormula id formula).announceMove audience id old new) := fun formula old new =>
    (hset formula).trans ((announcing_murmurs audience).announceMove _ id old new)
  unfold bindWith
  split
  next => exact hmoves _ _ _
  next => exact hmoves _ _ _
  next =>
    dsimp only
    split
    · exact hset _
    · exact hmoves _ _ _
  next =>
    exact foldl_related (r := Murmurs) .refl .trans (fun state operand _ => hinner operand state) _
  next tracer _ =>
    exact (Murmurs.note network (.bound tracer.name owner) rfl).trans
      (hinner tracer.inner _)
  next => exact .refl network

theorem murmurs_bind (owner : CoordinateId) (around : Surroundings) (id : LengthId)
    (network : Network) : Murmurs network (network.bind audience owner around id) := by
  have hdepth : ∀ depth id network,
      Murmurs network (bindAt audience owner around depth id network) := by
    intro depth
    induction depth with
    | zero => exact fun _ network => .refl network
    | succ depth ih => exact murmurs_bindWith audience ih owner around
  exact hdepth _ id network

end Binding

end Network

end RegionLayout
