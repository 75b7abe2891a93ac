import RegionLayout.Proofs.Length.Binding

/-!
New listeners and new lengths. A coordinate that comes to listen changes nothing for anyone else; a
new compound counts what its operands read, and is on their rosters as often as it lists them.
-/

namespace RegionLayout.Network

/-- Others than compounds came to listen, and nothing else changed. -/
structure Enlists (before after : Network) : Prop where
  size : after.lengths.size = before.lengths.size
  journal : after.journal = before.journal
  formula : ∀ id, after.formula? id = before.formula? id
  counted : ∀ channel id compound, (after.listeners channel id).count (.operandOf compound) =
    (before.listeners channel id).count (.operandOf compound)
  kept : ∀ channel id, before.listeners channel id ⊆ after.listeners channel id

namespace Enlists

variable {before middle after : Network} {audience : Audience}

theorem refl (network : Network) : Enlists network network :=
  ⟨rfl, rfl, fun _ => rfl, fun _ _ _ => rfl, fun _ _ => List.Subset.refl _⟩

theorem trans (hfirst : Enlists before middle) (hsecond : Enlists middle after) :
    Enlists before after where
  size := hsecond.size.trans hfirst.size
  journal := hsecond.journal.trans hfirst.journal
  formula id := (hsecond.formula id).trans (hfirst.formula id)
  counted channel id compound :=
    (hsecond.counted channel id compound).trans (hfirst.counted channel id compound)
  kept channel id := List.Subset.trans (hfirst.kept channel id) (hsecond.kept channel id)

theorem operandsAt_eq (henlists : Enlists before after) : after.operandsAt = before.operandsAt := by
  funext id
  rw [operandsAt, henlists.formula, operandsAt]

theorem builtIn (henlists : Enlists before after) (hbuilt : before.BuiltIn) : after.BuiltIn :=
  fun id formula hformula => hbuilt id formula (henlists.formula id ▸ hformula)

theorem laid (henlists : Enlists before after) (hlaid : before.Laid audience) :
    after.Laid audience where
  builtIn := henlists.builtIn hlaid.builtIn
  older := by
    rw [Older, henlists.operandsAt_eq]
    exact hlaid.older
  closed := by
    rw [henlists.operandsAt_eq]
    exact hlaid.closed
  bounded compound hheld := henlists.size ▸ hlaid.bounded compound hheld
  listed channel id compound hmem := by
    rw [← List.count_pos_iff, henlists.counted, List.count_pos_iff] at hmem
    exact henlists.size ▸ hlaid.listed channel id compound hmem
  enrolled channel id compound hheld := by
    rw [henlists.counted, henlists.operandsAt_eq]
    exact hlaid.enrolled channel id compound hheld

theorem sound (henlists : Enlists before after) (hsound : before.Sound audience) :
    after.Sound audience where
  laid := henlists.laid hsound.laid
  ledger := hsound.ledger.of_formula henlists.formula
  spans id span hformula := hsound.spans id span (henlists.formula id ▸ hformula)

theorem unfolds (henlists : Enlists before after) : Unfolds before after :=
  ((Hushed.of_journal henlists.journal).aside henlists.formula).unfolds

end Enlists

section Subscribe

variable {network : Network} {id : LengthId} (hbuilt : network.BuiltIn)
  (hlt : id.index < network.lengths.size)

include hbuilt hlt

theorem enlists_subscribe (channel : Channel) {listener : Listener}
    (hother : ∀ compound, listener ≠ .operandOf compound) :
    Enlists network (network.subscribe channel id listener) where
  size := size_subscribe network id channel _
  journal := rfl
  formula other := formula?_subscribe network id other channel _
  counted along other compound := by
    rw [listeners_subscribe network id other channel along hbuilt _ hlt]
    split
    · rw [List.count_append, List.count_singleton, if_neg (by simpa using hother compound),
        Nat.add_zero]
    · rfl
  kept along other := by
    rw [listeners_subscribe network id other channel along hbuilt _ hlt]
    split
    · exact List.subset_append_left _ _
    · exact List.Subset.refl _

theorem enlists_subscribeBoth (owner : CoordinateId) (wiring : Nat) :
    Enlists network (network.subscribeBoth id (.recipeOf owner wiring)) := by
  have hother : ∀ compound, Listener.recipeOf owner wiring ≠ .operandOf compound := nofun
  have hfirst := enlists_subscribe hbuilt hlt .invalidated hother
  exact hfirst.trans (enlists_subscribe (hfirst.builtIn hbuilt) (hfirst.size ▸ hlt) .prerequisites
    hother)

theorem listeners_subscribeBoth (listener : Listener) (channel : Channel) (other : LengthId) :
    (network.subscribeBoth id listener).listeners channel other =
      if other = id then network.listeners channel other ++ [listener]
      else network.listeners channel other := by
  have hbuilt' : (network.subscribe .invalidated id listener).BuiltIn := fun other formula hother =>
    hbuilt other formula (formula?_subscribe network id other .invalidated listener ▸ hother)
  have hlt' : id.index < (network.subscribe .invalidated id listener).lengths.size := by
    rwa [size_subscribe]
  rw [subscribeBoth, listeners_subscribe _ id other .prerequisites channel hbuilt' _ hlt',
    listeners_subscribe network id other .invalidated channel hbuilt _ hlt]
  by_cases heq : other = id <;> cases channel <;> simp [heq]

end Subscribe

/-! New lengths. -/

theorem formula?_subscribeBoth (network : Network) (id other : LengthId) (listener : Listener) :
    (network.subscribeBoth id listener).formula? other = network.formula? other := by
  rw [subscribeBoth, formula?_subscribe, formula?_subscribe]

theorem size_subscribeBoth (network : Network) (id : LengthId) (listener : Listener) :
    (network.subscribeBoth id listener).lengths.size = network.lengths.size := by
  rw [subscribeBoth, size_subscribe, size_subscribe]

/-- A network in which a compound has been put on the rosters of some operands. -/
structure Seats (network after : Network) (compound : LengthId) (operands : List LengthId) :
    Prop where
  size : after.lengths.size = network.lengths.size
  journal : after.journal = network.journal
  formula : ∀ id, after.formula? id = network.formula? id
  listeners : ∀ channel id, after.listeners channel id =
    network.listeners channel id ++ List.replicate (operands.count id) (.operandOf compound)

theorem seats_foldl (network : Network) (compound : LengthId) {operands : List LengthId}
    (hbuilt : network.BuiltIn) (hlt : ∀ operand ∈ operands, operand.index < network.lengths.size) :
    Seats network (operands.foldl (fun network operand =>
      network.subscribeBoth operand (.operandOf compound)) network) compound operands := by
  induction operands generalizing network with
  | nil => exact ⟨rfl, rfl, fun _ => rfl, fun _ _ => (List.append_nil _).symm⟩
  | cons first rest ih =>
      obtain ⟨hfirst, hrest⟩ := List.forall_mem_cons.mp hlt
      have hseats := ih (network.subscribeBoth first (.operandOf compound))
        (fun id formula hformula => hbuilt id formula
          (formula?_subscribeBoth network first id _ ▸ hformula))
        (fun operand hoperand => by rw [size_subscribeBoth]; exact hrest operand hoperand)
      refine ⟨hseats.size.trans (size_subscribeBoth network first _), hseats.journal,
        fun id => (hseats.formula id).trans (formula?_subscribeBoth network first id _),
        fun channel id => ?_⟩
      rw [List.foldl_cons, hseats.listeners, listeners_subscribeBoth hbuilt hfirst]
      by_cases heq : id = first
      · subst heq
        rw [if_pos rfl, List.count_cons_self, List.append_assoc, List.replicate_succ]
        rfl
      · rw [if_neg heq, List.count_cons_of_ne (Ne.symm heq)]

theorem valid_tallyOf {network : Network} (operands : List LengthId) {tally : PrerequisiteTally}
    (hvalid : tally.Valid) : (operands.foldl (fun tally operand =>
      (tally.apply (.adding (network.prerequisites operand))).2) tally).Valid := by
  induction operands generalizing tally with
  | nil => exact hvalid
  | cons first rest ih => exact ih (hvalid.apply _)

theorem count_tallyOf {network : Network} (hbuilt : network.BuiltIn)
    (hnodup : ∀ id, (network.reads id).Nodup) (operands : List LengthId)
    (tally : PrerequisiteTally) (coordinate : CoordinateId) :
    (operands.foldl (fun tally operand =>
      (tally.apply (.adding (network.prerequisites operand))).2) tally).count coordinate =
      tally.count coordinate +
        operands.countP fun operand => decide (coordinate ∈ network.reads operand) := by
  induction operands generalizing tally with
  | nil => rfl
  | cons first rest ih =>
      rw [List.foldl_cons, ih, PrerequisiteTally.count_apply, List.countP_cons,
        hbuilt.prerequisites]
      by_cases hmem : coordinate ∈ network.reads first
      · simp only [PrerequisiteChange.adding, List.count_nil, Nat.sub_zero,
          List.count_eq_one_of_mem (hnodup first) hmem, hmem, decide_true, if_true]
        omega
      · simp [PrerequisiteChange.adding, List.count_eq_zero_of_not_mem hmem, hmem]

/-- A new compound takes up what each operand reads exactly. -/
theorem exact_tallyOf {network : Network} {next : LengthId}
    (hnodup : (network.prerequisites next).Nodup) (done : List LengthId) :
    ((network.tallyOf done).apply (.adding (network.prerequisites next))).1.Exact
      (network.tallyOf done).members (network.tallyOf (done ++ [next])).members := by
  have hleads : (PrerequisiteChange.adding (network.prerequisites next)).Leads
      (network.prerequisites next) := ⟨hnodup, List.nodup_nil, fun _ => id, nofun⟩
  have hvalid : (network.tallyOf done).Valid := valid_tallyOf done PrerequisiteTally.Valid.empty
  have hlast : network.tallyOf (done ++ [next]) =
      ((network.tallyOf done).apply (.adding (network.prerequisites next))).2 := by
    rw [tallyOf, List.foldl_append, List.foldl_cons, List.foldl_nil, tallyOf]
  rw [hlast]
  exact PrerequisiteTally.exact_visible hvalid hleads nofun

/-- A network with one length more. -/
structure Grows (network after : Network) (added : Formula) : Prop where
  size : after.lengths.size = network.lengths.size + 1
  journal : after.journal = network.journal
  formula : ∀ id, after.formula? id =
    if id = ⟨network.lengths.size⟩ then some added else network.formula? id
  listeners : ∀ channel id, after.listeners channel id =
    network.listeners channel id ++
      List.replicate (added.operands.count id) (.operandOf ⟨network.lengths.size⟩)

theorem listeners_add_of_size (network : Network) (formula : Formula) (channel : Channel)
    (id : LengthId) :
    (network.add formula).2.listeners channel id = network.listeners channel id := by
  rw [listeners_add]
  split
  next heq =>
    symm
    rw [List.eq_nil_iff_forall_not_mem]
    intro listener hmem
    have hlt := lt_of_mem_listeners hmem
    rw [heq] at hlt
    exact Nat.lt_irrefl _ hlt
  next => rfl

theorem grows_add (network : Network) {formula : Formula} (hnone : formula.operands = []) :
    Grows network (network.add formula).2 formula where
  size := by simp [add]
  journal := rfl
  formula id := formula?_add network id formula
  listeners channel id := by
    rw [listeners_add_of_size, hnone, List.count_nil, List.replicate_zero, List.append_nil]

theorem grows_addCompound {network : Network} (hbuilt : network.BuiltIn) {shape : Compound}
    (hlt : ∀ operand ∈ shape.lengths, operand.index < network.lengths.size) :
    Grows network (network.addCompound shape).2
      (.compound shape (network.tallyOf shape.lengths)) := by
  have hadded : (network.add (.compound shape (network.tallyOf shape.lengths))).2.BuiltIn := by
    intro id formula hformula
    rw [formula?_add] at hformula
    split at hformula
    next => rw [← Option.some.inj hformula]; rfl
    next => exact hbuilt id formula hformula
  have hseats := seats_foldl _ (network.add (.compound shape (network.tallyOf shape.lengths))).1
    hadded (fun operand hoperand => by
      have hoperand' := hlt operand hoperand
      simp only [add, Array.size_push]
      omega)
  refine ⟨?_, hseats.journal, fun id => ?_, fun channel id => ?_⟩
  · exact hseats.size.trans (by simp [add])
  · exact (hseats.formula id).trans (formula?_add network id _)
  · exact (hseats.listeners channel id).trans (by rw [listeners_add_of_size]; rfl)

namespace Grows

variable {network after : Network} {formula : Formula}

theorem operandsAt_of_ne (hgrows : Grows network after formula) {id : LengthId}
    (hne : id ≠ ⟨network.lengths.size⟩) : after.operandsAt id = network.operandsAt id := by
  rw [operandsAt, hgrows.formula, if_neg hne, operandsAt]

theorem operandsAt_new (hgrows : Grows network after formula) :
    after.operandsAt ⟨network.lengths.size⟩ = formula.operands := by
  rw [operandsAt, hgrows.formula, if_pos rfl]
  rfl

theorem reads_of_ne (hgrows : Grows network after formula) {id : LengthId}
    (hne : id ≠ ⟨network.lengths.size⟩) : after.reads id = network.reads id := by
  rw [reads, hgrows.formula, if_neg hne, reads]

theorem builtIn (hgrows : Grows network after formula) (hbuilt : network.BuiltIn)
    (hformula : formula.isBuiltIn = true) : after.BuiltIn := by
  intro id other hother
  rw [hgrows.formula] at hother
  split at hother
  next =>
    rw [← Option.some.inj hother]
    exact hformula
  next => exact hbuilt id other hother

theorem ne_of_lt {id : LengthId} (hlt : id.index < network.lengths.size) :
    id ≠ ⟨network.lengths.size⟩ :=
  fun heq => Nat.ne_of_lt hlt (congrArg LengthId.index heq)

theorem unfolds (hgrows : Grows network after formula) (hbuilt : network.BuiltIn)
    (hbuilt' : after.BuiltIn) : Unfolds network after := by
  refine Aside.unfolds ⟨.of_journal hgrows.journal, fun id hlt => ?_, fun id hlt coordinate => ?_⟩
  · exact hgrows.operandsAt_of_ne (ne_of_lt hlt)
  · rw [hbuilt'.prerequisites, hbuilt.prerequisites, hgrows.reads_of_ne (ne_of_lt hlt)]

theorem older (hgrows : Grows network after formula) (holder : network.Older)
    (hoperands : ∀ operand ∈ formula.operands, operand.index < network.lengths.size) :
    after.Older := by
  intro upper lower hmem
  by_cases heq : upper = ⟨network.lengths.size⟩
  · rw [heq, hgrows.operandsAt_new] at hmem
    rw [heq]
    exact hoperands lower hmem
  · rw [hgrows.operandsAt_of_ne heq] at hmem
    exact holder upper lower hmem

theorem builtOf_iff (hgrows : Grows network after formula) (holder : network.Older)
    {upper lower : LengthId} (hlt : upper.index < network.lengths.size) :
    after.BuiltOf upper lower ↔ network.BuiltOf upper lower := by
  constructor
  · intro hpath
    induction hpath with
    | refl => exact .refl
    | tail _ hoperand ih =>
        have hbound := (holder.le_of_builtOf ih).trans_lt hlt
        rw [hgrows.operandsAt_of_ne (ne_of_lt hbound)] at hoperand
        exact ih.tail hoperand
  · intro hpath
    induction hpath with
    | refl => exact .refl
    | tail hbefore hoperand ih =>
        have hbound := (holder.le_of_builtOf hbefore).trans_lt hlt
        refine ih.tail ?_
        rwa [hgrows.operandsAt_of_ne (ne_of_lt hbound)]

section Sound

variable {audience larger : Audience} (hgrows : Grows network after formula)
  (hsound : network.Sound audience)
  (hheld : ∀ id, larger.includes (.operandOf id) = true →
    id = ⟨network.lengths.size⟩ ∨ audience.includes (.operandOf id) = true)
  (hoperands : ∀ operand ∈ formula.operands, operand.index < network.lengths.size)

include hgrows hsound

include hheld hoperands in
theorem laid (hbuilt : formula.isBuiltIn = true)
    (hclosed : ∀ upper lower, larger.includes (.operandOf upper) = true →
      lower ∈ after.operandsAt upper → larger.includes (.operandOf lower) = true) :
    after.Laid larger where
  builtIn := hgrows.builtIn hsound.laid.builtIn hbuilt
  older := hgrows.older hsound.laid.older hoperands
  closed := hclosed
  bounded compound hincluded := by
    rw [hgrows.size]
    rcases hheld compound hincluded with rfl | hincluded
    · exact Nat.lt_succ_self _
    · exact (hsound.laid.bounded compound hincluded).trans (Nat.lt_succ_self _)
  listed channel id compound hmem := by
    rw [hgrows.listeners, List.mem_append, List.mem_replicate] at hmem
    rw [hgrows.size]
    rcases hmem with hmem | ⟨_, heq⟩
    · exact (hsound.laid.listed channel id compound hmem).trans (Nat.lt_succ_self _)
    · rw [Listener.operandOf.inj heq]
      exact Nat.lt_succ_self _
  enrolled channel id compound hincluded := by
    rw [hgrows.listeners, List.count_append]
    by_cases heq : compound = ⟨network.lengths.size⟩
    · have hnone : (network.listeners channel id).count (.operandOf compound) = 0 := by
        rw [List.count_eq_zero, heq]
        exact fun hmem => Nat.lt_irrefl _ (hsound.laid.listed channel id _ hmem)
      rw [hnone, heq, List.count_replicate_self, hgrows.operandsAt_new, Nat.zero_add]
    · have hincluded := (hheld compound hincluded).resolve_left heq
      rw [hgrows.operandsAt_of_ne heq, hsound.laid.enrolled channel id compound hincluded,
        List.count_replicate, if_neg (by simp [Ne.symm heq]), Nat.add_zero]

theorem holders_of_lt {compound : LengthId} (hlt : compound.index < network.lengths.size)
    (coordinate : CoordinateId) :
    after.holders compound coordinate = network.holders compound coordinate := by
  rw [holders, holders, hgrows.operandsAt_of_ne (ne_of_lt hlt)]
  refine List.countP_congr fun operand hoperand => ?_
  have hless := hsound.laid.older compound operand hoperand
  rw [hgrows.reads_of_ne (ne_of_lt (hless.trans hlt))]

include hheld in
theorem ledger (hnodup : formula.prerequisites.Nodup)
    (hvalid : ∀ shape tally, formula = .compound shape tally → tally.Valid)
    (hbalanced : ∀ shape tally, formula = .compound shape tally → ∀ coordinate,
      tally.count coordinate = after.holders ⟨network.lengths.size⟩ coordinate) :
    Ledger after larger [] := by
  refine ⟨⟨fun id => ?_, fun id shape tally hformula => ?_, .nil, by simp, by simp⟩,
    fun compound hincluded shape tally hformula coordinate => ?_⟩
  · by_cases heq : id = ⟨network.lengths.size⟩
    · rw [reads, hgrows.formula, if_pos heq]
      exact hnodup
    · rw [hgrows.reads_of_ne heq]
      exact hsound.ledger.nodup id
  · rw [hgrows.formula] at hformula
    split at hformula
    next => exact hvalid shape tally (Option.some.inj hformula)
    next => exact hsound.ledger.valid id shape tally hformula
  · rw [hgrows.formula] at hformula
    split at hformula
    next heq =>
      rw [heq, ← hbalanced shape tally (Option.some.inj hformula) coordinate]
      exact Int.add_zero _
    next hne =>
      have hincluded := (hheld compound hincluded).resolve_left hne
      rw [hgrows.holders_of_lt hsound (hsound.laid.bounded compound hincluded)]
      exact hsound.ledger.balanced compound hincluded shape tally hformula coordinate

theorem spans (hbound : ∀ span, formula = .ancestorSpan span → span.IsBound) :
    ∀ id span, after.formula? id = some (.ancestorSpan span) → span.IsBound := by
  intro id span hspan
  rw [hgrows.formula] at hspan
  split at hspan
  next => exact hbound span (Option.some.inj hspan)
  next => exact hsound.spans id span hspan

end Sound

end Grows

/-! A sound network stays sound as it grows. -/

section Grown

variable {network : Network} {audience larger : Audience} (hsound : network.Sound audience)
  (hheld : ∀ id, larger.includes (.operandOf id) = true →
    id = ⟨network.lengths.size⟩ ∨ audience.includes (.operandOf id) = true)

include hsound hheld

theorem sound_add {formula : Formula} (hleaf : Leaf formula)
    (hclosed : ∀ upper lower, larger.includes (.operandOf upper) = true →
      lower ∈ (network.add formula).2.operandsAt upper →
        larger.includes (.operandOf lower) = true) :
    (network.add formula).2.Sound larger := by
  have hgrows := grows_add network hleaf.operands
  refine ⟨hgrows.laid hsound hheld (by simp [hleaf.operands]) hleaf.builtIn hclosed,
    hgrows.ledger hsound hheld hleaf.nodup (fun shape tally heq => ?_) (fun shape tally heq => ?_),
    hgrows.spans hsound hleaf.spans⟩
  · exact absurd heq (hleaf.simple shape tally)
  · exact absurd heq (hleaf.simple shape tally)

theorem sound_addCompound {shape : Compound}
    (hlt : ∀ operand ∈ shape.lengths, operand.index < network.lengths.size)
    (hclosed : ∀ upper lower, larger.includes (.operandOf upper) = true →
      lower ∈ (network.addCompound shape).2.operandsAt upper →
        larger.includes (.operandOf lower) = true) :
    (network.addCompound shape).2.Sound larger := by
  have hgrows := grows_addCompound hsound.laid.builtIn hlt
  have hvalid : (network.tallyOf shape.lengths).Valid :=
    valid_tallyOf shape.lengths PrerequisiteTally.Valid.empty
  refine ⟨hgrows.laid hsound hheld hlt rfl hclosed, hgrows.ledger hsound hheld hvalid.nodup
    (fun other tally heq => ?_) (fun other tally heq coordinate => ?_),
    hgrows.spans hsound nofun⟩
  · obtain ⟨rfl, rfl⟩ := Formula.compound.inj heq
    exact hvalid
  · obtain ⟨rfl, rfl⟩ := Formula.compound.inj heq
    rw [tallyOf, count_tallyOf hsound.laid.builtIn hsound.ledger.nodup, holders,
      hgrows.operandsAt_new]
    refine (Nat.zero_add _).trans (List.countP_congr fun operand hoperand => ?_)
    rw [hgrows.reads_of_ne (Grows.ne_of_lt (hlt operand hoperand))]

end Grown

/-! Where every network starts. -/

theorem listeners_eq_nil {network : Network}
    (hquiet : ∀ length ∈ network.lengths,
      length.invalidatedRoster = [] ∧ length.prerequisitesRoster = [])
    (channel : Channel) (id : LengthId) : network.listeners channel id = [] := by
  rw [listeners]
  cases hlength : network.lengths[id.index]? with
  | none => rfl
  | some length =>
      obtain ⟨hinvalidated, hprerequisites⟩ := hquiet length (Array.mem_of_getElem? hlength)
      cases channel with
      | invalidated => exact hinvalidated
      | prerequisites => exact hprerequisites

/-- Where all lengths are constants, nothing is built of anything and nothing is read. -/
theorem sound_of_constants {network : Network} {audience : Audience}
    (hconstant : ∀ length ∈ network.lengths, (∃ value, length.formula = .constant value) ∧
      length.invalidatedRoster = [] ∧ length.prerequisitesRoster = [])
    (hbounded : ∀ id, audience.includes (.operandOf id) = true →
      id.index < network.lengths.size) : network.Sound audience := by
  have hformula : ∀ id formula, network.formula? id = some formula →
      ∃ value, formula = .constant value := by
    intro id formula hformula
    obtain ⟨length, hlength, rfl⟩ := Option.map_eq_some_iff.mp hformula
    exact (hconstant length (Array.mem_of_getElem? hlength)).1
  have hcompound : ∀ id shape tally, network.formula? id ≠ some (.compound shape tally) := by
    intro id shape tally hfound
    obtain ⟨value, heq⟩ := hformula id _ hfound
    contradiction
  have hoperands : ∀ id, network.operandsAt id = [] := by
    intro id
    rw [operandsAt]
    cases hfound : network.formula? id with
    | none => rfl
    | some formula =>
        obtain ⟨value, rfl⟩ := hformula id formula hfound
        rfl
  have hreads : ∀ id, network.reads id = [] := by
    intro id
    rw [reads]
    cases hfound : network.formula? id with
    | none => rfl
    | some formula =>
        obtain ⟨value, rfl⟩ := hformula id formula hfound
        rfl
  have hquiet : ∀ channel id, network.listeners channel id = [] :=
    listeners_eq_nil fun length hlength => (hconstant length hlength).2
  have hlaid : network.Laid audience := {
    builtIn := fun id formula hfound => by
      obtain ⟨value, rfl⟩ := hformula id formula hfound
      rfl
    older := fun upper lower hmem => by simp [hoperands] at hmem
    closed := fun upper lower _ hmem => by simp [hoperands] at hmem
    bounded := hbounded
    listed := fun channel id compound hmem => by simp [hquiet] at hmem
    enrolled := fun channel id compound _ => by rw [hquiet, hoperands]; rfl }
  have hbooks : Books network audience [] := {
    nodup := fun id => hreads id ▸ List.nodup_nil
    valid := fun id shape tally hfound => absurd hfound (hcompound id shape tally)
    descending := .nil
    leads := by simp
    bounded := by simp }
  refine ⟨hlaid, ⟨hbooks, fun compound _ shape tally hfound => ?_⟩, fun id span hfound => ?_⟩
  · exact absurd hfound (hcompound compound shape tally)
  · obtain ⟨value, heq⟩ := hformula id _ hfound
    contradiction

end RegionLayout.Network
