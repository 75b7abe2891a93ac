import RegionLayout.Proofs.Tree.Positions

/-!
Siblings are looked up once. As long as a sibling length is part of no recipe but one, it reads
nothing until an action leaves it wired in below a parent. There it finds the cell before its
owner's, in the order in which that action left the children, and it reads that cell's edge ever
after.
-/

namespace RegionLayout

/-! Binding one sibling. -/

namespace Sibling

variable (own : Sibling) (owner : CoordinateId) (around : Surroundings)

theorem peer_boundFor_of_root (hroot : around.ancestors = []) :
    (own.boundFor owner around).peer = own.peer := by
  simp [boundFor, hroot]

theorem peer_boundFor_of_resolved (hresolved : own.peer.isResolved = true) :
    (own.boundFor owner around).peer = own.peer := by
  simp [boundFor, hresolved]

theorem peer_boundFor_of_unresolved (hbelow : around.ancestors ≠ [])
    (hpeer : own.peer = .unresolved) :
    (own.boundFor owner around).peer = own.lookUp owner around := by
  simp [boundFor, hbelow, hpeer, Peer.isResolved]

theorem coordinate?_lookUp : (own.lookUp owner around).coordinate? =
    around.previous.map (·.coordinate owner.axis own.edge) := by
  unfold lookUp
  cases around.previous <;> rfl

end Sibling

namespace RegionTree

open Network

variable {tree before after : RegionTree} {lower : LengthId} {owner : CoordinateId} {own : Sibling}
  {actions : List TreeAction}

/-! Where a sibling is looked up. -/

theorem Forest.ancestors_eq_nil_iff (hforest : tree.Forest) (id : CellId) :
    tree.ancestors id = [] ↔ tree.parent id = none := by
  rw [hforest.ancestors_eq]
  cases tree.parent id with
  | none => simp
  | some parent => simp

theorem Forest.exists_split (hforest : tree.Forest) {id parent : CellId}
    (hparent : tree.parent id = some parent) : ∃ front back,
      tree.children parent = front ++ id :: back ∧ tree.previousSibling id = front.getLast? := by
  obtain ⟨front, back, hsplit⟩ :=
    List.append_of_mem ((hforest.mem_children_iff parent id).mpr hparent)
  have hnodup := hforest.nodup parent
  rw [hsplit, List.nodup_middle, List.nodup_cons] at hnodup
  have hnew : id ∉ front := fun hmem => hnodup.1 (List.mem_append_left back hmem)
  have hindex : (front ++ id :: back).idxOf? id = some front.length := by
    refine List.idxOf?_eq_some_iff.mpr ⟨by simp, by simp, fun position hlt heq => hnew ?_⟩
    rw [← heq, List.getElem_append_left hlt]
    exact List.getElem_mem hlt
  refine ⟨front, back, hsplit, ?_⟩
  rw [previousSibling, hparent, Option.bind_some, hsplit, hindex]
  cases hlength : front.length with
  | zero => rw [List.length_eq_zero_iff.mp hlength, List.getLast?_nil]
  | succ position =>
      rw [List.getLast?_eq_getElem?, hlength, Nat.add_sub_cancel]
      exact List.getElem?_append_left (hlength ▸ Nat.lt_succ_self position)

/-! What one action does with a sibling. -/

/-- A length is part of the owner's recipe, and the owner's cell hangs from another. -/
structure Wired (tree : RegionTree) (lower : LengthId) (owner : CoordinateId) : Prop where
  part : tree.PartOf lower owner
  attached : (tree.parent owner.cell).isSome = true

/-- How a length fares in an action, if it is part of no recipe but the owner's. -/
inductive Meets (lower : LengthId) (owner : CoordinateId) (before after : RegionTree) : Prop where
  | kept (same : after.network.sibling? lower = before.network.sibling? lower)
      (wired : after.Wired lower owner → before.Wired lower owner)
  /-- Bound at the place that the owner has now. -/
  | bound (part : after.PartOf lower owner)
      (sibling : after.network.sibling? lower =
        (before.network.sibling? lower).map
          (·.boundFor owner (after.surroundings owner.cell)))
  | made (fresh : before.network.lengths.size ≤ lower.index)
      (unresolved : ∀ own, after.network.sibling? lower = some own → own.peer = .unresolved)
      (loose : ¬ after.PartOf lower owner)

theorem Rebinding.sibling? {owners : CoordinateId → Prop}
    (hrebinding : Rebinding owners before after) (hrooted : before.Rooted)
    (hsole : ∀ other, before.PartOf lower other → other = owner) :
    (owners owner ∧ before.PartOf lower owner ∧ after.network.sibling? lower =
      (before.network.sibling? lower).map (·.boundFor owner (before.surroundings owner.cell))) ∨
    (owners owner → ¬ before.PartOf lower owner) ∧
      after.network.sibling? lower = before.network.sibling? lower := by
  by_cases hbound : owners owner ∧ before.PartOf lower owner
  · obtain ⟨howner, hpart⟩ := hbound
    exact .inl ⟨howner, hpart,
      sibling?_of_bound (hrebinding.bound hrooted lower owner howner hpart hsole)⟩
  · refine .inr ⟨not_and.mp hbound, (hrebinding.others hrooted lower ?_).sibling?_eq⟩
    intro other hother hpart
    obtain rfl := hsole other hpart
    exact hbound ⟨hother, hpart⟩

theorem Alters.size_le (halters : Alters before after) :
    before.network.lengths.size ≤ after.network.lengths.size := by
  cases halters with
  | rests _ _ hrests _ => exact hrests.size.ge
  | grows _ hgrows _ =>
      rw [hgrows.size]
      exact Nat.le_succ _
  | reseats hrecounts hrebinding _ _ hsteady =>
      rw [hsteady.lengths, hrebinding.sameReach.size, hrecounts.size]

/-- A length that is part of one recipe at most is bound nowhere but at its owner's place. -/
theorem Alters.meets (halters : Alters before after) (hrooted : before.Rooted)
    (hrooted' : after.Rooted) (hforest : before.Forest) (hforest' : after.Forest)
    (hsole : ∀ other, after.PartOf lower other → other = owner) :
    Meets lower owner before after := by
  cases halters with
  | rests hlinks hrecipes hrests hsiblings =>
      refine .kept (hsiblings lower) fun hwired => ⟨?_, ?_⟩
      · exact (partOf_congr (hrecipes owner) hrests.toSameReach).mp hwired.part
      · exact hlinks.parent owner.cell ▸ hwired.attached
  | @grows formula hcells hgrows hunplaced =>
      have hparts : after.PartOf lower owner ↔ before.PartOf lower owner :=
        hrooted.partOf_grows hcells hgrows
      by_cases hnew : lower = ⟨before.network.lengths.size⟩
      · refine .made (by rw [hnew]) (fun own hown => hunplaced.peer own ?_) fun hpart => ?_
        · rwa [Network.sibling?, hgrows.formula, if_pos hnew] at hown
        · exact Grows.ne_of_lt (hrooted.lt_of_partOf (hparts.mp hpart)) hnew
      · refine .kept ?_ fun hwired => ⟨hparts.mp hwired.part, ?_⟩
        · rw [Network.sibling?, hgrows.formula, if_neg hnew, Network.sibling?]
        · exact (SameLinks.of_cells hcells).parent owner.cell ▸ hwired.attached
  | @reseats owners disturbed bound hrecounts hrebinding hothers hlinks hsteady =>
      have hvalues := (Rests.of_lengths hsteady.lengths).toSameReach
      have hsame := hrebinding.sameReach.trans hvalues
      have hrecipes : ∀ other, after.recipe? other = disturbed.recipe? other := fun other =>
        (hsteady.recipe? other).trans (recipe?_congr hrebinding.cells other)
      have hparts : ∀ other, after.PartOf lower other ↔ disturbed.PartOf lower other :=
        fun other => partOf_congr (hrecipes other) hsame
      have hsibling : after.network.sibling? lower = bound.network.sibling? lower := by
        rw [Network.sibling?, hsteady.formula?, Network.sibling?]
      have hsibling' : disturbed.network.sibling? lower = before.network.sibling? lower :=
        (hrecounts.formula lower).sibling?_eq
      rcases hrebinding.sibling? (hrooted'.congr (fun other => (hrecipes other).symm) hsame.symm)
        (fun other hpart => hsole other ((hparts other).mpr hpart))
        with ⟨_, hpart, hbound⟩ | ⟨hout, hkept⟩
      · refine .bound ((hparts owner).mpr hpart) ?_
        rw [hsibling, hbound, hsibling', hlinks.surroundings, surroundings_congr hrebinding.cells]
      · refine .kept (by rw [hsibling, hkept, hsibling']) fun hwired => ?_
        -- What is wired in and was not bound anew was wired in before.
        have hsame' := hrecounts.rests.toSameReach.trans hsame
        have hundisturbed := hothers owner fun howner => hout howner ((hparts owner).mp hwired.part)
        refine ⟨(partOf_congr ?_ hsame').mp hwired.part, ?_⟩
        · exact (hsteady.recipe? owner).trans hundisturbed.recipe
        · have hattached := hlinks.parent owner.cell ▸ hwired.attached
          rw [Option.isSome_iff_ne_none, Ne, ← hforest.ancestors_eq_nil_iff]
          rw [Option.isSome_iff_ne_none, Ne,
            ← (hforest'.sameLinks hlinks.symm).ancestors_eq_nil_iff] at hattached
          rwa [← hundisturbed.ancestors]

theorem Meets.exists_before (hmeets : Meets lower owner before after)
    (hold : lower.index < before.network.lengths.size)
    (hsibling : after.network.sibling? lower = some own) :
    ∃ there, before.network.sibling? lower = some there ∧ there.edge = own.edge := by
  cases hmeets with
  | kept hsame _ => exact ⟨own, hsame ▸ hsibling, rfl⟩
  | bound _ hbound =>
      rw [hbound, Option.map_eq_some_iff] at hsibling
      obtain ⟨there, hthere, rfl⟩ := hsibling
      exact ⟨there, hthere, rfl⟩
  | made hfresh _ _ => exact absurd hold (Nat.not_lt.mpr hfresh)

/-! Runs. -/

/-- Throughout some actions, a length is part of the owner's recipe, if of any, and lengths are
bound by edits alone. -/
structure Exclusive (lower : LengthId) (owner : CoordinateId) (actions : List TreeAction) :
    Prop where
  direct : ∀ name other, .bind name other ∉ actions
  sole : ∀ earlier, earlier <+: actions → ∀ other, (acted earlier).PartOf lower other →
    other = owner

/-- These actions leave a length wired in for the first time. -/
structure FirstWired (lower : LengthId) (owner : CoordinateId) (actions : List TreeAction) :
    Prop where
  wired : (acted actions).Wired lower owner
  first : ∀ earlier, earlier <+: actions → (acted earlier).Wired lower owner → earlier = actions

/-- These actions never left a length wired in. -/
def Unwired (lower : LengthId) (owner : CoordinateId) (actions : List TreeAction) : Prop :=
  ∀ earlier, earlier <+: actions → ¬ (acted earlier).Wired lower owner

/-- The peer is still to be found, or is what was found when there was first a place to look. -/
inductive Sought (lower : LengthId) (owner : CoordinateId) (actions : List TreeAction)
    (own : Sibling) : Prop where
  | unresolved (peer : own.peer = .unresolved) (unwired : Unwired lower owner actions)
  | found {first : List TreeAction} (reached : first <+: actions)
      (wired : FirstWired lower owner first)
      (peer : own.peer = own.lookUp owner ((acted first).surroundings owner.cell))

theorem FirstWired.unique {first second : List TreeAction} (hfirst : FirstWired lower owner first)
    (hsecond : FirstWired lower owner second) (hreached : first <+: actions)
    (hreached' : second <+: actions) : first = second := by
  rcases List.prefix_or_prefix_of_prefix hreached hreached' with hbefore | hbefore
  · exact hsecond.first first hbefore hfirst.wired
  · exact (hfirst.first second hbefore hsecond.wired).symm

section Snoc

variable {action : TreeAction}

theorem Unwired.snoc (hunwired : Unwired lower owner actions)
    (hnow : ¬ (acted (actions ++ [action])).Wired lower owner) :
    Unwired lower owner (actions ++ [action]) := by
  intro earlier hearlier
  rcases List.prefix_concat_iff.mp hearlier with rfl | hearlier
  · exact hnow
  · exact hunwired earlier hearlier

theorem Unwired.firstWired (hunwired : Unwired lower owner actions)
    (hwired : (acted (actions ++ [action])).Wired lower owner) :
    FirstWired lower owner (actions ++ [action]) where
  wired := hwired
  first earlier hearlier hwired' := by
    rcases List.prefix_concat_iff.mp hearlier with heq | hearlier
    · exact heq
    · exact absurd hwired' (hunwired earlier hearlier)

theorem Sought.kept (hsought : Sought lower owner actions own)
    (hwired : (acted (actions ++ [action])).Wired lower owner → (acted actions).Wired lower owner) :
    Sought lower owner (actions ++ [action]) own := by
  cases hsought with
  | unresolved hpeer hunwired =>
      exact .unresolved hpeer (hunwired.snoc (hunwired actions List.prefix_rfl ∘ hwired))
  | found hreached hfirst hpeer =>
      exact .found (hreached.trans (List.prefix_append actions [action])) hfirst hpeer

/-- Binding finds a peer that is still sought, if the owner's cell hangs from another. -/
theorem Sought.bound (hsought : Sought lower owner actions own)
    (hpart : (acted (actions ++ [action])).PartOf lower owner) :
    Sought lower owner (actions ++ [action])
      (own.boundFor owner ((acted (actions ++ [action])).surroundings owner.cell)) := by
  have hroot := (forest_acted (actions ++ [action])).ancestors_eq_nil_iff owner.cell
  cases hsought with
  | unresolved hpeer hunwired =>
      cases hparent : (acted (actions ++ [action])).parent owner.cell with
      | none =>
          refine .unresolved ?_ (hunwired.snoc fun hwired => ?_)
          · exact (own.peer_boundFor_of_root owner _ (hroot.mpr hparent)).trans hpeer
          · exact absurd (hparent ▸ hwired.attached) nofun
      | some parent =>
          have hbelow : (acted (actions ++ [action])).ancestors owner.cell ≠ [] := fun hnil =>
            absurd (hparent.symm.trans (hroot.mp hnil)) nofun
          refine .found List.prefix_rfl
            (hunwired.firstWired ⟨hpart, Option.isSome_of_eq_some hparent⟩) ?_
          exact own.peer_boundFor_of_unresolved owner _ hbelow hpeer
  | found hreached hfirst hpeer =>
      have hresolved : own.peer.isResolved = true := hpeer ▸ own.isResolved_lookUp owner _
      exact .found (hreached.trans (List.prefix_append actions [action])) hfirst
        ((own.peer_boundFor_of_resolved owner _ hresolved).trans hpeer)

end Snoc

namespace Exclusive

theorem earlier {earlier : List TreeAction} (hexclusive : Exclusive lower owner actions)
    (hearlier : earlier <+: actions) : Exclusive lower owner earlier where
  direct name other hmem := hexclusive.direct name other (hearlier.subset hmem)
  sole start hstart := hexclusive.sole start (hstart.trans hearlier)

theorem step {earlier : List TreeAction} {action : TreeAction}
    (hexclusive : Exclusive lower owner (earlier ++ [action])) :
    Alters (acted earlier) (acted (earlier ++ [action])) ∧
      Meets lower owner (acted earlier) (acted (earlier ++ [action])) := by
  have halters : Alters (acted earlier) (acted (earlier ++ [action])) := by
    rw [acted_snoc]
    refine alters_act (Sound.acted earlier) (forest_acted earlier) fun name other heq => ?_
    exact hexclusive.direct name other
      (List.mem_append_right _ (heq ▸ List.mem_singleton_self action))
  exact ⟨halters, halters.meets (Sound.acted earlier).rooted (Sound.acted _).rooted
    (forest_acted earlier) (forest_acted _) (hexclusive.sole _ List.prefix_rfl)⟩

theorem size_le {earlier : List TreeAction} (hexclusive : Exclusive lower owner actions)
    (hearlier : earlier <+: actions) :
    (acted earlier).network.lengths.size ≤ (acted actions).network.lengths.size := by
  induction actions using List.reverseRecOn with
  | nil =>
      rw [List.prefix_nil.mp hearlier]
  | append_singleton start action ih =>
      rcases List.prefix_concat_iff.mp hearlier with rfl | hstart
      · exact Nat.le_refl _
      · exact (ih (hexclusive.earlier (List.prefix_append _ _)) hstart).trans
          hexclusive.step.1.size_le

theorem exists_earlier {earlier : List TreeAction} (hexclusive : Exclusive lower owner actions)
    (hearlier : earlier <+: actions) (hold : lower.index < (acted earlier).network.lengths.size)
    (hsibling : (acted actions).network.sibling? lower = some own) :
    ∃ there, (acted earlier).network.sibling? lower = some there ∧ there.edge = own.edge := by
  induction actions using List.reverseRecOn generalizing own with
  | nil =>
      rw [List.prefix_nil.mp hearlier]
      exact ⟨own, hsibling, rfl⟩
  | append_singleton start action ih =>
      rcases List.prefix_concat_iff.mp hearlier with rfl | hstart
      · exact ⟨own, hsibling, rfl⟩
      · have hbefore := hexclusive.earlier (List.prefix_append start [action])
        obtain ⟨there, hthere, hedge⟩ := hexclusive.step.2.exists_before
          (hold.trans_le (hbefore.size_le hstart)) hsibling
        obtain ⟨origin, horigin, hedge'⟩ := ih hbefore hstart hthere
        exact ⟨origin, horigin, hedge'.trans hedge⟩

theorem sought (hexclusive : Exclusive lower owner actions)
    (hsibling : (acted actions).network.sibling? lower = some own) :
    Sought lower owner actions own := by
  induction actions using List.reverseRecOn generalizing own with
  | nil => exact absurd hsibling nofun
  | append_singleton start action ih =>
      have hbefore := hexclusive.earlier (List.prefix_append start [action])
      cases hexclusive.step.2 with
      | kept hsame hwired => exact (ih hbefore (hsame ▸ hsibling)).kept hwired
      | bound hpart hbound =>
          rw [hbound, Option.map_eq_some_iff] at hsibling
          obtain ⟨there, hthere, rfl⟩ := hsibling
          exact (ih hbefore hthere).bound hpart
      | made hfresh hunresolved hloose =>
          -- What is part of a recipe exists, and this length did not before.
          have hunwired : Unwired lower owner start := fun earlier hearlier hwired => by
            have hlt := (Sound.acted earlier).rooted.lt_of_partOf hwired.part
            exact absurd (hlt.trans_le (hbefore.size_le hearlier)) (Nat.not_lt.mpr hfresh)
          exact .unresolved (hunresolved own hsibling) (hunwired.snoc (hloose ·.part))

end Exclusive

theorem prerequisites_sibling (actions : List TreeAction)
    (hsibling : (acted actions).network.formula? lower = some (.sibling own)) :
    (acted actions).network.prerequisites lower = own.peer.coordinate?.toList := by
  rw [(Sound.acted actions).network.laid.builtIn.prerequisites, reads, hsibling]
  rfl

/-- Whatever is done to a tree of cells: a sibling length that was never part of more than one
recipe, and never bound but by edits, reads nothing as long as it was never wired in below a parent.
After the first action that leaves it so, and after every later one, it reads the edge of the child
that was before its owner's cell then, or nothing if that was the first child. -/
theorem sibling_resolved_once (hexclusive : Exclusive lower owner actions)
    (hsibling : (acted actions).network.formula? lower = some (.sibling own)) :
    (Unwired lower owner actions →
      own.peer.coordinate? = none ∧ (acted actions).network.prerequisites lower = []) ∧
    ∀ first, first <+: actions → FirstWired lower owner first →
      ∃ parent front back, (acted first).parent owner.cell = some parent ∧
        (acted first).children parent = front ++ owner.cell :: back ∧
        ∀ later, first <+: later → later <+: actions →
          ∃ there, (acted later).network.formula? lower = some (.sibling there) ∧
            there.edge = own.edge ∧
            there.peer.coordinate? = front.getLast?.map (·.coordinate owner.axis own.edge) ∧
            (acted later).network.prerequisites lower = there.peer.coordinate?.toList := by
  rw [← sibling?_eq_some] at hsibling
  refine ⟨fun hunwired => ?_, fun first hreached hwired => ?_⟩
  · cases hexclusive.sought hsibling with
    | unresolved hpeer _ =>
        rw [prerequisites_sibling actions (sibling?_eq_some.mp hsibling), hpeer]
        exact ⟨rfl, rfl⟩
    | found hreached hwired _ => exact absurd hwired.wired (hunwired _ hreached)
  · obtain ⟨parent, hparent⟩ := Option.isSome_iff_exists.mp hwired.wired.attached
    obtain ⟨front, back, hsplit, hprevious⟩ := (forest_acted first).exists_split hparent
    refine ⟨parent, front, back, hparent, hsplit, fun later hlater hdone => ?_⟩
    have hexclusive' := hexclusive.earlier hdone
    have hold := ((Sound.acted first).rooted.lt_of_partOf hwired.wired.part).trans_le
      (hexclusive'.size_le hlater)
    obtain ⟨there, hthere, hedge⟩ := hexclusive.exists_earlier hdone hold hsibling
    have hformula := sibling?_eq_some.mp hthere
    refine ⟨there, hformula, hedge, ?_, prerequisites_sibling later hformula⟩
    cases hexclusive'.sought hthere with
    | unresolved _ hunwired => exact absurd hwired.wired (hunwired first hlater)
    | found hother hwired' hpeer =>
        obtain rfl := hwired.unique hwired' hlater hother
        rw [hpeer, there.coordinate?_lookUp, hedge, ← hprevious]
        rfl

/-! Whether a length is wired in can be computed. -/

def isWired (tree : RegionTree) (lower : LengthId) (owner : CoordinateId) : Bool :=
  (tree.sharers lower.index).contains owner && (tree.parent owner.cell).isSome

theorem Sound.isWired_iff (hsound : tree.Sound) :
    tree.isWired lower owner = true ↔ tree.Wired lower owner := by
  rw [isWired, Bool.and_eq_true, List.contains_iff_mem, hsound.mem_sharers]
  exact ⟨fun ⟨hpart, hattached⟩ => ⟨hpart, hattached⟩, fun ⟨hpart, hattached⟩ => ⟨hpart, hattached⟩⟩

theorem exclusive_of_sharers (hdirect : ∀ name other, .bind name other ∉ actions)
    (hsharers : (actions.inits.all fun earlier =>
      ((acted earlier).sharers lower.index).all (· == owner)) = true) :
    Exclusive lower owner actions where
  direct := hdirect
  sole earlier hearlier other hpart := by
    have hall := List.all_eq_true.mp hsharers earlier ((List.mem_inits _ _).mpr hearlier)
    exact eq_of_beq
      (List.all_eq_true.mp hall other (((Sound.acted earlier).mem_sharers _ _).mpr hpart))

theorem firstWired_of_isWired (hwired : (acted actions).isWired lower owner = true)
    (hfirst : (actions.inits.all fun earlier => !(acted earlier).isWired lower owner ||
      earlier.length == actions.length) = true) : FirstWired lower owner actions where
  wired := (Sound.acted actions).isWired_iff.mp hwired
  first earlier hearlier hwired' := by
    have hone := List.all_eq_true.mp hfirst earlier ((List.mem_inits _ _).mpr hearlier)
    rw [(Sound.acted earlier).isWired_iff.mpr hwired'] at hone
    exact hearlier.eq_of_length (eq_of_beq hone)

/-- Two cells, the second of which starts in terms of where the sibling before it ends. -/
def pair : List TreeAction :=
  [.edit (.make "zero" (.constant 0.0)), .edit (.make "next" (.sibling .beta true 0.0)),
    .edit (.make "start" (.binary .add "next" "zero")),
    .edit (.createRoot ⟨"zero", "zero", "zero", "zero"⟩),
    .edit (.createCell ⟨"zero", "zero", "zero", "zero"⟩),
    .edit (.createCell ⟨"start", "zero", "zero", "zero"⟩), .edit (.append ⟨0⟩ ⟨1⟩)]

/-- The second joins the first, is moved below it, and is carried off with it. -/
def pairMoved : List TreeAction :=
  [.edit (.append ⟨0⟩ ⟨2⟩), .edit (.insert ⟨1⟩ ⟨2⟩ 0), .edit (.remove ⟨0⟩ ⟨1⟩)]

theorem pairMoved_reads : (acted pair).network.prerequisites ⟨1⟩ = [] ∧
    (acted (pair ++ pairMoved)).network.prerequisites ⟨1⟩ = [⟨⟨1⟩, .x, .beta⟩] := by
  have hexclusive : Exclusive ⟨1⟩ ⟨⟨2⟩, .x, .alpha⟩ (pair ++ pairMoved) :=
    exclusive_of_sharers (by simp [pair, pairMoved]) (by decide +kernel)
  have hkind : ((acted (pair ++ pairMoved)).network.sibling? ⟨1⟩).map (·.edge) = some .beta ∧
      ((acted pair).network.sibling? ⟨1⟩).isSome = true := by decide +kernel
  have hnever : (pair.inits.all fun earlier =>
      !(acted earlier).isWired ⟨1⟩ ⟨⟨2⟩, .x, .alpha⟩) = true := by decide +kernel
  have hfirst : FirstWired ⟨1⟩ ⟨⟨2⟩, .x, .alpha⟩ (pair ++ pairMoved.take 1) :=
    firstWired_of_isWired (by decide +kernel) (by decide +kernel)
  have hplace : (acted (pair ++ pairMoved.take 1)).parent ⟨2⟩ = some ⟨0⟩ ∧
      (acted (pair ++ pairMoved.take 1)).children ⟨0⟩ = [⟨1⟩, ⟨2⟩] := by decide +kernel
  obtain ⟨⟨own, hown, hedge⟩, hsome⟩ := hkind.imp_left Option.map_eq_some_iff.mp
  obtain ⟨there, hthere⟩ := Option.isSome_iff_exists.mp hsome
  constructor
  · refine ((sibling_resolved_once (hexclusive.earlier (List.prefix_append _ _))
      (sibling?_eq_some.mp hthere)).1 fun earlier hearlier hwired => ?_).2
    have hone := List.all_eq_true.mp hnever earlier ((List.mem_inits _ _).mpr hearlier)
    rw [(Sound.acted earlier).isWired_iff.mpr hwired] at hone
    exact absurd hone nofun
  · have hreached : pair ++ pairMoved.take 1 <+: pair ++ pairMoved :=
      (List.prefix_append_right_inj pair).mpr (List.take_prefix 1 pairMoved)
    obtain ⟨parent, front, back, hparent, hsplit, hlater⟩ :=
      (sibling_resolved_once hexclusive (sibling?_eq_some.mp hown)).2 _ hreached hfirst
    obtain ⟨last, _, _, hpeer, hreads⟩ := hlater _ hreached List.prefix_rfl
    obtain rfl := Option.some.inj (hparent.symm.trans hplace.1)
    have hfront : front = [⟨1⟩] := by
      rw [hplace.2] at hsplit
      rcases front with _ | ⟨first, _ | ⟨second, rest⟩⟩ <;> simp_all
    rw [hreads, hpeer, hfront, hedge]
    rfl

end RegionTree

end RegionLayout
