import Mathlib.Data.List.Induction
import Mathlib.Logic.Function.Basic
import RegionLayout.Proofs.Prerequisite.Tally

/-!
Rolls of prerequisites. `Roll` holds a tally as a machine keeps it: the counts of holders in one
book, the order of the members in another, and a count is taken down only where there is one. No
change takes zero down, both books name the same members, and they are those of the tally.
-/

namespace RegionLayout

structure Roll where
  /-- How many operands hold a coordinate, if it has an entry. -/
  counts : CoordinateId → Option Nat
  order : List CoordinateId

namespace Roll

open PrerequisiteTally

def empty : Roll := ⟨fun _ => none, []⟩

/-! One holder more or less. Taking zero down has no result. -/

def acquire (roll : Roll) (id : CoordinateId) : Bool × Roll :=
  let count := (roll.counts id).getD 0 + 1
  let counts := Function.update roll.counts id (some count)
  if count = 1 then (true, ⟨counts, roll.order ++ [id]⟩) else (false, ⟨counts, roll.order⟩)

def release (roll : Roll) (id : CoordinateId) : Option (Bool × Roll) :=
  match roll.counts id with
  | none => some (false, roll)
  | some 0 => none
  | some (left + 1) =>
    if left = 0 then
      some (true, ⟨Function.update roll.counts id none, roll.order.filter (· != id)⟩)
    else some (false, ⟨Function.update roll.counts id (some left), roll.order⟩)

/-! Whole changes, and many of them. -/

def acquireAll : List CoordinateId → Roll → List CoordinateId × Roll
  | [], roll => ([], roll)
  | id :: rest, roll =>
    let (entered, roll) := roll.acquire id
    let (visible, roll) := acquireAll rest roll
    (if entered then id :: visible else visible, roll)

def releaseAll : List CoordinateId → Roll → Option (List CoordinateId × Roll)
  | [], roll => some ([], roll)
  | id :: rest, roll => do
    let (left, roll) ← roll.release id
    let (visible, roll) ← releaseAll rest roll
    return (if left then id :: visible else visible, roll)

/-- Takes up one operand's change, its removals first, and returns the visible part. -/
def absorb (roll : Roll) (change : PrerequisiteChange) : Option (PrerequisiteChange × Roll) := do
  let (removed, roll) ← releaseAll change.removed roll
  let (added, roll) := acquireAll change.added roll
  return (⟨added, removed⟩, roll)

def after (changes : List PrerequisiteChange) : Option Roll :=
  changes.foldlM (fun roll change => (roll.absorb change).map (·.2)) empty

/-! A roll beside the tally of the same holders. -/

/-- The entry of a coordinate that so many operands hold. -/
def entry : Nat → Option Nat
  | 0 => none
  | count + 1 => some (count + 1)

@[simp] theorem getD_entry (count : Nat) : (entry count).getD 0 = count := by
  cases count <;> rfl

structure Mirrors (roll : Roll) (tally : PrerequisiteTally) : Prop where
  valid : tally.Valid
  order : roll.order = tally.members
  counts : ∀ id, roll.counts id = entry (tally.count id)

variable {roll : Roll} {tally : PrerequisiteTally} {id : CoordinateId}

theorem mirrors_empty : empty.Mirrors .empty :=
  ⟨.empty, rfl, fun _ => rfl⟩

namespace Mirrors

theorem getD_counts (hmirrors : roll.Mirrors tally) (id : CoordinateId) :
    (roll.counts id).getD 0 = tally.count id := by
  rw [hmirrors.counts, getD_entry]

theorem mem_order_iff (hmirrors : roll.Mirrors tally) :
    id ∈ roll.order ↔ (roll.counts id).isSome = true := by
  rw [hmirrors.order, hmirrors.valid.mem_members_iff, hmirrors.counts]
  cases tally.count id <;> simp [entry]

theorem pos_of_counts (hmirrors : roll.Mirrors tally) {count : Nat}
    (hcount : roll.counts id = some count) : 1 ≤ count := by
  have hmem := hmirrors.mem_order_iff.mpr (Option.isSome_of_eq_some hcount)
  rwa [hmirrors.order, hmirrors.valid.mem_members_iff, ← hmirrors.getD_counts, hcount] at hmem

/-- One entry changes as the tally's count does. -/
theorem counts_update (hmirrors : roll.Mirrors tally) (id : CoordinateId)
    (next : PrerequisiteTally) (hsame : ∀ other, other ≠ id → next.count other = tally.count other)
    (other : CoordinateId) :
    Function.update roll.counts id (entry (next.count id)) other = entry (next.count other) := by
  by_cases heq : other = id
  · subst heq
    apply Function.update_self
  · rw [Function.update_of_ne heq, hmirrors.counts, hsame other heq]

theorem acquire (hmirrors : roll.Mirrors tally) (id : CoordinateId) :
    (roll.acquire id).1 = (tally.acquire id).1 ∧
      (roll.acquire id).2.Mirrors (tally.acquire id).2 := by
  have hcount : (tally.acquire id).2.count id = tally.count id + 1 := by
    rw [count_acquire, if_pos rfl]
  have hcounts := hmirrors.counts_update id (tally.acquire id).2
    fun other hne => by rw [count_acquire, if_neg hne, Nat.add_zero]
  have hentered : (tally.acquire id).1 = true ↔ tally.count id + 1 = 1 := by
    rw [fst_acquire, Nat.add_eq_right, hmirrors.valid.count_eq_zero_iff]
  rw [hcount, entry] at hcounts
  unfold Roll.acquire
  rw [hmirrors.getD_counts]
  dsimp only
  split
  next hfirst =>
    have hflag := hentered.mpr hfirst
    refine ⟨hflag.symm, hmirrors.valid.acquire, ?_, hcounts⟩
    rw [members_acquire, hflag, if_pos rfl, hmirrors.order]
  next hmore =>
    have hflag := Bool.eq_false_iff.mpr (mt hentered.mp hmore)
    refine ⟨hflag.symm, hmirrors.valid.acquire, ?_, hcounts⟩
    rw [members_acquire, hflag, if_neg Bool.false_ne_true, List.append_nil, hmirrors.order]

/-- There is no entry of zero to take down. -/
theorem exists_release (hmirrors : roll.Mirrors tally) (id : CoordinateId) :
    ∃ next, roll.release id = some ((tally.release id).1, next) ∧
      next.Mirrors (tally.release id).2 := by
  have hcount : (tally.release id).2.count id = tally.count id - 1 := by
    rw [count_release, if_pos rfl]
  have hcounts := hmirrors.counts_update id (tally.release id).2
    fun other hne => by rw [count_release, if_neg hne, Nat.sub_zero]
  have horder := members_release tally id
  have hleft : (tally.release id).1 = true ↔ tally.count id = 1 := fst_release hmirrors.valid
  rw [hcount] at hcounts
  unfold Roll.release
  rw [hmirrors.counts]
  cases hheld : tally.count id with
  | zero =>
      have hflag : (tally.release id).1 = false := Bool.eq_false_iff.mpr (by simp [hleft, hheld])
      have hnew := hmirrors.valid.count_eq_zero_iff.mp hheld
      have hsame : (tally.release id).2 = tally := by simp [PrerequisiteTally.release, hnew]
      rw [hflag, hsame]
      exact ⟨roll, rfl, hmirrors⟩
  | succ left =>
      rw [hheld, Nat.add_sub_cancel] at hcounts
      cases left with
      | zero =>
          have hflag := hleft.mpr hheld
          simp only [hflag, Bool.true_and, ← hmirrors.order] at horder
          rw [hflag]
          exact ⟨_, rfl, hmirrors.valid.release, horder.symm, hcounts⟩
      | succ left =>
          have hflag : (tally.release id).1 = false :=
            Bool.eq_false_iff.mpr (by simp [hleft, hheld])
          simp only [hflag, Bool.false_and, Bool.not_false, List.filter_true] at horder
          rw [hflag]
          exact ⟨_, rfl, hmirrors.valid.release, hmirrors.order.trans horder.symm, hcounts⟩

theorem acquireAll (hmirrors : roll.Mirrors tally) (ids : List CoordinateId) :
    (Roll.acquireAll ids roll).1 = (PrerequisiteTally.acquireAll ids tally).1 ∧
      (Roll.acquireAll ids roll).2.Mirrors (PrerequisiteTally.acquireAll ids tally).2 := by
  induction ids generalizing roll tally with
  | nil => exact ⟨rfl, hmirrors⟩
  | cons first rest ih =>
      obtain ⟨hflag, hnext⟩ := hmirrors.acquire first
      obtain ⟨hvisible, hlast⟩ := ih hnext
      simp only [Roll.acquireAll, PrerequisiteTally.acquireAll, hflag, hvisible]
      exact ⟨trivial, hlast⟩

theorem exists_releaseAll (hmirrors : roll.Mirrors tally) (ids : List CoordinateId) :
    ∃ next, Roll.releaseAll ids roll = some ((PrerequisiteTally.releaseAll ids tally).1, next) ∧
      next.Mirrors (PrerequisiteTally.releaseAll ids tally).2 := by
  induction ids generalizing roll tally with
  | nil => exact ⟨roll, rfl, hmirrors⟩
  | cons first rest ih =>
      obtain ⟨middle, hfirst, hmiddle⟩ := hmirrors.exists_release first
      obtain ⟨next, hrest, hnext⟩ := ih hmiddle
      refine ⟨next, ?_, hnext⟩
      simp only [Roll.releaseAll, hfirst, hrest, PrerequisiteTally.releaseAll, Option.bind_eq_bind,
        Option.bind_some, Option.pure_def]

theorem exists_absorb (hmirrors : roll.Mirrors tally) (change : PrerequisiteChange) :
    ∃ next, roll.absorb change = some ((tally.apply change).1, next) ∧
      next.Mirrors (tally.apply change).2 := by
  obtain ⟨middle, hreleased, hmiddle⟩ := hmirrors.exists_releaseAll change.removed
  obtain ⟨hadded, hnext⟩ := hmiddle.acquireAll change.added
  refine ⟨_, ?_, hnext⟩
  simp only [absorb, hreleased, hadded, apply, Option.bind_eq_bind, Option.bind_some,
    Option.pure_def]

end Mirrors

theorem after_snoc (changes : List PrerequisiteChange) (change : PrerequisiteChange) :
    after (changes ++ [change]) =
      (after changes).bind fun roll => (roll.absorb change).map (·.2) := by
  rw [after, List.foldlM_append, ← after]
  exact Option.bind_congr fun roll _ => List.foldlM_cons.trans (bind_pure _)

/-- The tally after some changes, starting from none. -/
def tallied (changes : List PrerequisiteChange) : PrerequisiteTally :=
  changes.foldl (fun tally change => (tally.apply change).2) .empty

theorem exists_after (changes : List PrerequisiteChange) :
    ∃ roll, after changes = some roll ∧ roll.Mirrors (tallied changes) := by
  induction changes using List.reverseRecOn with
  | nil => exact ⟨empty, rfl, mirrors_empty⟩
  | append_singleton changes change ih =>
      obtain ⟨roll, hroll, hmirrors⟩ := ih
      obtain ⟨next, habsorbed, hnext⟩ := hmirrors.exists_absorb change
      refine ⟨next, ?_, ?_⟩
      · rw [after_snoc, hroll, Option.bind_some, habsorbed, Option.map_some]
      · rwa [tallied, List.foldl_append, List.foldl_cons, List.foldl_nil, ← tallied]

/-- Whatever changes are taken up, no zero is taken down, and the two books agree with each other
and with the tally. One more change shows as much as the tally shows of it: it takes out of the
order what it visibly removes, puts what it visibly adds at its end, and counts every mention. -/
theorem books_agree (changes : List PrerequisiteChange) :
    ∃ roll, after changes = some roll ∧ roll.order.Nodup ∧
      (∀ id, id ∈ roll.order ↔ (roll.counts id).isSome = true) ∧
      (∀ id count, roll.counts id = some count → 1 ≤ count) ∧
      roll.order = (tallied changes).members ∧
      (∀ id, (roll.counts id).getD 0 = (tallied changes).count id) ∧
      ∀ change, ∃ visible next, roll.absorb change = some (visible, next) ∧
        visible = ((tallied changes).apply change).1 ∧
        next.order =
          (roll.order.filter fun id => !visible.removed.contains id) ++ visible.added ∧
        ∀ id, (next.counts id).getD 0 =
          (roll.counts id).getD 0 - change.removed.count id + change.added.count id := by
  obtain ⟨roll, hroll, hmirrors⟩ := exists_after changes
  refine ⟨roll, hroll, hmirrors.order ▸ hmirrors.valid.nodup, fun _ => hmirrors.mem_order_iff,
    fun _ _ => hmirrors.pos_of_counts, hmirrors.order, hmirrors.getD_counts, fun change => ?_⟩
  obtain ⟨next, habsorbed, hnext⟩ := hmirrors.exists_absorb change
  refine ⟨_, next, habsorbed, rfl, ?_, fun id => ?_⟩
  · rw [hnext.order, hmirrors.order, members_apply]
  · rw [hnext.getD_counts, hmirrors.getD_counts, count_apply]

/-- A coordinate that its only holder lets go and takes up again goes to the end. -/
example : (after [.adding [⟨⟨0⟩, .x, .alpha⟩, ⟨⟨1⟩, .x, .alpha⟩],
    ⟨[⟨⟨0⟩, .x, .alpha⟩], [⟨⟨0⟩, .x, .alpha⟩]⟩]).map (·.order) =
      some [⟨⟨1⟩, .x, .alpha⟩, ⟨⟨0⟩, .x, .alpha⟩] := by decide

end Roll

end RegionLayout
