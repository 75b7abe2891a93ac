import RegionLayout.Prerequisite.Change

/-!
Tallies of prerequisites. Each member is held by so many operands; it enters with the first of them
and leaves when the last lets it go, and only that is visible outside.
-/

namespace RegionLayout

structure PrerequisiteTally where
  /-- The members in the order they entered, each with the number of its holders. -/
  holdings : List (CoordinateId × Nat)
  deriving DecidableEq, Repr

namespace PrerequisiteTally

def empty : PrerequisiteTally := ⟨[]⟩

def members (tally : PrerequisiteTally) : List CoordinateId :=
  tally.holdings.map (·.1)

def count (tally : PrerequisiteTally) (coordinate : CoordinateId) : Nat :=
  ((tally.holdings.find? fun holding => holding.1 == coordinate).map (·.2)).getD 0

def setCount (tally : PrerequisiteTally) (coordinate : CoordinateId) (count : Nat) :
    PrerequisiteTally :=
  ⟨tally.holdings.map fun holding =>
    if holding.1 = coordinate then (coordinate, count) else holding⟩

@[simp] theorem members_setCount (tally : PrerequisiteTally) (coordinate : CoordinateId)
    (count : Nat) : (tally.setCount coordinate count).members = tally.members := by
  simp only [members, setCount, List.map_map]
  refine List.map_congr_left fun holding _ => ?_
  by_cases heq : holding.1 = coordinate <;> simp [heq]

/-! One holder more or less; the flag says whether the coordinate entered or left. -/

def acquire (tally : PrerequisiteTally) (coordinate : CoordinateId) : Bool × PrerequisiteTally :=
  if tally.members.contains coordinate then
    (false, tally.setCount coordinate (tally.count coordinate + 1))
  else (true, ⟨tally.holdings ++ [(coordinate, 1)]⟩)

def release (tally : PrerequisiteTally) (coordinate : CoordinateId) : Bool × PrerequisiteTally :=
  if tally.members.contains coordinate then
    let left := tally.count coordinate - 1
    if left = 0 then
      (true, ⟨tally.holdings.filter fun holding => holding.1 != coordinate⟩)
    else (false, tally.setCount coordinate left)
  else (false, tally)

theorem members_acquire (tally : PrerequisiteTally) (coordinate : CoordinateId) :
    (tally.acquire coordinate).2.members =
      tally.members ++ if (tally.acquire coordinate).1 then [coordinate] else [] := by
  unfold acquire
  split <;> simp [members_setCount]
  simp [members]

theorem members_release (tally : PrerequisiteTally) (coordinate : CoordinateId) :
    (tally.release coordinate).2.members =
      tally.members.filter fun member =>
        !((tally.release coordinate).1 && member == coordinate) := by
  unfold release
  split
  · dsimp only
    split
    · simp [members, List.filter_map, Function.comp_def, bne]
    · rw [members_setCount]
      exact (List.filter_eq_self.mpr fun _ _ => rfl).symm
  · exact (List.filter_eq_self.mpr fun _ _ => rfl).symm

def acquireAll : List CoordinateId → PrerequisiteTally → List CoordinateId × PrerequisiteTally
  | [], tally => ([], tally)
  | coordinate :: rest, tally =>
    let (entered, tally) := tally.acquire coordinate
    let (visible, tally) := acquireAll rest tally
    (if entered then coordinate :: visible else visible, tally)

def releaseAll : List CoordinateId → PrerequisiteTally → List CoordinateId × PrerequisiteTally
  | [], tally => ([], tally)
  | coordinate :: rest, tally =>
    let (left, tally) := tally.release coordinate
    let (visible, tally) := releaseAll rest tally
    (if left then coordinate :: visible else visible, tally)

/-- Applies one holder's change, its removals first, and returns the visible part. -/
def apply (tally : PrerequisiteTally) (change : PrerequisiteChange) :
    PrerequisiteChange × PrerequisiteTally :=
  let (removed, tally) := releaseAll change.removed tally
  let (added, tally) := acquireAll change.added tally
  (⟨added, removed⟩, tally)

end PrerequisiteTally

end RegionLayout
