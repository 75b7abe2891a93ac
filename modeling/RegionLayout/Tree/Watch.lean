import RegionLayout.Tree.Wiring

/-!
Watches. A watch under a tag takes the place of any other under it. What watches hear is read off
the journal: watches on cells and coordinates hear every announcement there, watches on lengths what
reached them through the length's roster.
-/

namespace RegionLayout

def WatchTarget.hears : WatchTarget → Message → Bool
  | relative coordinate, .relative of _ _ => of == coordinate
  | absolute coordinate, .absolute of _ _ => of == coordinate
  | invalidated coordinate, .invalidated of => of == coordinate
  | prerequisites coordinate, .prerequisites of _ => of == coordinate
  | parent cell, .parent of _ _ => of == cell
  | children cell, .children of => of == cell
  | _, _ => false

/-- Something that is shown to whoever looks on. -/
inductive Report where
  | told (tag : String) (message : Message)
  | evaluated (name : String)
  | bound (name : String) (owner : CoordinateId)

namespace RegionTree

def isWatchable (tree : RegionTree) : WatchTarget → Bool
  | .relative coordinate => tree.contains coordinate.cell
  | .absolute coordinate => tree.contains coordinate.cell
  | .invalidated coordinate => tree.contains coordinate.cell
  | .prerequisites coordinate => tree.contains coordinate.cell
  | .parent cell => tree.contains cell
  | .children cell => tree.contains cell
  | .lengthInvalidated _ => true
  | .lengthPrerequisites _ => true

def enroll (tree : RegionTree) (number : Nat) : WatchTarget → RegionTree
  | .lengthInvalidated id =>
    tree.mapNetwork fun network => network.subscribe .invalidated id (.watch number)
  | .lengthPrerequisites id =>
    tree.mapNetwork fun network => network.subscribe .prerequisites id (.watch number)
  | _ => tree

/-- Sets a watch; the flag says whether there is anything to watch. -/
def watch (tree : RegionTree) (tag : String) (target : WatchTarget) : Bool × RegionTree :=
  if tree.isWatchable target then
    let number := tree.nextWatch
    let tree := tree.enroll number target
    (true, { tree with
      watches := (tree.watches.filter fun watch => watch.tag != tag) ++ [⟨number, tag, target⟩]
      nextWatch := number + 1 })
  else (false, tree)

/-- Ends a watch; the flag says whether it was set. -/
def unwatch (tree : RegionTree) (tag : String) : Bool × RegionTree :=
  (tree.watches.any fun watch => watch.tag == tag,
    { tree with watches := tree.watches.filter fun watch => watch.tag != tag })

def reportsOf (tree : RegionTree) : Notice → List Report
  | .sent message =>
    (tree.watches.filter fun watch => watch.target.hears message).map fun watch =>
      .told watch.tag message
  | .heard number message =>
    (tree.watches.filter fun watch => watch.number == number).map fun watch =>
      .told watch.tag message
  | .evaluated name => [.evaluated name]
  | .bound name owner => [.bound name owner]

def reports (tree : RegionTree) : List Report :=
  tree.network.journal.toList.flatMap tree.reportsOf

end RegionTree

end RegionLayout
