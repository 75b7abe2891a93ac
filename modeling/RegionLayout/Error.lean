import RegionLayout.Graph.Reach
import RegionLayout.Position

/-!
What can go wrong while a tree is built or laid out, and how it is reported.
-/

namespace RegionLayout

inductive ValueKind where
  | relative
  | absolute
  deriving DecidableEq, Repr

def ValueKind.text : ValueKind → String
  | relative => "relative"
  | absolute => "absolute"

inductive LayoutError where
  | cycle (cause : CycleError CoordinateId)
  | childAlreadyExists (parent child : CellId)
  | childNotFound (parent child : CellId)
  | wouldNestInsideItself (parent child : CellId)
  | pinnedRoot (parent child : CellId)
  | indexOutOfBounds (parent : CellId) (index size : Nat)
  | unknownCell (cell : CellId)
  | missingValue (coordinate : CoordinateId) (kind : ValueKind)
  | arithmeticMismatch (operands operators : Nat)
  /-- A sibling length was evaluated without a sibling; it may not know its owner yet. -/
  | noPreviousPeer (owner : Option CoordinateId)
  | incompleteRecipe (missing : String)
  deriving DecidableEq

namespace LayoutError

def message : LayoutError → String
  | cycle cause => cause.message CoordinateId.text
  | childAlreadyExists parent child => child.text ++ " is already a child of " ++ parent.text
  | childNotFound parent child => child.text ++ " is not a child of " ++ parent.text
  | wouldNestInsideItself parent child =>
    child.text ++ " cannot be nested inside " ++ parent.text ++ ", which it contains"
  | pinnedRoot parent child =>
    child.text ++ " is a root and cannot be attached under " ++ parent.text
  | indexOutOfBounds parent index size =>
    s!"insertion index {index} is out of bounds for " ++ parent.text ++ s!" with {size} children"
  | unknownCell cell => cell.text ++ " does not belong to this tree"
  | missingValue coordinate kind => coordinate.text ++ " has no " ++ kind.text ++ " value yet"
  | arithmeticMismatch operands operators =>
    s!"arithmetic chain has {operands} operands but {operators} operators"
  | noPreviousPeer owner =>
    "no preceding sibling to measure from (owner: " ++
      Record.optional (owner.map CoordinateId.inspect) ++ ")"
  | incompleteRecipe missing => "cell recipe is missing " ++ missing

end LayoutError

end RegionLayout
