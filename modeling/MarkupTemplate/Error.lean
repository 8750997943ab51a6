import MarkupTemplate.Document.Basic
import MarkupTemplate.Fault
import MarkupTemplate.Text.Quoted

/-!
# Errors

Everything that an operation on documents, templates and slots may refuse, by its cause, and the
wording of each.
-/

namespace MarkupTemplate

inductive NodeDefect where
  | notInDocument
  | notInSource
  | carriesNoData
  | carriesNoAttributes
  | mayNotHaveChildren
  | insertedIntoItself
  | referenceHasNoParent
  | notSplitBetweenCharacters
  | ownSlotBoundary
  deriving DecidableEq, Repr

def NodeDefect.message : NodeDefect → String
  | .notInDocument => "not a node of this document"
  | .notInSource => "not a node of the source document"
  | .carriesNoData => "only text and comment nodes carry data"
  | .carriesNoAttributes => "only elements carry attributes"
  | .mayNotHaveChildren => "only elements and fragments have children"
  | .insertedIntoItself => "cannot insert a node into itself or its descendants"
  | .referenceHasNoParent => "insertion reference has no parent"
  | .notSplitBetweenCharacters =>
      "split offset must fall on a character boundary of a text node"
  | .ownSlotBoundary => "a slot boundary cannot be its own content"

/-- Why an operation was refused. -/
inductive Error where
  /-- A template has another number of slots than places between its fragments. -/
  | slotCountMismatch (expected found : Nat) (template : String)
  /-- An address was asked of a node that is not below the root. -/
  | notDescendant (node : NodeId)
  /-- A slot's address leads nowhere. -/
  | unresolvableAddress (address : List Nat)
  /-- Another number of values was given than there are slots. -/
  | valueCountMismatch (expected found : Nat)
  /-- Strict reading found a fault. -/
  | parse (fault : Fault)
  | invalidNode (node : NodeId) (defect : NodeDefect)
  /-- An instance does not consist of one element. -/
  | notSingleElement (found : Nat)
  deriving DecidableEq, Repr

/-- An address between square brackets, its indices separated by commas. -/
def writtenAddress (address : List Nat) : String :=
  "[" ++ String.intercalate ", " (address.map toString) ++ "]"

def Error.message : Error → String
  | .slotCountMismatch expected found template =>
      "template has " ++ toString expected ++ " interpolations but " ++ toString found ++
        " slots were found: " ++ Text.quoted template
  | .notDescendant node =>
      "node " ++ toString node ++ " is not a descendant of the addressing root"
  | .unresolvableAddress address =>
      "slot address " ++ writtenAddress address ++ " does not resolve against the instance"
  | .valueCountMismatch expected found =>
      "template expects " ++ toString expected ++ " values, got " ++ toString found
  | .parse fault => "parse error at byte " ++ toString fault.position ++ ": " ++ fault.message
  | .invalidNode node defect => "invalid node " ++ toString node ++ ": " ++ defect.message
  | .notSingleElement found =>
      "expected exactly one top-level element, found " ++ toString found

end MarkupTemplate
