import MarkupTemplate.Document.Address

/-!
# Slots of a template

A slot is a place of a template that is filled anew in every copy.  It is either a place between
siblings, which can hold any number of nodes, or the whole value of an attribute.  A template
records its slots by address.
-/

namespace MarkupTemplate

inductive SlotKind where
  /-- A place between siblings. -/
  | region
  /-- The whole value of an attribute. -/
  | attributeValue
  deriving DecidableEq, Repr

inductive Slot where
  /-- The address of the empty text that stands in for the region. -/
  | region (address : Address)
  /-- The address of the element, and the name of the attribute. -/
  | attributeValue (address : Address) (name : String)
  deriving DecidableEq, Repr

namespace Slot

def kind : Slot → SlotKind
  | .region _ => .region
  | .attributeValue _ _ => .attributeValue

def address : Slot → Address
  | .region address => address
  | .attributeValue address _ => address

/-- The attribute whose value the slot is. -/
def attributeName? : Slot → Option String
  | .region _ => none
  | .attributeValue _ name => some name

end Slot

end MarkupTemplate
