import MarkupTemplate.Error

/-!
# Addresses of nodes

The address of a node below a root is the path of places that leads down to it: at every step, the
number of siblings of whatever kind that come before.  It depends on the shape of the tree alone,
so it leads to the same place in every copy of the tree.
-/

namespace MarkupTemplate

/-- A path of places among children, from a root downward. -/
abbrev Address := List Nat

namespace Document

def placeOf (document : Document) (id : NodeId) : Nat :=
  (document.earlierSiblings id).length

def addressOf (document : Document) (root target : NodeId) : Except Error Address :=
  let path := document.upward target
  if path.contains root then
    .ok ((path.takeWhile (· ≠ root)).map document.placeOf).reverse
  else
    .error (.notDescendant target)

/-- The node that an address leads to from a root. -/
def resolve? (document : Document) (root : NodeId) (address : Address) : Option NodeId :=
  (document.node? root).bind fun _ => address.foldlM document.childAt? root

end Document

end MarkupTemplate
