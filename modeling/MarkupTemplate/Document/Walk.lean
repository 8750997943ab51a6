import MarkupTemplate.Document.Basic

/-!
# Walking through a tree

A walker goes through the elements and texts below a root in document order.  The node that comes
next is fixed as soon as the one before it is given out, so that one may be split or extended
without being met again.
-/

namespace MarkupTemplate

namespace Content

/-- Walkers stop at elements and texts. -/
def isVisible : Content → Bool
  | .element _ _ => true
  | .text _ => true
  | _ => false

end Content

namespace Document

def isVisible (document : Document) (id : NodeId) : Bool :=
  ((document.content? id).map Content.isVisible).getD false

/-- The node after another in document order, as long as it lies below the root: the first child,
or else the next sibling of the nearest node that has one, going up to the root. -/
def following? (document : Document) (root id : NodeId) : Option NodeId :=
  match document.firstChild? id with
  | some child => some child
  | none => ((document.upward id).takeWhile (· ≠ root)).findSome? document.nextSibling?

def firstVisible? (document : Document) (root : NodeId) (start : Option NodeId) : Option NodeId :=
  findAlong (document.following? root) document.isVisible (document.size + 1) start

end Document

/-- A walk below a root, with the node that it comes to next. -/
structure Walker where
  root : NodeId
  upcoming : Option NodeId
  deriving DecidableEq, Repr

namespace Walker

/-- Begin a walk below a root, which is not itself part of it. -/
def start (document : Document) (root : NodeId) : Walker :=
  { root, upcoming := document.firstVisible? root (document.firstChild? root) }

/-- The walk after one more step; the step gives out the upcoming node. -/
def advance (document : Document) (walker : Walker) : Walker :=
  match walker.upcoming with
  | none => walker
  | some id =>
      { walker with
        upcoming := document.firstVisible? walker.root (document.following? walker.root id) }

def visit (document : Document) : Nat → Walker → List NodeId
  | 0, _ => []
  | steps + 1, walker =>
      match walker.upcoming with
      | none => []
      | some id => id :: visit document steps (walker.advance document)

end Walker

namespace Document

def walk (document : Document) (root : NodeId) : List NodeId :=
  (Walker.start document root).visit document document.size

end Document

end MarkupTemplate
