import MarkupTemplate.Attribute.Basic
import MarkupTemplate.Document.Forest
import MarkupTemplate.Text.Ascii

/-!
# Documents

A document holds every node that was ever created in it.  A node is named by its number in the
order of creation and keeps that name for good: taking a node out of its tree leaves it in the
document.  What a node is stands in its content; where it is stands in five links, to its parent,
to its first and last child, and to the siblings next to it.

Everything that is asked of a document by following links is bounded by the number of its nodes,
so every question has an answer even where the links would lead in a circle.
-/

namespace MarkupTemplate

/-- The name of a node in its document: its number in the order of creation.  The numbers are meant
to take 32 bits: what is said here of documents is meant of those with fewer than 2 ^ 32 nodes, so
that no number is used twice. -/
abbrev NodeId := Nat

/-! ## What nodes are -/

inductive Content where
  /-- A container whose children move when it is inserted. -/
  | fragment
  | element (name : String) (attributes : List Attribute)
  | text (data : String)
  | comment (data : String)
  /-- A mark between siblings, which is never written. -/
  | boundary
  deriving DecidableEq, Repr

namespace Content

/-- Elements and fragments may have children. -/
def mayHaveChildren : Content → Bool
  | .fragment => true
  | .element _ _ => true
  | _ => false

def name? : Content → Option String
  | .element name _ => some name
  | _ => none

def attributes : Content → List Attribute
  | .element _ attributes => attributes
  | _ => []

def data? : Content → Option String
  | .text data => some data
  | .comment data => some data
  | _ => none

def text? : Content → Option String
  | .text data => some data
  | _ => none

/-- The content with the attributes changed, if it has any. -/
def mapAttributes (change : List Attribute → List Attribute) : Content → Content
  | .element name attributes => .element name (change attributes)
  | other => other

end Content

def voidElements : List String :=
  [ "area", "base", "br", "col", "embed", "hr", "img", "input", "link", "meta", "param",
    "source", "track", "wbr" ]

def isVoidElement (name : String) : Bool :=
  Text.isOneOfIgnoringCase voidElements name.toList

/-! ## Where nodes are -/

structure Node where
  content : Content
  parent : Option NodeId := none
  firstChild : Option NodeId := none
  lastChild : Option NodeId := none
  prevSibling : Option NodeId := none
  nextSibling : Option NodeId := none
  deriving DecidableEq, Repr

/-- All nodes created so far, in the order of their creation. -/
structure Document where
  nodes : Array Node := #[]
  deriving DecidableEq, Repr

namespace Document

def empty : Document := {}

def size (document : Document) : Nat :=
  document.nodes.size

def node? (document : Document) (id : NodeId) : Option Node :=
  document.nodes[id]?

def content? (document : Document) (id : NodeId) : Option Content :=
  (document.node? id).map Node.content

def parent? (document : Document) (id : NodeId) : Option NodeId :=
  (document.node? id).bind Node.parent

def firstChild? (document : Document) (id : NodeId) : Option NodeId :=
  (document.node? id).bind Node.firstChild

def lastChild? (document : Document) (id : NodeId) : Option NodeId :=
  (document.node? id).bind Node.lastChild

def prevSibling? (document : Document) (id : NodeId) : Option NodeId :=
  (document.node? id).bind Node.prevSibling

def nextSibling? (document : Document) (id : NodeId) : Option NodeId :=
  (document.node? id).bind Node.nextSibling

/-! ## Following links -/

/-- The nodes reached by following a link again and again from a start, at most a given number of
them. -/
def follow (link : NodeId → Option NodeId) : Nat → Option NodeId → List NodeId
  | 0, _ => []
  | _ + 1, none => []
  | limit + 1, some id => id :: follow link limit (link id)

/-- The first node with a property among those reached by following a link from a start, of which
at most a given number are looked at. -/
def findAlong (link : NodeId → Option NodeId) (accepts : NodeId → Bool) :
    Nat → Option NodeId → Option NodeId
  | 0, _ => none
  | _ + 1, none => none
  | limit + 1, some id =>
      if accepts id then some id else findAlong link accepts limit (link id)

theorem findAlong_eq (link : NodeId → Option NodeId) (accepts : NodeId → Bool) (limit : Nat)
    (start : Option NodeId) :
    findAlong link accepts limit start = (follow link limit start).find? accepts := by
  induction limit generalizing start with
  | zero => rfl
  | succ limit inductionHypothesis =>
    cases start with
    | none => rfl
    | some id =>
      by_cases accepted : accepts id = true
      · simp [findAlong, follow, accepted]
      · simp [findAlong, follow, accepted, inductionHypothesis]

/-- The nodes reached by following a link of the document from a start, the start included.  No
more are looked at than there are nodes, and one for a start that was never created. -/
def chain (document : Document) (link : NodeId → Option NodeId) (start : Option NodeId) :
    List NodeId :=
  follow link (document.size + 1) start

def children (document : Document) (id : NodeId) : List NodeId :=
  document.chain document.nextSibling? (document.firstChild? id)

def earlierSiblings (document : Document) (id : NodeId) : List NodeId :=
  document.chain document.prevSibling? (document.prevSibling? id)

def laterSiblings (document : Document) (id : NodeId) : List NodeId :=
  document.chain document.nextSibling? (document.nextSibling? id)

/-- The node, its parent, the parent of that, and so on. -/
def upward (document : Document) (id : NodeId) : List NodeId :=
  document.chain document.parent? (some id)

def childAt? (document : Document) (id : NodeId) (index : Nat) : Option NodeId :=
  (document.children id)[index]?

def contentChildren (document : Document) (id : NodeId) : List NodeId :=
  (document.children id).filter fun child => document.content? child ≠ some .boundary

/-- One node is the other or lies above it. -/
def isInclusiveAncestor (document : Document) (ancestor id : NodeId) : Bool :=
  (document.upward id).contains ancestor

/-! ## Trees -/

/-- The forest that the links to first children and next siblings span from a start, no deeper
than a given number of links. -/
def forestFrom (document : Document) : Nat → Option NodeId → Forest (NodeId × Content)
  | 0, _ => .empty
  | _ + 1, none => .empty
  | limit + 1, some id =>
      match document.node? id with
      | none => .empty
      | some node =>
          .plant (id, node.content) (document.forestFrom limit node.firstChild)
            (document.forestFrom limit node.nextSibling)

def below (document : Document) (id : NodeId) : Forest (NodeId × Content) :=
  document.forestFrom document.size (document.firstChild? id)

def descendants (document : Document) (id : NodeId) : List NodeId :=
  (document.below id).labels.map Prod.fst

/-! ## What nodes carry -/

def name? (document : Document) (id : NodeId) : Option String :=
  (document.content? id).bind Content.name?

def data? (document : Document) (id : NodeId) : Option String :=
  (document.content? id).bind Content.data?

def attributes (document : Document) (id : NodeId) : List Attribute :=
  ((document.content? id).map Content.attributes).getD []

def attribute? (document : Document) (id : NodeId) (name : String) : Option String :=
  Attribute.lookup? (document.attributes id) name

/-- The texts in a node, one after the other; a text is its own data. -/
def textContent (document : Document) (id : NodeId) : String :=
  match (document.content? id).bind Content.text? with
  | some data => data
  | none => String.join ((document.below id).labels.filterMap fun (_, content) => content.text?)

end Document

end MarkupTemplate
