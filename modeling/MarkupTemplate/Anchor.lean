import MarkupTemplate.Attempt
import MarkupTemplate.Document.Edit

/-!
# Anchors

An anchor is a slot in a document: where values are put.  The region of an anchor is read from the
document each time, so nodes that were put there or taken away by other means are seen.  A text
reuses the first text of the region, a node is put at its end, and whatever else the region held
is taken out.
-/

namespace MarkupTemplate

/-- The place of a slot in a document. -/
inductive Anchor where
  /-- What stands between two siblings.  The region of an anchor without a first sibling begins
  with the first child. -/
  | region (before : Option NodeId) (after : NodeId)
  /-- The value of an attribute of an element. -/
  | attributeValue (element : NodeId) (name : String)
  deriving DecidableEq, Repr

namespace Anchor

def kind : Anchor → SlotKind
  | .region _ _ => .region
  | .attributeValue _ _ => .attributeValue

/-- The nodes in the region of an anchor, in order; the value of an attribute holds none. -/
def regionNodes (document : Document) : Anchor → List NodeId
  | .region (some before) after => (document.laterSiblings before).takeWhile (· ≠ after)
  | .region none after => (document.earlierSiblings after).reverse
  | .attributeValue _ _ => []

def clear (document : Document) (nodes : List NodeId) : Document :=
  nodes.foldl Document.detach document

/-- Bind the value of an attribute.  A node cannot be one, and takes the attribute away. -/
def updateAttribute (document : Document) (element : NodeId) (name : String) :
    Value → Attempt Unit
  | .text data => .ofEdit document (document.setAttribute element name data)
  | .node _ =>
      { document := document.eraseAttribute element name
        outcome := .ok ()
        log := [.removingAttribute name] }
  | _ => { document := document.eraseAttribute element name, outcome := .ok () }

def isText (document : Document) (id : NodeId) : Bool :=
  ((document.content? id).bind Content.text?).isSome

/-- Bind a region to a text: in the first text that it holds, or else in a new one at its end. -/
def fillWithText (document : Document) (region : List NodeId) (after : NodeId) (data : String) :
    Attempt Unit :=
  match region.find? (isText document) with
  | some id =>
      { document := clear (document.setContent id (.text data)) (region.filter (· ≠ id))
        outcome := .ok () }
  | none =>
      let created := document.create (.text data)
      match created.1.insertBefore after created.2 with
      | .ok inserted => { document := clear inserted region, outcome := .ok () }
      | .error cause => { document := created.1, outcome := .error cause }

/-- Bind a region to a node, which stays where it is if the region holds it. -/
def fillWithNode (document : Document) (region : List NodeId) (before : Option NodeId)
    (after id : NodeId) : Attempt Unit :=
  if id = after ∨ before = some id then
    { document, outcome := .error (.invalidNode id .ownSlotBoundary) }
  else if region.contains id then
    { document := clear document (region.filter (· ≠ id)), outcome := .ok () }
  else
    match document.insertBefore after id with
    | .ok inserted => { document := clear inserted region, outcome := .ok () }
    | .error cause => { document, outcome := .error cause }

def updateRegion (document : Document) (before : Option NodeId) (after : NodeId) (value : Value) :
    Attempt Unit :=
  let region := regionNodes document (.region before after)
  match value with
  | .text data => fillWithText document region after data
  | .node id => fillWithNode document region before after id
  | _ => { document := clear document region, outcome := .ok () }

/-- Bind the slot at an anchor to a value. -/
def update (document : Document) (anchor : Anchor) (value : Value) : Attempt Unit :=
  Attempt.logged [.applyingUpdate anchor.kind value] <|
    match anchor with
    | .region before after => updateRegion document before after value
    | .attributeValue element name => updateAttribute document element name value

end Anchor

end MarkupTemplate
