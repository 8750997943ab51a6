import MarkupTemplate.Anchor
import MarkupTemplate.Document.Copy
import MarkupTemplate.Document.Markup
import MarkupTemplate.Template.Compile

/-!
# Instances of a template

An instance is a copy of a template in a document, with its slots as anchors.  All anchors are
found in the copy before the first value is bound, because binding moves nodes and with them the
places that addresses lead to.
-/

namespace MarkupTemplate

/-- A copy of a template: the fragment that holds it, and its anchors in the order of the slots. -/
structure Instance where
  root : NodeId
  anchors : List Anchor
  deriving DecidableEq, Repr

namespace Instance

/-! ## Creating instances -/

/-- The anchor of a slot in a copy of its template.  A region begins after the sibling before the
text that stands in for it, and ends at the boundary directly after that text. -/
def anchorAt (document : Document) (root : NodeId) (slot : Slot) : Except Error Anchor :=
  let unresolvable := .error (.unresolvableAddress slot.address)
  match document.resolve? root slot.address with
  | none => unresolvable
  | some target =>
      match slot with
      | .region _ =>
          match document.nextSibling? target with
          | none => unresolvable
          | some after =>
              if document.content? after = some .boundary then
                .ok (.region (document.prevSibling? target) after)
              else
                unresolvable
      | .attributeValue _ name =>
          if (document.name? target).isSome then
            .ok (.attributeValue target name)
          else
            unresolvable

/-- Bind anchors to values, one after the other, until one is refused. -/
def bindAll (document : Document) : List (Anchor × Value) → Attempt Unit
  | [] => { document, outcome := .ok () }
  | (anchor, value) :: rest =>
      (Anchor.update document anchor value).andThen fun bound _ => bindAll bound rest

/-- Copy a template into a document and bind its slots to values. -/
def create (document : Document) (template : Template) (values : List Value) : Attempt Instance :=
  if values.length ≠ template.slots.length then
    { document
      outcome := .error (.valueCountMismatch template.slots.length values.length) }
  else
    match document.copyFrom template.document template.root with
    | .error cause => { document, outcome := .error cause }
    | .ok (copied, root) =>
        match template.slots.mapM (anchorAt copied root) with
        | .error cause => { document := copied, outcome := .error cause }
        | .ok anchors =>
            (bindAll copied (anchors.zip values)).andThen fun bound _ =>
              { document := bound, outcome := .ok { root, anchors } }

/-! ## Asking about instances -/

def anchorsOfKind (made : Instance) (kind : SlotKind) : List Anchor :=
  made.anchors.filter fun anchor => anchor.kind = kind

/-- The text of the node is made of blanks alone. -/
def isBlankText (document : Document) (id : NodeId) : Bool :=
  match (document.content? id).bind Content.text? with
  | some data => data.toList.all Text.isBlank
  | none => false

/-- The only element at the top of an instance, where blank texts and boundaries do not count. -/
def singleElement (document : Document) (made : Instance) : Except Error NodeId :=
  let significant := (document.contentChildren made.root).filter (!isBlankText document ·)
  match significant with
  | [only] =>
      if (document.name? only).isSome then .ok only else .error (.notSingleElement 1)
  | several => .error (.notSingleElement several.length)

def markup (document : Document) (made : Instance) : String :=
  document.markup made.root

/-! ## Mounting -/

/-- An anchor after its instance was moved from a fragment to the end of a parent's children, of
which the given one was the last.  A region that began with the fragment's first child now begins
after that child. -/
def mountedAnchor (document : Document) (root : NodeId) (last : Option NodeId) : Anchor → Anchor
  | .region none after =>
      if document.parent? after = some root then .region last after else .region none after
  | other => other

/-- Move the nodes at the top of an instance to the end of a parent's children. -/
def mount (document : Document) (made : Instance) (parent : NodeId) :
    Except Error (Document × Instance) :=
  (document.append parent made.root).map fun mounted =>
    (mounted,
      { made with
        anchors := made.anchors.map
          (mountedAnchor document made.root (document.lastChild? parent)) })

end Instance

end MarkupTemplate
