import MarkupTemplate.Document.Edit
import MarkupTemplate.Event

/-!
# Building trees from markup

The events of a markup text are taken one after the other into a new fragment.  Elements that have
been begun and not ended are open, the innermost first, and what is read goes into the innermost.
An end tag closes the nearest open element of its name, and everything opened after it.

Forgiving reading never fails.  Strict reading stops at the first event after which a fault is
known: one of the nesting, or one found while the event was read.
-/

namespace MarkupTemplate

structure OpenElement where
  id : NodeId
  name : String
  deriving DecidableEq, Repr

structure TreeBuilder where
  document : Document
  root : NodeId
  /-- The open elements, the innermost first. -/
  opened : List OpenElement := []
  deriving DecidableEq, Repr

namespace TreeBuilder

/-- Where the next node goes: into the innermost open element, or the root. -/
def parent (builder : TreeBuilder) : NodeId :=
  match builder.opened with
  | innermost :: _ => innermost.id
  | [] => builder.root

def addLeaf (builder : TreeBuilder) (content : Content) : TreeBuilder :=
  { builder with document := (builder.document.createIn builder.parent content).1 }

/-- Add an element and leave it open, unless it can have no content. -/
def openElement (builder : TreeBuilder) (name : String) (attributes : List Attribute) :
    TreeBuilder :=
  if isVoidElement name then
    builder.addLeaf (.element name attributes)
  else
    let created := builder.document.createIn builder.parent (.element name attributes)
    { builder with document := created.1, opened := ⟨created.2, name⟩ :: builder.opened }

/-- The open elements up to the nearest one of that name, and those outside of it. -/
def splitAtName? (name : String) :
    List OpenElement → Option (List OpenElement × List OpenElement)
  | [] => none
  | element :: outer =>
      if Text.agreeIgnoringCase element.name.toList name.toList then
        some ([], outer)
      else
        (splitAtName? name outer).map fun (inner, remaining) => (element :: inner, remaining)

/-- Close the nearest open element of that name.  Forgiving building closes what is open inside of
it too, and passes over a name that is not open; strict building finds fault with both. -/
def closeElement (builder : TreeBuilder) (strict : Bool) (name : String) :
    TreeBuilder × Option FaultCause :=
  match splitAtName? name builder.opened with
  | some ([], outer) => ({ builder with opened := outer }, none)
  | some (innermost :: _, outer) =>
      if strict then
        (builder, some (.mismatchedEndTag innermost.name name))
      else
        ({ builder with opened := outer }, none)
  | none => (builder, if strict then some (.unexpectedEndTag name) else none)

def take (builder : TreeBuilder) (strict : Bool) : Event → TreeBuilder × Option FaultCause
  | .startElement name attributes => (builder.openElement name attributes, none)
  | .emptyElement name attributes => (builder.addLeaf (.element name attributes), none)
  | .endElement name => builder.closeElement strict name
  | .text content => (builder.addLeaf (.text content), none)
  | .comment content => (builder.addLeaf (.comment content), none)
  | .declaration _ => (builder, none)

/-- Take events one after the other until there is a fault: that of the nesting, reported where
the event ends, or else the reader's. -/
def takeAll (builder : TreeBuilder) (strict : Bool) :
    List EventReading → TreeBuilder × Option Fault
  | [] => (builder, none)
  | reading :: rest =>
      let taken := builder.take strict reading.event
      match taken.2 with
      | some cause => (taken.1, some ⟨reading.position, cause⟩)
      | none =>
          match reading.fault? with
          | some fault => (taken.1, some fault)
          | none => taken.1.takeAll strict rest

/-- What remains wrong at the end of a strictly read text: a fault in what was dropped at the end,
or else the outermost element that is still open. -/
def faultAtEnd? (builder : TreeBuilder) (strict : Bool) (text : List Char) : Option Fault :=
  if strict then
    firstFault? strict text <|>
      builder.opened.getLast?.map fun outermost =>
        ⟨Text.byteSize text, .unclosedElement outermost.name⟩
  else
    none

end TreeBuilder

/-- What came of reading a markup text: the document with the new nodes, the fragment that holds
them, and the fault that strict reading stopped at. -/
structure ParsedMarkup where
  document : Document
  root : NodeId
  fault? : Option Fault
  deriving DecidableEq, Repr

namespace Document

/-- Read a markup text into a new fragment.  What was built before a fault stays in the
document. -/
def parse (document : Document) (strict : Bool) (markup : String) : ParsedMarkup :=
  let text := markup.toList
  let created := document.create .fragment
  let start : TreeBuilder := { document := created.1, root := created.2 }
  let built := start.takeAll strict (readEvents strict text)
  { document := built.1.document
    root := created.2
    fault? := built.2 <|> built.1.faultAtEnd? strict text }

end Document

/-! ## Forgiving reading never fails -/

namespace TreeBuilder

theorem closeElement_forgiving (builder : TreeBuilder) (name : String) :
    (builder.closeElement false name).2 = none := by
  unfold closeElement
  split <;> simp

theorem take_forgiving (builder : TreeBuilder) (event : Event) :
    (builder.take false event).2 = none := by
  cases event <;> simp [take, closeElement_forgiving]

theorem takeAll_forgiving (builder : TreeBuilder) (readings : List EventReading)
    (forgiving : ∀ reading ∈ readings, reading.fault? = none) :
    (builder.takeAll false readings).2 = none := by
  induction readings generalizing builder with
  | nil => rfl
  | cons reading rest inductionHypothesis =>
    simp only [List.mem_cons, forall_eq_or_imp] at forgiving
    simp only [takeAll, take_forgiving, forgiving.1]
    exact inductionHypothesis _ forgiving.2

end TreeBuilder

theorem fault?_parse_forgiving (document : Document) (markup : String) :
    (document.parse false markup).fault? = none := by
  simp only [Document.parse, TreeBuilder.faultAtEnd?, Bool.false_eq_true, ↓reduceIte]
  rw [TreeBuilder.takeAll_forgiving]
  · rfl
  · intro reading read
    exact fault?_eq_none_of_forgiving read

end MarkupTemplate
