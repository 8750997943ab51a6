import MarkupTemplate.Document.Parse
import MarkupTemplate.Log
import MarkupTemplate.Text.Search

/-!
# Compiling templates

A template is given by its literal fragments, with a place to be filled between each two of them.
The fragments are joined by a marker and read as markup once.  Every marker in a text becomes a
region: the text is cut around it, an empty text stands in for it, and a boundary follows.  Every
attribute whose whole value is the marker becomes a slot for the value.  There must be as many
slots as there are places between fragments; a marker that the markup hides, or one that a
fragment itself contains, makes the numbers differ.
-/

namespace MarkupTemplate

/-- The marker that stands for a place to be filled, unless another one is chosen.  Its characters
are meant for private use, so that fragments do not contain it. -/
def defaultMarker : String := "\ue000rt-slot\ue001"

structure CompileOptions where
  /-- Stands for a place to be filled; not empty. -/
  marker : String := defaultMarker
  strict : Bool := false
  deriving DecidableEq, Repr

/-- A compiled template: a tree with its slots, in the order of the places they fill. -/
structure Template where
  document : Document
  root : NodeId
  slots : List Slot
  deriving DecidableEq, Repr

namespace Template

/-! ## Finding the slots of a tree -/

inductive Site where
  | region (standIn : NodeId)
  | attributeValue (element : NodeId) (name : String)
  deriving DecidableEq, Repr

/-- Cut a text around the markers between its pieces.  For every marker there is an empty text, to
stand in for it, and a boundary directly after; of the pieces, those that are not empty stay. -/
def isolate (marker : List Char) (document : Document) (id : NodeId) :
    List (List Char) → Document × List NodeId
  | piece :: next :: rest =>
      let remaining := marker.intercalate (next :: rest)
      let standIn := document.divide id (String.ofList piece) ""
      let remainder := standIn.1.createAfter standIn.2 (.text (String.ofList remaining))
      let bounded := (remainder.1.createAfter standIn.2 .boundary).1
      let cut := if piece.isEmpty then bounded.detach id else bounded
      if remaining.isEmpty then
        (cut.detach remainder.2, [standIn.2])
      else
        let others := isolate marker cut remainder.2 (next :: rest)
        (others.1, standIn.2 :: others.2)
  | _ => (document, [])

/-- Find the slots at one node: the attributes of an element whose value is the marker, or the
markers in a text, which is cut around them. -/
def findSites (marker : String) (document : Document) (id : NodeId) : Document × List Site :=
  match document.content? id with
  | some (.element _ attributes) =>
      let marked := attributes.filter fun entry => entry.value = marker
      (document, marked.map fun entry => .attributeValue id entry.name)
  | some (.text data) =>
      let isolated := isolate marker.toList document id (Text.pieces marker.toList data.toList)
      (isolated.1, isolated.2.map .region)
  | _ => (document, [])

def findAllSites (marker : String) (document : Document) :
    List NodeId → Document × List Site
  | [] => (document, [])
  | id :: rest =>
      let here := findSites marker document id
      let others := findAllSites marker here.1 rest
      (others.1, here.2 ++ others.2)

/-- The slot at a site, by its address below the root. -/
def slotAt (document : Document) (root : NodeId) : Site → Except Error Slot
  | .region standIn => (document.addressOf root standIn).map .region
  | .attributeValue element name =>
      (document.addressOf root element).map fun address => .attributeValue address name

/-! ## Compiling -/

/-- Fragments as they are shown in messages, with a pair of braces at every place to be filled. -/
def shown (fragments : List String) : String :=
  String.intercalate "\x7b\x7d" fragments

def compile (options : CompileOptions) (fragments : List String) : Except Error Template :=
  let expected := fragments.length - 1
  if options.marker.isEmpty then
    .error (.slotCountMismatch expected 0 (shown fragments))
  else
    let parsed :=
      Document.empty.parse options.strict (String.intercalate options.marker fragments)
    match parsed.fault? with
    | some fault => .error (.parse fault)
    | none =>
        let found :=
          findAllSites options.marker parsed.document (parsed.document.descendants parsed.root)
        if found.2.length = expected then
          (found.2.mapM (slotAt found.1 parsed.root)).map fun slots =>
            { document := found.1, root := parsed.root, slots }
        else
          .error (.slotCountMismatch expected found.2.length (shown fragments))

/-- What is reported of a compilation: its sizes, if it succeeded. -/
def compilationLog (fragments : List String) : Except Error Template → List LogRecord
  | .ok template =>
      [.compiledTemplate fragments.length template.slots.length template.document.size]
  | .error _ => []

end Template

end MarkupTemplate
