import MarkupTemplate.Error
import MarkupTemplate.Text.Bytes

/-!
# Editing documents

Nodes are created without a place, put among the children of a node, moved and taken out again.
An edit that is refused leaves no trace: it returns the cause in place of a document.
-/

namespace MarkupTemplate

namespace Document

/-! ## Changing one node -/

/-- Change the node of that name, if it was created. -/
def update (document : Document) (id : NodeId) (change : Node → Node) : Document :=
  { document with nodes := document.nodes.modify id change }

theorem node?_update (document : Document) (id other : NodeId) (change : Node → Node) :
    (document.update id change).node? other =
      if id = other then (document.node? other).map change else document.node? other := by
  simp only [update, node?]
  exact Array.getElem?_modify

@[simp]
theorem size_update (document : Document) (id : NodeId) (change : Node → Node) :
    (document.update id change).size = document.size := by
  simp [update, size]

def setContent (document : Document) (id : NodeId) (content : Content) : Document :=
  document.update id fun node => { node with content }

/-! ## Creating nodes -/

/-- Create a node that has no place yet. -/
def create (document : Document) (content : Content) : Document × NodeId :=
  ({ document with nodes := document.nodes.push { content } }, document.size)

theorem node?_create (document : Document) (content : Content) (id : NodeId) :
    (document.create content).1.node? id =
      if id = document.size then some { content } else document.node? id := by
  simp only [create, node?, size]
  exact Array.getElem?_push

@[simp]
theorem size_create (document : Document) (content : Content) :
    (document.create content).1.size = document.size + 1 := by
  simp [create, size]

/-! ## Places among children -/

/-- Record what follows a place: the node before it points there, or the parent does when the
place is the first. -/
def setFollower (document : Document) (parent previous follower : Option NodeId) : Document :=
  match previous, parent with
  | some id, _ => document.update id fun node => { node with nextSibling := follower }
  | none, some id => document.update id fun node => { node with firstChild := follower }
  | none, none => document

/-- Record what precedes a place: the node after it points there, or the parent does when the
place is the last. -/
def setPreceder (document : Document) (parent next preceder : Option NodeId) : Document :=
  match next, parent with
  | some id, _ => document.update id fun node => { node with prevSibling := preceder }
  | none, some id => document.update id fun node => { node with lastChild := preceder }
  | none, none => document

/-- Take a node away from its parent and siblings, which close the gap.  Its own children stay
with it. -/
def detach (document : Document) (id : NodeId) : Document :=
  match document.node? id with
  | none => document
  | some node =>
      let alone := document.update id fun node =>
        { node with parent := none, prevSibling := none, nextSibling := none }
      (alone.setFollower node.parent node.prevSibling node.nextSibling).setPreceder
        node.parent node.nextSibling node.prevSibling

/-- Put a node without a place among the children of a parent: before the given child, or last. -/
def attach (document : Document) (parent : NodeId) (before : Option NodeId) (id : NodeId) :
    Document :=
  let previous :=
    match before with
    | some next => document.prevSibling? next
    | none => document.lastChild? parent
  let placed := document.update id fun node =>
    { node with parent := some parent, prevSibling := previous, nextSibling := before }
  (placed.setFollower (some parent) previous (some id)).setPreceder (some parent) before (some id)

def move (document : Document) (parent : NodeId) (before : Option NodeId) (id : NodeId) :
    Document :=
  (document.detach id).attach parent before id

def createIn (document : Document) (parent : NodeId) (content : Content) : Document × NodeId :=
  let created := document.create content
  (created.1.attach parent none created.2, created.2)

/-- Create a node directly after another; it has no place if the other has none. -/
def createAfter (document : Document) (id : NodeId) (content : Content) : Document × NodeId :=
  let created := document.create content
  match created.1.parent? id with
  | some parent => (created.1.attach parent (created.1.nextSibling? id) created.2, created.2)
  | none => created

/-! ## Inserting and removing -/

/-- Insert a node among the children of a parent, before the given child or last.  A fragment is
emptied: its children move there in order. -/
def insert (document : Document) (parent : NodeId) (before : Option NodeId) (id : NodeId) :
    Except Error Document :=
  match document.content? parent, document.content? id with
  | none, _ => .error (.invalidNode parent .notInDocument)
  | some container, inserted? =>
      if !container.mayHaveChildren then
        .error (.invalidNode parent .mayNotHaveChildren)
      else
        match inserted? with
        | none => .error (.invalidNode id .notInDocument)
        | some inserted =>
            if document.isInclusiveAncestor id parent then
              .error (.invalidNode id .insertedIntoItself)
            else if inserted = .fragment then
              .ok ((document.children id).foldl (fun edited child =>
                edited.move parent before child) document)
            else if before = some id then
              .ok document
            else
              .ok (document.move parent before id)

def append (document : Document) (parent id : NodeId) : Except Error Document :=
  document.insert parent none id

def insertBefore (document : Document) (reference id : NodeId) : Except Error Document :=
  match document.parent? reference with
  | none => .error (.invalidNode reference .referenceHasNoParent)
  | some parent => document.insert parent (some reference) id

def insertAfter (document : Document) (reference id : NodeId) : Except Error Document :=
  match document.parent? reference with
  | none => .error (.invalidNode reference .referenceHasNoParent)
  | some parent => document.insert parent (document.nextSibling? reference) id

/-! ## Changing what nodes carry -/

def setData (document : Document) (id : NodeId) (data : String) : Except Error Document :=
  match document.content? id with
  | none => .error (.invalidNode id .notInDocument)
  | some (.text _) => .ok (document.setContent id (.text data))
  | some (.comment _) => .ok (document.setContent id (.comment data))
  | some _ => .error (.invalidNode id .carriesNoData)

def setAttribute (document : Document) (id : NodeId) (name value : String) :
    Except Error Document :=
  match document.content? id with
  | none => .error (.invalidNode id .notInDocument)
  | some (.element tag attributes) =>
      .ok (document.setContent id (.element tag (Attribute.put attributes name value)))
  | some _ => .error (.invalidNode id .carriesNoAttributes)

def eraseAttribute (document : Document) (id : NodeId) (name : String) : Document :=
  document.update id fun node =>
    { node with content := node.content.mapAttributes fun entries => Attribute.erase entries name }

/-! ## Splitting texts -/

/-- Leave the head in a text and put a new text with the tail directly after it. -/
def divide (document : Document) (id : NodeId) (head tail : String) : Document × NodeId :=
  (document.setContent id (.text head)).createAfter id (.text tail)

/-- Split a text at a byte position between two of its characters.  The text keeps what stands
before the position, and a new text directly after it holds the rest. -/
def splitText (document : Document) (id : NodeId) (position : Nat) :
    Except Error (Document × NodeId) :=
  match document.content? id with
  | none => .error (.invalidNode id .notInDocument)
  | some (.text data) =>
      match Text.splitAtByte? position data.toList with
      | some (head, tail) => .ok (document.divide id (String.ofList head) (String.ofList tail))
      | none => .error (.invalidNode id .notSplitBetweenCharacters)
  | some _ => .error (.invalidNode id .notSplitBetweenCharacters)

end Document

end MarkupTemplate
