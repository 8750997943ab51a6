import MarkupTemplate.Document.Edit

/-!
# Copying trees between documents

A copy of a node and everything below it is created in document order, so the names of the copied
nodes are consecutive.  The copy itself has no place, and shares nothing with what it was copied
from.
-/

namespace MarkupTemplate

namespace Document

/-- Create a forest's nodes in document order, its trees as the last children of a parent. -/
def plant (document : Document) (parent : NodeId) : Forest Content → Document
  | .empty => document
  | .plant content children siblings =>
      let created := document.createIn parent content
      (created.1.plant created.2 children).plant parent siblings

/-- Copy a node of the source document and everything below it. -/
def copyFrom (document source : Document) (id : NodeId) : Except Error (Document × NodeId) :=
  match source.content? id with
  | none => .error (.invalidNode id .notInSource)
  | some content =>
      let created := document.create content
      .ok (created.1.plant created.2 ((source.below id).map Prod.snd), created.2)

/-- As many nodes are created as the forest has. -/
theorem size_createIn (document : Document) (parent : NodeId) (content : Content) :
    (document.createIn parent content).1.size = document.size + 1 := by
  simp only [createIn, attach, setFollower, setPreceder]
  repeat' split
  all_goals simp

theorem size_plant (document : Document) (parent : NodeId) (forest : Forest Content) :
    (document.plant parent forest).size = document.size + forest.labels.length := by
  induction forest generalizing document parent with
  | empty => simp [plant, Forest.labels]
  | plant content children siblings childrenHypothesis siblingsHypothesis =>
    simp only [plant, siblingsHypothesis, childrenHypothesis, size_createIn, Forest.labels,
      List.length_cons, List.length_append]
    omega

end Document

end MarkupTemplate
