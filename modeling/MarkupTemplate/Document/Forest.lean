/-!
# Ordered forests

A forest is a row of trees with a label at every node.  It is given by its first tree's label, the
forest of that tree's children, and the forest of the trees after it; so induction over a forest
goes through children and siblings alike.
-/

namespace MarkupTemplate

/-- A row of ordered trees. -/
inductive Forest (Label : Type) where
  | empty
  | plant (label : Label) (children siblings : Forest Label)
  deriving DecidableEq, Repr

namespace Forest

variable {Label Other : Type}

def map (relabel : Label → Other) : Forest Label → Forest Other
  | .empty => .empty
  | .plant label children siblings =>
      .plant (relabel label) (children.map relabel) (siblings.map relabel)

/-- The labels in document order: every node before its children, and these before its later
siblings. -/
def labels : Forest Label → List Label
  | .empty => []
  | .plant label children siblings => label :: (children.labels ++ siblings.labels)

def roots : Forest Label → List Label
  | .empty => []
  | .plant label _ siblings => label :: siblings.roots

def append : Forest Label → Forest Label → Forest Label
  | .empty, later => later
  | .plant label children siblings, later => .plant label children (siblings.append later)

instance : Append (Forest Label) where
  append := append

@[simp]
theorem empty_append (later : Forest Label) : .empty ++ later = later := rfl

@[simp]
theorem plant_append (label : Label) (children siblings later : Forest Label) :
    .plant label children siblings ++ later = .plant label children (siblings ++ later) := rfl

@[simp]
theorem labels_map (relabel : Label → Other) (forest : Forest Label) :
    (forest.map relabel).labels = forest.labels.map relabel := by
  induction forest with
  | empty => rfl
  | plant label children siblings childrenHypothesis siblingsHypothesis =>
    simp [map, labels, childrenHypothesis, siblingsHypothesis]

@[simp]
theorem labels_append (earlier later : Forest Label) :
    (earlier ++ later).labels = earlier.labels ++ later.labels := by
  induction earlier with
  | empty => rfl
  | plant label children siblings _ siblingsHypothesis =>
    simp [labels, siblingsHypothesis]

end Forest

end MarkupTemplate
