import MarkupTemplate.Proofs.Document.Rows

/-!
# The trees below a node

A forest whose labels name nodes grows in a document when every node carries what its label says
and has the trees below it as its children.  In a well-formed document there is exactly one such
forest for every row of children, no node occurs in it twice, and it is what following the links
to first children and next siblings finds.
-/

namespace MarkupTemplate

/-- The forest of one tree. -/
def Forest.single {Label : Type} (label : Label) (children : Forest Label) : Forest Label :=
  .plant label children .empty

/-! ## Forests whose labels name nodes -/

namespace Forest

/-- The nodes of a forest, in document order. -/
def ids (forest : Forest (NodeId × Content)) : List NodeId :=
  forest.labels.map Prod.fst

/-- The roots of a forest's trees, in order. -/
def rootIds (forest : Forest (NodeId × Content)) : List NodeId :=
  forest.roots.map Prod.fst

/-- The forest without the names of its nodes. -/
def contents (forest : Forest (NodeId × Content)) : Forest Content :=
  forest.map Prod.snd

/-- The nodes of the forest are and have in the document what the forest says. -/
def GrowsIn (document : Document) : Forest (NodeId × Content) → Prop
  | .empty => True
  | .plant label children siblings =>
      document.content? label.1 = some label.2 ∧
        document.children label.1 = children.rootIds ∧
        children.GrowsIn document ∧ siblings.GrowsIn document

variable {label : NodeId × Content} {children siblings : Forest (NodeId × Content)}

@[simp]
theorem ids_empty : (.empty : Forest (NodeId × Content)).ids = [] := rfl

@[simp]
theorem ids_plant : (.plant label children siblings : Forest (NodeId × Content)).ids =
    label.1 :: (children.ids ++ siblings.ids) := by
  simp [ids, labels]

@[simp]
theorem ids_append (earlier later : Forest (NodeId × Content)) :
    (earlier ++ later).ids = earlier.ids ++ later.ids := by
  simp [ids]

@[simp]
theorem rootIds_empty : (.empty : Forest (NodeId × Content)).rootIds = [] := rfl

@[simp]
theorem rootIds_plant : (.plant label children siblings : Forest (NodeId × Content)).rootIds =
    label.1 :: siblings.rootIds := rfl

@[simp]
theorem ids_single : (single label children).ids = label.1 :: children.ids := by
  simp [single]

@[simp]
theorem rootIds_single : (single label children).rootIds = [label.1] := rfl

theorem plant_eq_single_append {Label : Type} (label : Label) (children siblings : Forest Label) :
    .plant label children siblings = single label children ++ siblings := rfl

theorem roots_append {Label : Type} (earlier later : Forest Label) :
    (earlier ++ later).roots = earlier.roots ++ later.roots := by
  induction earlier with
  | empty => rfl
  | plant label children siblings _ siblingsHypothesis =>
      rw [plant_append, roots, siblingsHypothesis]
      rfl

@[simp]
theorem rootIds_append (earlier later : Forest (NodeId × Content)) :
    (earlier ++ later).rootIds = earlier.rootIds ++ later.rootIds := by
  simp [rootIds, roots_append]

theorem append_assoc {Label : Type} (first second third : Forest Label) :
    first ++ second ++ third = first ++ (second ++ third) := by
  induction first with
  | empty => rfl
  | plant label children siblings _ siblingsHypothesis =>
      rw [plant_append, plant_append, plant_append, siblingsHypothesis]

@[simp]
theorem append_empty {Label : Type} (forest : Forest Label) : forest ++ .empty = forest := by
  induction forest with
  | empty => rfl
  | plant label children siblings _ siblingsHypothesis =>
      rw [plant_append, siblingsHypothesis]

@[simp]
theorem contents_empty : (.empty : Forest (NodeId × Content)).contents = .empty := rfl

@[simp]
theorem contents_plant : (.plant label children siblings : Forest (NodeId × Content)).contents =
    .plant label.2 children.contents siblings.contents := rfl

@[simp]
theorem contents_single : (single label children).contents = single label.2 children.contents :=
  rfl

theorem map_append {Label Other : Type} (relabel : Label → Other) (earlier later : Forest Label) :
    (earlier ++ later).map relabel = earlier.map relabel ++ later.map relabel := by
  induction earlier with
  | empty => rfl
  | plant label children siblings _ siblingsHypothesis =>
      rw [plant_append, map, map, plant_append, siblingsHypothesis]

@[simp]
theorem contents_append (earlier later : Forest (NodeId × Content)) :
    (earlier ++ later).contents = earlier.contents ++ later.contents :=
  map_append Prod.snd earlier later

/-! ## Growing forests -/

section Growing

variable {document edited : Document} {forest other : Forest (NodeId × Content)}

@[simp]
theorem growsIn_append {earlier later : Forest (NodeId × Content)} :
    (earlier ++ later).GrowsIn document ↔ earlier.GrowsIn document ∧ later.GrowsIn document := by
  induction earlier with
  | empty => simp [GrowsIn]
  | plant label children siblings _ siblingsHypothesis =>
      rw [plant_append, GrowsIn, GrowsIn, siblingsHypothesis]
      simp only [and_assoc]

@[simp]
theorem growsIn_single {label : NodeId × Content} {children : Forest (NodeId × Content)} :
    (single label children).GrowsIn document ↔
      document.content? label.1 = some label.2 ∧ document.children label.1 = children.rootIds ∧
        children.GrowsIn document := by
  simp [single, GrowsIn]

/-- Whether a forest grows in a document depends on the forest's own nodes alone. -/
theorem GrowsIn.of_same (grows : forest.GrowsIn document)
    (content : ∀ id ∈ forest.ids, edited.content? id = document.content? id)
    (children : ∀ id ∈ forest.ids, edited.children id = document.children id) :
    forest.GrowsIn edited := by
  induction forest with
  | empty => trivial
  | plant label below siblings childrenHypothesis siblingsHypothesis =>
      obtain ⟨carried, row, inside, beside⟩ := grows
      simp only [ids_plant, List.mem_cons, List.mem_append] at content children
      refine ⟨?_, ?_, ?_, ?_⟩
      · rw [content _ (Or.inl rfl), carried]
      · rw [children _ (Or.inl rfl), row]
      · exact childrenHypothesis inside (fun id member => content id (Or.inr (Or.inl member)))
          (fun id member => children id (Or.inr (Or.inl member)))
      · exact siblingsHypothesis beside (fun id member => content id (Or.inr (Or.inr member)))
          (fun id member => children id (Or.inr (Or.inr member)))

theorem GrowsIn.lt_size (grows : forest.GrowsIn document) {id : NodeId}
    (member : id ∈ forest.ids) : id < document.size := by
  induction forest with
  | empty => simp at member
  | plant label children siblings childrenHypothesis siblingsHypothesis =>
      obtain ⟨carried, _, inside, beside⟩ := grows
      simp only [ids_plant, List.mem_cons, List.mem_append] at member
      rcases member with rfl | below | after
      · exact Document.lt_size_of_content? carried
      · exact childrenHypothesis inside below
      · exact siblingsHypothesis beside after

theorem GrowsIn.content?_of_mem (grows : forest.GrowsIn document) {id : NodeId} {content : Content}
    (member : (id, content) ∈ forest.labels) : document.content? id = some content := by
  induction forest with
  | empty => simp [Forest.labels] at member
  | plant label children siblings childrenHypothesis siblingsHypothesis =>
      obtain ⟨carried, _, inside, beside⟩ := grows
      simp only [Forest.labels, List.mem_cons, List.mem_append] at member
      rcases member with rfl | below | after
      · exact carried
      · exact childrenHypothesis inside below
      · exact siblingsHypothesis beside after

theorem GrowsIn.mem_labels_iff (grows : forest.GrowsIn document) {id : NodeId} {content : Content} :
    (id, content) ∈ forest.labels ↔ id ∈ forest.ids ∧ document.content? id = some content := by
  constructor
  · exact fun member => ⟨List.mem_map_of_mem member, grows.content?_of_mem member⟩
  · rintro ⟨member, found⟩
    obtain ⟨⟨_, label⟩, isLabel, rfl⟩ := List.mem_map.1 member
    have same := grows.content?_of_mem isLabel
    rw [found, Option.some.injEq] at same
    exact same ▸ isLabel

end Growing

end Forest

namespace Document

open Relation

variable {document : Document}

/-- The trees below the node are the forest. -/
structure HasBelow (document : Document) (id : NodeId) (forest : Forest (NodeId × Content)) :
    Prop where
  row : document.children id = forest.rootIds
  grows : forest.GrowsIn document

namespace WellFormed

/-! ## Every row of children grows -/

theorem exists_hasBelow (wellFormed : WellFormed document) (id : NodeId) :
    ∃ forest, document.HasBelow id forest := by
  refine induction_on_children wellFormed.arranged wellFormed.acyclic
    (motive := fun id => ∃ forest, document.HasBelow id forest) ?_ id
  intro upper inductionHypothesis
  have rows : ∀ ids : List NodeId, ids ⊆ document.children upper →
      ∃ forest : Forest (NodeId × Content), forest.rootIds = ids ∧ forest.GrowsIn document := by
    intro ids
    induction ids with
    | nil => exact fun _ => ⟨.empty, rfl, trivial⟩
    | cons child rest restHypothesis =>
        intro within
        have member := within List.mem_cons_self
        obtain ⟨content, present⟩ := exists_content_of_lt
          (wellFormed.arranged.lt_size_of_mem member)
        obtain ⟨inside, row, grows⟩ := inductionHypothesis child member
        obtain ⟨beside, roots, besideGrows⟩ := restHypothesis
          (List.Subset.trans (List.subset_cons_self child rest) within)
        exact ⟨.plant (child, content) inside beside, by rw [Forest.rootIds_plant, roots],
          present, row, grows, besideGrows⟩
  obtain ⟨forest, roots, grows⟩ := rows _ (List.Subset.refl _)
  exact ⟨forest, roots.symm, grows⟩

/-! ## No node occurs twice -/

section Occurrences

variable {forest : Forest (NodeId × Content)} {id parent : NodeId}

/-- Every node of a growing forest lies below one of the roots. -/
theorem exists_root_above (wellFormed : WellFormed document) (grows : forest.GrowsIn document)
    (member : id ∈ forest.ids) :
    ∃ root ∈ forest.rootIds, ReflTransGen document.IsChild id root := by
  induction forest with
  | empty => simp at member
  | plant label children siblings childrenHypothesis siblingsHypothesis =>
      obtain ⟨_, row, inside, beside⟩ := grows
      simp only [Forest.ids_plant, List.mem_cons, List.mem_append] at member
      rcases member with rfl | below | after
      · exact ⟨label.1, by simp, ReflTransGen.refl⟩
      · obtain ⟨root, isRoot, path⟩ := childrenHypothesis inside below
        rw [← row] at isRoot
        exact ⟨label.1, by simp, path.tail (wellFormed.arranged.isChild_iff.2 isRoot)⟩
      · obtain ⟨root, isRoot, path⟩ := siblingsHypothesis beside after
        exact ⟨root, by simp [isRoot], path⟩

/-- Of two nodes that lie above the same node, one lies above the other. -/
theorem above_total {lower left right : NodeId} (toLeft : ReflTransGen document.IsChild lower left)
    (toRight : ReflTransGen document.IsChild lower right) :
    ReflTransGen document.IsChild left right ∨ ReflTransGen document.IsChild right left := by
  refine ReflTransGen.total_of_right_unique ?_ toLeft toRight
  intro child first second toFirst toSecond
  unfold IsChild at toFirst toSecond
  rw [toFirst, Option.some.injEq] at toSecond
  exact toSecond

theorem eq_of_siblings (wellFormed : WellFormed document) {left right : NodeId}
    (inRow : left ∈ document.children parent) (alsoInRow : right ∈ document.children parent)
    (above : ReflTransGen document.IsChild left right) : left = right := by
  rcases ReflTransGen.cases_head above with same | ⟨upper, child, path⟩
  · exact same
  · have parents := wellFormed.arranged.isChild_iff.2 inRow
    have same : upper = parent := by
      unfold IsChild at child parents
      rw [child, Option.some.injEq] at parents
      exact parents
    subst same
    exact absurd (TransGen.head' (wellFormed.arranged.isChild_iff.2 alsoInRow) path)
      (wellFormed.acyclic right)

/-- The nodes below children of one node are below one of them only. -/
theorem eq_of_above (wellFormed : WellFormed document) {left right : NodeId}
    (inRow : left ∈ document.children parent) (alsoInRow : right ∈ document.children parent)
    (toLeft : ReflTransGen document.IsChild id left)
    (toRight : ReflTransGen document.IsChild id right) : left = right := by
  rcases above_total toLeft toRight with above | above
  · exact wellFormed.eq_of_siblings inRow alsoInRow above
  · exact (wellFormed.eq_of_siblings alsoInRow inRow above).symm

theorem nodup_ids (wellFormed : WellFormed document) (grows : forest.GrowsIn document)
    (within : forest.rootIds ⊆ document.children parent) (distinct : forest.rootIds.Nodup) :
    forest.ids.Nodup := by
  induction forest generalizing parent with
  | empty => exact List.nodup_nil
  | plant label children siblings childrenHypothesis siblingsHypothesis =>
      obtain ⟨_, row, inside, beside⟩ := grows
      rw [Forest.rootIds_plant] at within distinct
      have inRow := within List.mem_cons_self
      have siblingsWithin := List.Subset.trans (List.subset_cons_self _ _) within
      have below : ∀ {other}, other ∈ children.ids → TransGen document.IsChild other label.1 := by
        intro other member
        obtain ⟨root, isRoot, path⟩ := wellFormed.exists_root_above inside member
        rw [← row] at isRoot
        exact TransGen.tail' path (wellFormed.arranged.isChild_iff.2 isRoot)
      have beside_not_below : ∀ {other}, other ∈ siblings.ids →
          ¬ ReflTransGen document.IsChild other label.1 := by
        intro other member path
        obtain ⟨root, isRoot, toRoot⟩ := wellFormed.exists_root_above beside member
        have same := wellFormed.eq_of_above inRow (siblingsWithin isRoot) path toRoot
        exact (List.nodup_cons.1 distinct).1 (same ▸ isRoot)
      rw [Forest.ids_plant, List.nodup_cons, List.nodup_append']
      refine ⟨?_, ?_, ?_, ?_⟩
      · intro again
        rcases List.mem_append.1 again with inner | after
        · exact wellFormed.acyclic _ (below inner)
        · exact beside_not_below after ReflTransGen.refl
      · exact childrenHypothesis inside (by rw [row]; exact List.Subset.refl _)
          (row ▸ wellFormed.arranged.nodup label.1)
      · exact siblingsHypothesis beside siblingsWithin (List.nodup_cons.1 distinct).2
      · intro other inner after
        exact beside_not_below after (below inner).to_reflTransGen

end Occurrences

end WellFormed

/-! ## What following the links finds -/

namespace HasBelow

variable {forest : Forest (NodeId × Content)} {id : NodeId}

theorem nodup_ids (hasBelow : document.HasBelow id forest) (wellFormed : WellFormed document) :
    forest.ids.Nodup :=
  wellFormed.nodup_ids hasBelow.grows (by rw [hasBelow.row]; exact List.Subset.refl _)
    (hasBelow.row ▸ wellFormed.arranged.nodup id)

theorem length_labels_le (hasBelow : document.HasBelow id forest)
    (wellFormed : WellFormed document) : forest.labels.length ≤ document.size := by
  have within : forest.ids ⊆ List.range document.size := fun other member =>
    List.mem_range.2 (hasBelow.grows.lt_size member)
  have bound := ((hasBelow.nodup_ids wellFormed).subperm within).length_le
  rwa [List.length_range, Forest.ids, List.length_map] at bound

end HasBelow

/-- Enough room given, the links span the growing forest. -/
theorem forestFrom_eq (arranged : document.Arranged document.children)
    {forest : Forest (NodeId × Content)} (grows : forest.GrowsIn document) {parent : NodeId}
    {earlier : List NodeId} (row : document.children parent = earlier ++ forest.rootIds)
    {limit : Nat} (room : forest.labels.length ≤ limit) :
    document.forestFrom limit forest.rootIds.head? = forest := by
  induction forest generalizing parent earlier limit with
  | empty => cases limit <;> rfl
  | plant label children siblings childrenHypothesis siblingsHypothesis =>
      obtain ⟨carried, below, inside, beside⟩ := grows
      cases limit with
      | zero => simp [Forest.labels] at room
      | succ limit =>
          simp only [Forest.labels, List.length_cons, List.length_append] at room
          rw [Forest.rootIds_plant] at row ⊢
          unfold content? at carried
          obtain ⟨node, found, same⟩ := Option.map_eq_some_iff.1 carried
          have first : node.firstChild = children.rootIds.head? := by
            rw [← below, ← arranged.firstChild, firstChild?, found]
            rfl
          have next : node.nextSibling = siblings.rootIds.head? := by
            rw [← (arranged.child row).2.2, nextSibling?, found]
            rfl
          have inRow : document.children label.1 = [] ++ children.rootIds := below
          have behind : document.children parent = (earlier ++ [label.1]) ++ siblings.rootIds := by
            rw [row]
            simp
          have inner : document.forestFrom limit children.rootIds.head? = children :=
            childrenHypothesis inside inRow (by omega)
          have after : document.forestFrom limit siblings.rootIds.head? = siblings :=
            siblingsHypothesis beside behind (by omega)
          simp only [List.head?_cons, forestFrom, found, first, next, inner, after, same]

theorem HasBelow.below_eq {forest : Forest (NodeId × Content)} {id : NodeId}
    (hasBelow : document.HasBelow id forest) (wellFormed : WellFormed document) :
    document.below id = forest := by
  unfold below
  rw [wellFormed.arranged.firstChild, hasBelow.row]
  have row : document.children id = [] ++ forest.rootIds := hasBelow.row
  exact forestFrom_eq wellFormed.arranged hasBelow.grows row (hasBelow.length_labels_le wellFormed)

theorem WellFormed.hasBelow_below (wellFormed : WellFormed document) (id : NodeId) :
    document.HasBelow id (document.below id) := by
  obtain ⟨forest, hasBelow⟩ := wellFormed.exists_hasBelow id
  rwa [hasBelow.below_eq wellFormed]

/-- What stands below a node is the same if none of it has changed. -/
theorem below_eq_of_same {old new : Document} (oldFormed : old.WellFormed)
    (newFormed : new.WellFormed) {root : NodeId}
    (content : ∀ id, ReflTransGen old.IsChild id root → new.content? id = old.content? id)
    (children : ∀ id, ReflTransGen old.IsChild id root → new.children id = old.children id) :
    new.below root = old.below root := by
  have hasBelow := oldFormed.hasBelow_below root
  have above : ∀ {id}, id ∈ (old.below root).ids → ReflTransGen old.IsChild id root := by
    intro id member
    obtain ⟨top, isTop, path⟩ := oldFormed.exists_root_above hasBelow.grows member
    rw [← hasBelow.row] at isTop
    exact path.tail (oldFormed.arranged.isChild_iff.2 isTop)
  refine HasBelow.below_eq ⟨?_, ?_⟩ newFormed
  · rw [children root ReflTransGen.refl, hasBelow.row]
  · exact hasBelow.grows.of_same (fun id member => content id (above member))
      fun id member => children id (above member)

end Document

end MarkupTemplate
