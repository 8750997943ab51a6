import MarkupTemplate.Document.Copy
import MarkupTemplate.Proofs.Document.Edits
import MarkupTemplate.Proofs.Document.Tree

/-!
# Planting and copying trees

A forest is planted by creating its nodes in document order, so the new nodes are numbered on from
those that were there before.  Nothing else changes but the row of the parent, at whose end the
planted trees stand; and a copy of a tree is what was copied, under new numbers.
-/

namespace MarkupTemplate

/-! ## Forests to plant -/

namespace Forest

/-- The forest can be planted: it holds no fragment and no attribute name twice in an element, and
only elements have children. -/
def Fits : Forest Content → Prop
  | .empty => True
  | .plant content children siblings =>
      content ≠ .fragment ∧ content.HasDistinctNames ∧
        (children ≠ .empty → content.mayHaveChildren = true) ∧ children.Fits ∧ siblings.Fits

/-- The forest with its nodes numbered in document order. -/
def numbered (start : Nat) : Forest Content → Forest (NodeId × Content)
  | .empty => .empty
  | .plant content children siblings =>
      .plant (start, content) (children.numbered (start + 1))
        (siblings.numbered (start + 1 + children.labels.length))

@[simp]
theorem contents_numbered (start : Nat) (forest : Forest Content) :
    (forest.numbered start).contents = forest := by
  induction forest generalizing start with
  | empty => rfl
  | plant content children siblings childrenHypothesis siblingsHypothesis =>
      rw [numbered, contents_plant, childrenHypothesis, siblingsHypothesis]

theorem mem_ids_numbered {start id : Nat} {forest : Forest Content}
    (member : id ∈ (forest.numbered start).ids) :
    start ≤ id ∧ id < start + forest.labels.length := by
  induction forest generalizing start with
  | empty => simp [numbered] at member
  | plant content children siblings childrenHypothesis siblingsHypothesis =>
      simp only [numbered, ids_plant, List.mem_cons, List.mem_append] at member
      simp only [labels, List.length_cons, List.length_append]
      rcases member with rfl | below | after
      · omega
      · have bounds := childrenHypothesis below
        omega
      · have bounds := siblingsHypothesis after
        omega

theorem rootIds_eq_nil_iff {forest : Forest (NodeId × Content)} :
    forest.rootIds = [] ↔ forest = .empty := by
  cases forest <;> simp

theorem contents_eq_empty_iff {forest : Forest (NodeId × Content)} :
    forest.contents = .empty ↔ forest = .empty := by
  cases forest <;> simp

theorem GrowsIn.fits {document : Document} {forest : Forest (NodeId × Content)}
    (grows : forest.GrowsIn document) (wellFormed : document.WellFormed) {parent : NodeId}
    (within : forest.rootIds ⊆ document.children parent) : forest.contents.Fits := by
  induction forest generalizing parent with
  | empty => trivial
  | plant label children siblings childrenHypothesis siblingsHypothesis =>
      obtain ⟨carried, row, inside, beside⟩ := grows
      rw [rootIds_plant] at within
      refine ⟨?_, wellFormed.distinct carried, ?_, ?_, ?_⟩
      · intro fragment
        rw [fragment] at carried
        exact wellFormed.fragment_not_mem carried parent (within List.mem_cons_self)
      · intro nonempty
        apply wellFormed.container carried
        rw [row]
        exact fun none => nonempty (contents_eq_empty_iff.2 (rootIds_eq_nil_iff.1 none))
      · exact childrenHypothesis inside (by rw [row]; exact List.Subset.refl _)
      · exact siblingsHypothesis beside (List.Subset.trans (List.subset_cons_self _ _) within)

end Forest

namespace Document

/-! ## Planting -/

/-- The document is the old one with the forest as the last trees below the parent. -/
structure PlantedIn (old new : Document) (parent : NodeId) (forest : Forest Content) : Prop where
  wellFormed : WellFormed new
  content? : ∀ {id : Nat}, id < old.size → new.content? id = old.content? id
  children : ∀ {id : Nat}, id < old.size → id ≠ parent → new.children id = old.children id
  mem_children : ∀ {id : Nat}, id < old.size →
    ∀ upper, id ∈ new.children upper ↔ id ∈ old.children upper
  row : new.children parent = old.children parent ++ (forest.numbered old.size).rootIds
  grows : (forest.numbered old.size).GrowsIn new

theorem plant_append (document : Document) (parent : NodeId) (earlier later : Forest Content) :
    document.plant parent (earlier ++ later) =
      (document.plant parent earlier).plant parent later := by
  induction earlier generalizing document with
  | empty => rfl
  | plant content children siblings _ siblingsHypothesis =>
      rw [Forest.plant_append, plant, plant, siblingsHypothesis]

theorem plantedIn_plant {document : Document} (wellFormed : WellFormed document)
    {parent : Nat} (present : parent < document.size) {forest : Forest Content}
    (container : forest ≠ .empty →
      ∃ content, document.content? parent = some content ∧ content.mayHaveChildren = true)
    (fits : forest.Fits) :
    PlantedIn document (document.plant parent forest) parent forest := by
  induction forest generalizing document parent with
  | empty =>
      exact ⟨wellFormed, fun _ => rfl, fun _ _ => rfl, fun _ _ => Iff.rfl,
        (List.append_nil _).symm, trivial⟩
  | plant content children siblings childrenHypothesis siblingsHypothesis =>
      obtain ⟨notFragment, distinct, holds, childrenFit, siblingsFit⟩ := fits
      obtain ⟨upper, found, may⟩ := container (by simp)
      -- the root of the first tree
      have createdFormed := wellFormed.createIn found may distinct notFragment
      have createdRows := wellFormed.children_createIn found may distinct notFragment
      have createdSize := size_createIn document parent content
      have fresh : document.size ≠ parent := Nat.ne_of_gt present
      -- the trees below it
      have created : document.size < (document.createIn parent content).1.size := by
        rw [createdSize]
        exact Nat.lt_succ_self _
      have inner := childrenHypothesis createdFormed created
        (fun nonempty => ⟨content, by simp, holds nonempty⟩) childrenFit
      have innerSize := size_plant (document.createIn parent content).1 document.size children
      rw [createdSize] at innerSize
      -- the trees after it
      have still : parent <
          ((document.createIn parent content).1.plant document.size children).size := by
        rw [innerSize]
        omega
      have after := siblingsHypothesis inner.wellFormed still
        (fun _ => ⟨upper, by
          rw [inner.content? (by rw [createdSize]; omega), content?_createIn,
            if_neg (Ne.symm fresh), found], may⟩) siblingsFit
      have start := inner.grows
      have next := after.grows
      have nextRow := after.row
      rw [createdSize] at start
      rw [innerSize] at next nextRow
      have made : document.plant parent (.plant content children siblings) =
          ((document.createIn parent content).1.plant document.size children).plant parent
            siblings := rfl
      rw [made]
      refine ⟨after.wellFormed, ?_, ?_, ?_, ?_, ?_, ?_, ?_, ?_⟩
      · intro id old
        rw [after.content? (by rw [innerSize]; omega), inner.content? (by rw [createdSize]; omega),
          content?_createIn, if_neg (Nat.ne_of_lt old)]
      · intro id old different
        rw [after.children (by rw [innerSize]; omega) different,
          inner.children (by rw [createdSize]; omega) (Nat.ne_of_lt old), createdRows,
          Function.update_of_ne different]
      · intro id old upper
        rw [after.mem_children (by rw [innerSize]; omega),
          inner.mem_children (by rw [createdSize]; omega), createdRows]
        by_cases same : upper = parent
        · subst same
          simp [Nat.ne_of_lt old]
        · rw [Function.update_of_ne same]
      · rw [nextRow, inner.children (by rw [createdSize]; omega) (Ne.symm fresh),
          createdRows, Function.update_self, Forest.numbered, Forest.rootIds_plant,
          List.append_assoc]
        rfl
      · rw [after.content? (by rw [innerSize]; omega), inner.content? (by rw [createdSize]; omega),
          content?_createIn, if_pos rfl]
      · have row := inner.row
        rw [createdSize, createdRows, Function.update_of_ne fresh, wellFormed.children_size,
          List.nil_append] at row
        rw [after.children (by rw [innerSize]; omega) fresh]
        exact row
      · refine start.of_same ?_ ?_
        · intro id member
          have bounds := Forest.mem_ids_numbered member
          exact after.content? (by rw [innerSize]; omega)
        · intro id member
          have bounds := Forest.mem_ids_numbered member
          exact after.children (by rw [innerSize]; omega) (by omega)
      · exact next

/-! ## Copying -/

/-- A copy of the node and the trees below it stands in the new document, apart from all that was
there before. -/
structure CopiedIn (old new : Document) (root : NodeId) (content : Content)
    (forest : Forest Content) : Prop where
  wellFormed : WellFormed new
  content? : ∀ {id : Nat}, id < old.size → new.content? id = old.content? id
  children : ∀ {id : Nat}, id < old.size → new.children id = old.children id
  mem_children : ∀ {id : Nat}, id < old.size →
    ∀ upper, id ∈ new.children upper ↔ id ∈ old.children upper
  copied : new.content? root = some content
  orphan : new.parent? root = none
  hasBelow : new.HasBelow root (forest.numbered (old.size + 1))

/-- A new node with the planted trees below it. -/
theorem copiedIn_plant {document : Document} (wellFormed : WellFormed document)
    {content : Content} (distinct : content.HasDistinctNames) {forest : Forest Content}
    (container : forest ≠ .empty → content.mayHaveChildren = true) (fits : forest.Fits) :
    CopiedIn document ((document.create content).1.plant document.size forest) document.size
      content forest := by
  have created := wellFormed.create distinct
  have within : document.size < (document.create content).1.size := by
    rw [size_create]
    exact Nat.lt_succ_self _
  have planted := plantedIn_plant created within
    (fun nonempty => ⟨content, by rw [content?_create, if_pos rfl], container nonempty⟩) fits
  have rows := wellFormed.children_create content
  have grows := planted.grows
  have row := planted.row
  rw [size_create] at grows row
  rw [rows, wellFormed.children_size, List.nil_append] at row
  refine ⟨planted.wellFormed, ?_, ?_, ?_, ?_, ?_, row, grows⟩
  · intro id old
    rw [planted.content? (by rw [size_create]; omega), content?_create,
      if_neg (Nat.ne_of_lt old)]
  · intro id old
    rw [planted.children (by rw [size_create]; omega) (Nat.ne_of_lt old), rows]
  · intro id old upper
    rw [planted.mem_children (by rw [size_create]; omega), rows]
  · rw [planted.content? (by rw [size_create]; omega), content?_create, if_pos rfl]
  · refine (planted.wellFormed.arranged.orphan ?_).1
    intro parent member
    rw [planted.mem_children (by rw [size_create]; omega), rows] at member
    exact wellFormed.not_mem_children_size parent member

/-- A copy that is made is made of the source's node and everything below it. -/
theorem copiedIn_of_copyFrom {document source copied : Document} {id root : NodeId}
    (wellFormed : WellFormed document) (sourceFormed : WellFormed source)
    (made : document.copyFrom source id = .ok (copied, root)) :
    ∃ content, source.content? id = some content ∧ root = document.size ∧
      CopiedIn document copied root content (source.below id).contents := by
  unfold copyFrom at made
  cases present : source.content? id with
  | none => simp [present] at made
  | some content =>
      simp only [present, Except.ok.injEq, Prod.mk.injEq] at made
      obtain ⟨rfl, rfl⟩ := made
      have below := sourceFormed.hasBelow_below id
      refine ⟨content, rfl, rfl, ?_⟩
      refine copiedIn_plant wellFormed (sourceFormed.distinct present) ?_ ?_
      · intro nonempty
        apply sourceFormed.container present
        rw [below.row]
        exact fun none => nonempty
          (Forest.contents_eq_empty_iff.2 (Forest.rootIds_eq_nil_iff.1 none))
      · exact below.grows.fits sourceFormed (by rw [below.row]; exact List.Subset.refl _)

end Document

end MarkupTemplate
