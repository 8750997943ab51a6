import MarkupTemplate.Proofs.Anchor.Updates
import MarkupTemplate.Proofs.Document.Tree
import MarkupTemplate.Proofs.Reachable

/-!
# The law of a region

Wherever the two siblings of an anchor stand, and whatever was put between them by other means,
binding the anchor does one thing: the filling of the value takes the place of what was there.
What is taken out of the region keeps the tree below it, but for a node that the value took from
there.  Once a region is bound, to bind it again to the same value changes nothing, unless the
value is a fragment, which is empty by then.
-/

namespace MarkupTemplate

open Document Relation

/-! ## Trees without some nodes -/

namespace Forest

/-- The forest without the trees of some nodes. -/
def without (taken : List NodeId) : Forest (NodeId × Content) → Forest (NodeId × Content)
  | .empty => .empty
  | .plant label children siblings =>
      if label.1 ∈ taken then siblings.without taken
      else .plant label (children.without taken) (siblings.without taken)

variable {taken : List NodeId}

theorem rootIds_without (taken : List NodeId) (forest : Forest (NodeId × Content)) :
    (forest.without taken).rootIds = forest.rootIds.filter (· ∉ taken) := by
  induction forest with
  | empty => rfl
  | plant label children siblings _ siblingsHypothesis =>
      rw [without, rootIds_plant]
      by_cases gone : label.1 ∈ taken
      · rw [if_pos gone, siblingsHypothesis, List.filter_cons_of_neg (by simpa using gone)]
      · rw [if_neg gone, rootIds_plant, siblingsHypothesis,
          List.filter_cons_of_pos (by simpa using gone)]

/-- What grew in a document grows on without the nodes that were taken from every row. -/
theorem GrowsIn.without {old new : Document} {forest : Forest (NodeId × Content)}
    (grows : forest.GrowsIn old)
    (content : ∀ id ∈ forest.ids, new.content? id = old.content? id)
    (children : ∀ id ∈ forest.ids, new.children id = (old.children id).filter (· ∉ taken)) :
    (forest.without taken).GrowsIn new := by
  induction forest with
  | empty => trivial
  | plant label below siblings childrenHypothesis siblingsHypothesis =>
      obtain ⟨carried, row, inside, beside⟩ := grows
      simp only [ids_plant, List.mem_cons, List.mem_append] at content children
      have siblingsGrow := siblingsHypothesis beside
        (fun id member => content id (Or.inr (Or.inr member)))
        (fun id member => children id (Or.inr (Or.inr member)))
      rw [Forest.without]
      split
      · exact siblingsGrow
      · refine ⟨?_, ?_, ?_, siblingsGrow⟩
        · rw [content _ (Or.inl rfl), carried]
        · rw [children _ (Or.inl rfl), row, rootIds_without]
        · exact childrenHypothesis inside
            (fun id member => content id (Or.inr (Or.inl member)))
            (fun id member => children id (Or.inr (Or.inl member)))

end Forest

/-- What stands below a node stays but for the nodes that were taken from every row. -/
theorem Document.below_eq_without {old new : Document} (oldFormed : old.WellFormed)
    (newFormed : new.WellFormed) {root : NodeId} {taken : List NodeId}
    (content : ∀ id, TransGen old.IsChild id root → new.content? id = old.content? id)
    (children : ∀ id, ReflTransGen old.IsChild id root →
      new.children id = (old.children id).filter (· ∉ taken)) :
    new.below root = (old.below root).without taken := by
  have hasBelow := oldFormed.hasBelow_below root
  have above : ∀ {id}, id ∈ (old.below root).ids → TransGen old.IsChild id root := by
    intro id member
    obtain ⟨top, isTop, path⟩ := oldFormed.exists_root_above hasBelow.grows member
    rw [← hasBelow.row] at isTop
    exact TransGen.tail' path (oldFormed.arranged.isChild_iff.2 isTop)
  refine HasBelow.below_eq ⟨?_, ?_⟩ newFormed
  · rw [children root ReflTransGen.refl, hasBelow.row, Forest.rootIds_without]
  · exact hasBelow.grows.without (fun id member => content id (above member))
      fun id member => children id (above member).to_reflTransGen

namespace Anchor

variable {document : Document} {before : Option NodeId} {parent after : NodeId}
  {left region right : List NodeId} {value : Value}

/-! ## Where a region stands -/

/-- The row in which an anchor stands whose first sibling, if it has one, is ahead of the second. -/
theorem exists_row_of_ahead (wellFormed : document.WellFormed)
    (above : document.parent? after = some parent)
    (ahead : ∀ first, before = some first → first ∈ document.earlierSiblings after) :
    ∃ left right, left.getLast? = before ∧
      document.children parent =
        left ++ (regionNodes document (.region before after) ++ after :: right) := by
  obtain ⟨earlier, right, shape⟩ :=
    List.append_of_mem (wellFormed.arranged.parent?_eq_some_iff.1 above)
  have parted : ∃ left region, left.getLast? = before ∧ earlier = left ++ region := by
    cases before with
    | none => exact ⟨[], earlier, rfl, rfl⟩
    | some first =>
        have member := ahead first rfl
        rw [wellFormed.arranged.earlierSiblings_eq shape, List.mem_reverse] at member
        obtain ⟨left, region, rfl⟩ := List.append_of_mem member
        exact ⟨left ++ [first], region, List.getLast?_concat, by simp⟩
  obtain ⟨left, region, last, rfl⟩ := parted
  have row : document.children parent = left ++ (region ++ after :: right) := by
    rw [shape, List.append_assoc]
  refine ⟨left, right, last, ?_⟩
  rw [← last, regionNodes_of_row wellFormed row, row]

/-! ## Binding a region -/

/-- The value may be bound to a region between these siblings in the row of the parent: if it is a
node, then one that exists and is neither of the siblings, nor the parent or a node above it. -/
def Suits (document : Document) (parent : NodeId) (before : Option NodeId) (after : NodeId)
    (value : Value) : Prop :=
  ∀ id, value = .node id → id < document.size ∧ ¬ ReflTransGen document.IsChild parent id ∧
    id ≠ after ∧ before ≠ some id

/-- A region in the row of a parent was bound to a value. -/
structure Binds (old new : Document) (parent : NodeId) (left right : List NodeId)
    (before : Option NodeId) (after : NodeId) (region : List NodeId) (value : Value) : Prop where
  wellFormed : new.WellFormed
  /-- The region holds the filling of the value. -/
  holds : regionNodes new (.region before after) = fillingOf old region value
  /-- The filling takes the place of the region, and the rest of the row keeps its order. -/
  row : new.children parent = left.filter (· ∉ takenBy old value) ++
    (fillingOf old region value ++ after :: right.filter (· ∉ takenBy old value))
  rows : ∀ id, id ≠ parent →
    new.children id = (old.children id).filter (· ∉ takenBy old value)
  emptied : ∀ id, value = .node id → old.content? id = some .fragment → new.children id = []
  content? : ∀ id, new.content? id = contentAfter old region id value
  /-- What was in the region before is alone with the tree below it. -/
  removed : ∀ id ∈ region, id ∉ fillingOf old region value → new.parent? id = none ∧
    new.below id = (old.below id).without (takenBy old value)

section Binding

variable (wellFormed : document.WellFormed)
  (row : document.children parent = left ++ (region ++ after :: right))
  (suits : Suits document parent left.getLast? after value)

include wellFormed row suits

/-- Neither the siblings nor the parent are taken elsewhere. -/
theorem not_mem_takenBy :
    after ∉ takenBy document value ∧ ∀ first, left.getLast? = some first →
      first ∉ takenBy document value := by
  cases value with
  | node id =>
      obtain ⟨_, apart, notAfter, notBefore⟩ := suits id rfl
      have outside : ∀ {sibling}, sibling ∈ document.children parent → sibling ≠ id →
          sibling ∉ carried document id := by
        intro sibling inRow different
        unfold carried
        split
        · intro below
          obtain rfl := wellFormed.arranged.eq_of_mem inRow below
          exact apart ReflTransGen.refl
        · simpa using different
      refine ⟨outside (by rw [row]; simp) (Ne.symm notAfter), fun first last => ?_⟩
      refine outside ?_ fun same => notBefore (same ▸ last)
      rw [row]
      exact List.mem_append_left _ (List.mem_of_getLast? last)
  | _ => exact ⟨List.not_mem_nil, fun _ _ => List.not_mem_nil⟩

theorem filter_around :
    (after :: right).filter (· ∉ takenBy document value) =
        after :: right.filter (· ∉ takenBy document value) ∧
      (left.filter (· ∉ takenBy document value)).getLast? = left.getLast? := by
  obtain ⟨stays, first⟩ := not_mem_takenBy wellFormed row suits
  refine ⟨List.filter_cons_of_pos (by simpa using stays), ?_⟩
  cases left using List.reverseRecOn with
  | nil => rfl
  | append_singleton front last =>
      have kept : last ∉ takenBy document value := first last List.getLast?_concat
      rw [List.filter_append, List.filter_cons_of_pos (by simpa using kept), List.filter_nil,
        List.getLast?_concat, List.getLast?_concat]

omit suits in
/-- What stands below the nodes of a region is what it was. -/
theorem contentAfter_of_below {id lower : NodeId} (member : id ∈ region)
    (path : TransGen document.IsChild lower id) :
    contentAfter document region lower value = document.content? lower := by
  cases value with
  | text data =>
      have inRow : ∀ {other}, other ∈ region → other ∈ document.children parent := by
        intro other inRegion
        rw [row]
        simp [inRegion]
      refine if_neg ?_
      rintro rfl
      rcases textPlace_mem_or document region with inRegion | fresh
      · have same := wellFormed.eq_of_siblings (inRow inRegion) (inRow member) path.to_reflTransGen
        exact wellFormed.acyclic id (same ▸ path)
      · obtain ⟨upper, child, _⟩ := TransGen.head'_iff.1 path
        rw [fresh] at child
        exact wellFormed.not_mem_children_size upper (wellFormed.arranged.isChild_iff.1 child)
  | _ => rfl

/-- A value that is admitted is bound, and the filling takes the place of the region. -/
theorem binds_update :
    (update document (.region left.getLast? after) value).outcome = .ok () ∧
      Binds document (update document (.region left.getLast? after) value).document parent left
        right left.getLast? after region value := by
  have mayStand : ∀ id, value = .node id → id < document.size ∧
      document.isInclusiveAncestor id parent = false ∧ id ≠ after ∧ left.getLast? ≠ some id := by
    intro id isNode
    obtain ⟨present, apart, notAfter, notBefore⟩ := suits id isNode
    rw [← isInclusiveAncestor_iff wellFormed.arranged wellFormed.acyclic, Bool.not_eq_true] at apart
    exact ⟨present, apart, notAfter, notBefore⟩
  obtain ⟨outcome, refills, contents⟩ := refills_update wellFormed row mayStand
  obtain ⟨behind, last⟩ := filter_around wellFormed row suits
  have filled := refills.row
  rw [behind] at filled
  have found := regionNodes_of_row refills.wellFormed filled
  rw [last] at found
  refine ⟨outcome, refills.wellFormed, found, filled,
    fun id different => refills.children different, ?_, contents, ?_⟩
  · rintro id rfl fragment
    obtain ⟨_, apart, _⟩ := suits id rfl
    have different : id ≠ parent := by
      rintro rfl
      exact apart ReflTransGen.refl
    have all : takenBy document (.node id) = document.children id := if_pos fragment
    rw [refills.children different, all]
    exact List.filter_eq_nil_iff.2 fun _ member => by simpa using member
  · intro id member removed
    have inRow : id ∈ document.children parent := by
      rw [row]
      simp [member]
    refine ⟨(refills.wellFormed.arranged.orphan fun other => ?_).1, ?_⟩
    · by_cases same : other = parent
      · obtain ⟨notLeft, notBehind⟩ := not_mem_beside wellFormed row member
        subst same
        rw [refills.row, List.mem_append, List.mem_append, List.mem_filter, List.mem_filter]
        simp [notLeft, notBehind, removed]
      · rw [refills.children same]
        intro inOther
        exact same (wellFormed.arranged.eq_of_mem (List.mem_filter.1 inOther).1 inRow)
    · refine below_eq_without wellFormed refills.wellFormed (fun lower path => ?_)
        fun lower path => refills.children ?_
      · rw [contents]
        exact contentAfter_of_below wellFormed row member path
      · rintro rfl
        exact wellFormed.acyclic id
          (TransGen.head' (wellFormed.arranged.isChild_iff.2 inRow) path)

end Binding

/-- To bind a region again to the same value, unless it is a fragment, changes nothing. -/
theorem update_again {new : Document}
    (binds : Binds document new parent left right before after region value)
    (suits : Suits document parent before after value)
    (single : ∀ id, value = .node id → document.content? id ≠ some .fragment) :
    (update new (.region before after) value).outcome = .ok () ∧
      (update new (.region before after) value).document = new := by
  have holds := binds.holds
  have contents := binds.content?
  cases value with
  | text data =>
      have found : new.content? (textPlace document region) = some (.text data) :=
        (contents _).trans (if_pos rfl)
      have text : isText new (textPlace document region) = true := by
        unfold isText
        rw [found]
        rfl
      have search : [textPlace document region].find? (isText new) =
          some (textPlace document region) := by
        rw [List.find?_cons_of_pos text]
      simp only [update, Attempt.logged, updateRegion, holds, fillingOf, fillWithText, search]
      refine ⟨trivial, ?_⟩
      rw [setContent_eq_self found, List.filter_cons_of_neg (by simp), List.filter_nil]
      rfl
  | node id =>
      obtain ⟨_, _, notAfter, notBefore⟩ := suits id rfl
      have alone : carried document id = [id] := if_neg (single id rfl)
      simp only [update, Attempt.logged, updateRegion, holds, fillingOf, alone, fillWithNode]
      rw [if_neg (not_or.2 ⟨notAfter, notBefore⟩), if_pos (by simp)]
      refine ⟨rfl, ?_⟩
      rw [List.filter_cons_of_neg (by simp), List.filter_nil]
      rfl
  | _ =>
      simp only [update, Attempt.logged, updateRegion, holds, fillingOf]
      exact ⟨trivial, rfl⟩

/-- Binding a region to a value puts the filling of the value in its place, whatever it holds and
wherever the filling was, and to bind it again changes nothing. -/
theorem binds_region (wellFormed : document.WellFormed)
    (above : document.parent? after = some parent)
    (ahead : ∀ first, before = some first → first ∈ document.earlierSiblings after)
    (suits : Suits document parent before after value) :
    let region := regionNodes document (.region before after)
    let bound := update document (.region before after) value
    ∃ left right, left.getLast? = before ∧
      document.children parent = left ++ (region ++ after :: right) ∧
      bound.outcome = .ok () ∧
      Binds document bound.document parent left right before after region value ∧
      ((∀ id, value = .node id → document.content? id ≠ some .fragment) →
        (update bound.document (.region before after) value).outcome = .ok () ∧
        (update bound.document (.region before after) value).document = bound.document) := by
  intro region bound
  obtain ⟨left, right, rfl, row⟩ := exists_row_of_ahead wellFormed above ahead
  obtain ⟨outcome, binds⟩ := binds_update wellFormed row suits
  exact ⟨left, right, rfl, row, outcome, binds, fun single => update_again binds suits single⟩

/-- An element is replaced by the text in it, which leaves it empty. -/
theorem binds_region_of_inner_text :
    let document := ((((((((Document.empty.perform .createFragment).perform
      (.createText "a")).perform (.createElement "p")).perform (.createText "b")).perform
      .createBoundary).perform (.append 0 1)).perform (.append 0 2)).perform (.append 2 3)).perform
      (.append 0 4)
    let bound := update document (.region (some 1) 4) (.node 3)
    document.children 0 = [1, 2, 4] ∧ document.children 2 = [3] ∧
      bound.document.children 0 = [1, 3, 4] ∧ bound.document.children 2 = [] ∧
      (∃ left right, left.getLast? = some 1 ∧
        document.children 0 = left ++ ([2] ++ 4 :: right) ∧ bound.outcome = .ok () ∧
        Binds document bound.document 0 left right (some 1) 4 [2] (.node 3) ∧
        ((∀ id, Value.node 3 = .node id → document.content? id ≠ some .fragment) →
          (update bound.document (.region (some 1) 4) (.node 3)).outcome = .ok () ∧
          (update bound.document (.region (some 1) 4) (.node 3)).document = bound.document)) := by
  intro document bound
  have reachable : document.Reachable :=
    ((((((((Reachable.empty.onward rfl rfl).onward rfl rfl).onward rfl rfl).onward rfl rfl).onward
      rfl rfl).onward rfl rfl).onward rfl rfl).onward rfl rfl).onward rfl rfl
  have wellFormed := reachable.wellFormed
  have found : regionNodes document (.region (some 1) 4) = [2] := by decide
  have above : document.parent? 4 = some 0 := by decide
  have ahead : ∀ first, some 1 = some first → first ∈ document.earlierSiblings 4 := by
    rintro first ⟨⟩
    decide
  have suits : Suits document 0 (some 1) 4 (.node 3) := by
    rintro id ⟨⟩
    rw [← isInclusiveAncestor_iff wellFormed.arranged wellFormed.acyclic]
    decide
  have law := binds_region wellFormed above ahead suits
  rw [found] at law
  exact ⟨by decide, by decide, by decide, by decide, law⟩

end Anchor

end MarkupTemplate
