import MarkupTemplate.Proofs.Document.Destinations
import MarkupTemplate.Proofs.Instance.Creation

/-!
# Refused instances

Values are bound to the slots of a new instance one after the other, and whatever was bound before
a value is refused stays bound.  A caller who is refused an instance finds the old document with
some nodes missing from their rows: those that the values before the refused one put into regions.
Nothing else that was there before has changed.
-/

namespace MarkupTemplate

open Document Relation

/-! ## Insertions before a node -/

theorem Destination.put_before_subset (reference : NodeId) (ids row : List NodeId) :
    (Destination.before reference).put ids row ⊆ row ++ ids := by
  intro id member
  obtain ⟨place, inRow, here⟩ := List.mem_flatMap.1 member
  split at here
  · rcases List.mem_append.1 here with inIds | single
    · exact List.mem_append_right _ inIds
    · exact List.mem_append_left _ (List.mem_singleton.1 single ▸ inRow)
  · exact List.mem_append_left _ (List.mem_singleton.1 here ▸ inRow)

/-- What an insertion carries leaves the rows that it stood in, and comes to stand in the row of the
reference.  Nothing else comes to stand anywhere. -/
theorem Document.rows_insertBefore {document edited : Document} {reference id : NodeId}
    (wellFormed : document.WellFormed)
    (inserted : document.insertBefore reference id = .ok edited) :
    ∃ parent, reference ∈ document.children parent ∧ edited.WellFormed ∧
      edited.children parent ⊆ document.children parent ++ Anchor.carried document id ∧
      ∀ other, other ≠ parent → edited.children other =
        (document.children other).filter (· ∉ Anchor.carried document id) := by
  have atDestination : document.insertAt (.before reference) id = .ok edited := inserted
  cases above : document.parent? reference with
  | none =>
      have orphan : Destination.parent? document (.before reference) = none := above
      obtain ⟨_, refused⟩ := Destination.insertAt_of_orphan orphan
      rw [refused] at atDestination
      contradiction
  | some parent =>
      have inside : Destination.parent? document (.before reference) = some parent := above
      have child := wellFormed.arranged.parent?_eq_some_iff.1 above
      have formed := Destination.wellFormed_insertAt wellFormed inside atDestination
      refine ⟨parent, child, formed, ?_⟩
      by_cases fragment : document.content? id = some .fragment
      · have all : Anchor.carried document id = document.children id := if_pos fragment
        have rows :=
          Destination.children_insertAt_of_fragment wellFormed inside atDestination fragment
        rw [rows, all]
        refine ⟨?_, fun other different => ?_⟩
        · rw [Function.update_self]
          exact Destination.put_before_subset ..
        rw [Function.update_of_ne different]
        by_cases same : other = id
        · subst same
          rw [Function.update_self]
          exact (List.filter_eq_nil_iff.2 fun _ member => by simpa using member).symm
        · rw [Function.update_of_ne same, Anchor.filter_not_mem_eq_self
            (Anchor.disjoint_children wellFormed (List.Subset.refl _) same)]
      · have alone : Anchor.carried document id = [id] := if_neg fragment
        rw [alone]
        by_cases same : id = reference
        · subst same
          rw [Destination.insertAt_of_beside wellFormed inside atDestination (.inl rfl)]
          refine ⟨List.subset_append_left _ _, fun other different => ?_⟩
          exact (Anchor.filter_not_mem_eq_self (Anchor.disjoint_children wellFormed
            (by simpa using child) different)).symm
        · have apart : ¬ (Destination.before reference).Beside id := by
            rintro (equal | equal)
            · exact same (Destination.before.inj equal).symm
            · contradiction
          rw [Destination.children_insertAt wellFormed inside atDestination fragment apart]
          refine ⟨?_, fun other different => ?_⟩
          · rw [Function.update_self]
            refine List.Subset.trans (Destination.put_before_subset ..)
              (List.append_subset.2 ⟨?_, ?_⟩)
            · exact List.Subset.trans List.erase_subset (List.subset_append_left _ _)
            · exact List.subset_append_right _ _
          · rw [Function.update_of_ne different,
              Anchor.erase_eq_filter (wellFormed.arranged.nodup other)]

/-! ## Documents that lost nodes -/

/-- The old document lost the given nodes, which were moved below newer ones or not placed again.
The rows are the old ones without them, and all other old nodes are what they were. -/
structure Document.Sheds (old : Document) (lost : List NodeId) (new : Document) : Prop where
  wellFormed : new.WellFormed
  size_le : old.size ≤ new.size
  children : ∀ {id}, id < old.size → new.children id = (old.children id).filter (· ∉ lost)
  content? : ∀ {id}, id < old.size → id ∉ lost → new.content? id = old.content? id
  fragment_iff : ∀ {id}, id < old.size →
    (new.content? id = some .fragment ↔ old.content? id = some .fragment)
  above : ∀ {id parent}, id < old.size → id ∉ lost → id ∈ new.children parent →
    parent < old.size

theorem Document.Spares.sheds {old new : Document} (spares : old.Spares new)
    (wellFormed : new.WellFormed) : old.Sheds [] new where
  wellFormed := wellFormed
  size_le := spares.size_le
  children within := by rw [spares.children within, Anchor.filter_not_mem_nil]
  content? within _ := spares.content? within
  fragment_iff within := by rw [spares.content? within]
  above within _ := spares.above within

namespace Document.Sheds

variable {old document new : Document} {lost : List NodeId} {id parent : NodeId}

/-- A document that lost none of the old nodes was only added to. -/
theorem spares (sheds : old.Sheds lost document) (oldFormed : old.WellFormed)
    (newer : ∀ id ∈ lost, old.size ≤ id) : old.Spares document where
  size_le := sheds.size_le
  content? within := sheds.content? within fun member =>
    Nat.not_lt_of_le (newer _ member) within
  children within := by
    rw [sheds.children within]
    refine Anchor.filter_not_mem_eq_self fun other inRow isLost => ?_
    exact Nat.not_lt_of_le (newer other isLost) (oldFormed.arranged.lt_size_of_mem inRow)
  above within := sheds.above within fun member => Nat.not_lt_of_le (newer _ member) within

section Rows

variable (sheds : old.Sheds lost document) (oldFormed : old.WellFormed)

include sheds oldFormed

/-- No newer node stands in a row of an old one. -/
theorem newer_parent (newer : old.size ≤ id) (child : id ∈ document.children parent) :
    old.size ≤ parent := by
  by_contra within
  rw [sheds.children (Nat.lt_of_not_le within)] at child
  exact Nat.not_lt_of_le newer (oldFormed.arranged.lt_size_of_mem (List.mem_of_mem_filter child))

/-- A node in a row that a newer node stands in is newer itself or was lost. -/
theorem newer_or_lost {sibling : NodeId} (newer : old.size ≤ sibling)
    (beside : sibling ∈ document.children parent) (child : id ∈ document.children parent) :
    old.size ≤ id ∨ id ∈ lost := by
  by_contra none_holds
  rw [not_or, Nat.not_le] at none_holds
  exact Nat.not_lt_of_le (sheds.newer_parent oldFormed newer beside)
    (sheds.above none_holds.1 none_holds.2 child)

end Rows

/-- The old nodes that an insertion carries are the same as in the old document, apart from those
that were lost before. -/
theorem mem_carried_iff (sheds : old.Sheds lost document) (id : NodeId) {lower : NodeId}
    (within : lower < old.size) (kept : lower ∉ lost) :
    lower ∈ Anchor.carried document id ↔ lower ∈ Anchor.carried old id := by
  unfold Anchor.carried
  by_cases isOld : id < old.size
  · simp only [sheds.fragment_iff isOld]
    split
    · rw [sheds.children isOld, List.mem_filter, decide_eq_true_eq, and_iff_left kept]
    · exact Iff.rfl
  · have missing : old.content? id ≠ some .fragment := by
      rw [content?_eq_none_iff.2 (Nat.le_of_not_lt isOld)]
      simp
    rw [if_neg missing]
    split
    · refine iff_of_false (fun child => isOld (sheds.above within kept child)) ?_
      rw [List.mem_singleton]
      exact fun same => isOld (same ▸ within)
    · exact Iff.rfl

theorem filter_carried (sheds : old.Sheds lost document) (oldFormed : old.WellFormed)
    (within : parent < old.size) :
    (document.children parent).filter (· ∉ Anchor.carried document id) =
      (old.children parent).filter (· ∉ lost ++ Anchor.carried old id) := by
  rw [sheds.children within, List.filter_filter]
  refine List.filter_congr fun lower inRow => ?_
  by_cases isLost : lower ∈ lost
  · simp [isLost]
  · have same := sheds.mem_carried_iff id (oldFormed.arranged.lt_size_of_mem inRow) isLost
    simp [isLost, same]

/-! ### Edits after which nothing more is lost -/

/-- Which newer nodes count as lost makes no difference. -/
theorem of_same_lost (sheds : old.Sheds lost document) (oldFormed : old.WellFormed)
    {others : List NodeId} (same : ∀ id < old.size, id ∈ lost ↔ id ∈ others) :
    old.Sheds others document where
  wellFormed := sheds.wellFormed
  size_le := sheds.size_le
  children within := by
    rw [sheds.children within]
    refine List.filter_congr fun lower inRow => ?_
    simp [same lower (oldFormed.arranged.lt_size_of_mem inRow)]
  content? within kept := sheds.content? within fun member => kept ((same _ within).1 member)
  fragment_iff := sheds.fragment_iff
  above within kept := sheds.above within fun member => kept ((same _ within).1 member)

/-- An edit that keeps the rows may change what nodes are that are newer or lost. -/
theorem of_same_rows (sheds : old.Sheds lost document) (wellFormed : new.WellFormed)
    (size_le : document.size ≤ new.size) (rows : new.children = document.children)
    (content? : ∀ {id}, id < old.size → id ∉ lost → new.content? id = document.content? id)
    (husk : ∀ {id}, id < old.size →
      (new.content? id).map Content.husk = (document.content? id).map Content.husk) :
    old.Sheds lost new where
  wellFormed := wellFormed
  size_le := Nat.le_trans sheds.size_le size_le
  children within := by rw [rows, sheds.children within]
  content? within kept := (content? within kept).trans (sheds.content? within kept)
  fragment_iff within := by
    rw [← sheds.fragment_iff within]
    constructor
    · exact fun fragment => Content.eq_of_husk rfl rfl ((husk within).symm.trans (by rw [fragment]))
    · exact fun fragment => Content.eq_of_husk rfl rfl ((husk within).trans (by rw [fragment]))
  above within kept child := sheds.above within kept (rows ▸ child)

theorem create (sheds : old.Sheds lost document) {content : Content}
    (distinct : content.HasDistinctNames) : old.Sheds lost (document.create content).1 := by
  have same : ∀ {id}, id < old.size →
      (document.create content).1.content? id = document.content? id := fun within => by
    rw [content?_create, if_neg (Nat.ne_of_lt (Nat.lt_of_lt_of_le within sheds.size_le))]
  exact sheds.of_same_rows (sheds.wellFormed.create distinct) (by simp)
    (sheds.wellFormed.children_create content) (fun within _ => same within)
    fun within => by rw [same within]

theorem setContent (sheds : old.Sheds lost document) (free : old.size ≤ id ∨ id ∈ lost)
    {before after : Content} (present : document.content? id = some before)
    (husk : after.husk = before.husk)
    (wellFormed : (document.setContent id after).WellFormed) :
    old.Sheds lost (document.setContent id after) := by
  refine sheds.of_same_rows wellFormed (Nat.le_of_eq (size_setContent ..).symm)
    (sheds.wellFormed.children_setContent id after) ?_ fun _ =>
      Anchor.husk_setContent present husk
  intro other within kept
  rw [content?_setContent, if_neg]
  rintro ⟨rfl, _⟩
  exact free.elim (fun newer => Nat.not_lt_of_le newer within) kept

/-- Taking nodes out of their rows that are newer, or lost already, loses no other. -/
theorem clear (sheds : old.Sheds lost document) (oldFormed : old.WellFormed)
    {nodes : List NodeId} (free : ∀ id ∈ nodes, old.size ≤ id ∨ id ∈ lost) :
    old.Sheds lost (Anchor.clear document nodes) where
  wellFormed := Anchor.wellFormed_clear sheds.wellFormed nodes
  size_le := by
    rw [Anchor.size_clear]
    exact sheds.size_le
  children within := by
    rw [Anchor.children_clear sheds.wellFormed, sheds.children within]
    refine Anchor.filter_not_mem_eq_self fun lower inRow member => ?_
    rw [List.mem_filter, decide_eq_true_eq] at inRow
    exact (free lower member).elim
      (Nat.not_le_of_lt (oldFormed.arranged.lt_size_of_mem inRow.1)) inRow.2
  content? within kept := by rw [Anchor.content?_clear, sheds.content? within kept]
  fragment_iff within := by rw [Anchor.content?_clear, sheds.fragment_iff within]
  above within kept child := by
    rw [Anchor.children_clear sheds.wellFormed] at child
    exact sheds.above within kept (List.mem_of_mem_filter child)

/-- An insertion before a newer node loses what it carries. -/
theorem insertBefore (sheds : old.Sheds lost document) (oldFormed : old.WellFormed)
    {reference : NodeId} (newer : old.size ≤ reference)
    (inserted : document.insertBefore reference id = .ok new) :
    old.Sheds (lost ++ Anchor.carried old id) new := by
  obtain ⟨parent, child, wellFormed, row, rows⟩ :=
    rows_insertBefore sheds.wellFormed inserted
  have content (other : NodeId) := Anchor.content?_insertBefore inserted other
  have newerParent := sheds.newer_parent oldFormed newer child
  refine ⟨wellFormed, ?_, ?_, ?_, ?_, ?_⟩
  · rw [size_eq_of_content? content]
    exact sheds.size_le
  · intro other within
    rw [rows other (Nat.ne_of_lt (Nat.lt_of_lt_of_le within newerParent)),
      sheds.filter_carried oldFormed within]
  · intro other within kept
    rw [content, sheds.content? within fun member => kept (List.mem_append_left _ member)]
  · intro other within
    rw [content, sheds.fragment_iff within]
  · intro lower upper within kept below
    rw [List.mem_append, not_or] at kept
    have notCarried : lower ∉ Anchor.carried document id := fun member =>
      kept.2 ((sheds.mem_carried_iff id within kept.1).1 member)
    by_cases same : upper = parent
    · rw [same] at below ⊢
      exact sheds.above within kept.1 ((List.mem_append.1 (row below)).resolve_right notCarried)
    · rw [rows upper same] at below
      exact sheds.above within kept.1 (List.mem_of_mem_filter below)

end Document.Sheds

/-! ## Binding one slot -/

/-- The nodes that leave their places when a slot of the kind is bound to the value. -/
def SlotKind.takes (document : Document) : SlotKind → Value → List NodeId
  | .region, value => Anchor.takenBy document value
  | .attributeValue, _ => []

namespace Anchor

variable {old document : Document} {lost : List NodeId}

/-- The nodes of a region stand in one row with a node that the anchor names. -/
theorem exists_row_of_mem_regionNodes (wellFormed : document.WellFormed) {anchor : Anchor}
    {id : NodeId} (member : id ∈ anchor.regionNodes document) :
    ∃ parent, ∃ sibling ∈ anchor.nodes,
      sibling ∈ document.children parent ∧ id ∈ document.children parent := by
  have beside (sibling : NodeId)
      (found : id ∈ document.laterSiblings sibling ∨ id ∈ document.earlierSiblings sibling) :
      ∃ parent, sibling ∈ document.children parent ∧ id ∈ document.children parent := by
    by_cases placed : ∃ parent, sibling ∈ document.children parent
    · obtain ⟨parent, child⟩ := placed
      obtain ⟨earlier, later, row⟩ := List.append_of_mem child
      refine ⟨parent, child, ?_⟩
      rw [wellFormed.arranged.laterSiblings_eq row, wellFormed.arranged.earlierSiblings_eq row,
        List.mem_reverse] at found
      rw [row, List.mem_append, List.mem_cons]
      exact found.symm.imp_right Or.inr
    · push Not at placed
      obtain ⟨_, prev, next⟩ := wellFormed.arranged.orphan placed
      rw [laterSiblings, earlierSiblings, prev, next] at found
      exact absurd found (by simp [chain, follow])
  cases anchor with
  | region before after =>
      cases before with
      | none =>
          have earlier : id ∈ document.earlierSiblings after := List.mem_reverse.1 member
          obtain ⟨parent, both⟩ := beside after (.inr earlier)
          exact ⟨parent, after, by simp [nodes], both⟩
      | some sibling =>
          have later := (List.takeWhile_prefix _).subset member
          obtain ⟨parent, both⟩ := beside sibling (.inl later)
          exact ⟨parent, sibling, by simp [nodes], both⟩
  | attributeValue element name => contradiction

/-- Binding an attribute changes no more than what the element is. -/
theorem document_updateAttribute (document : Document) (element : NodeId) (name : String)
    (value : Value) :
    (updateAttribute document element name value).document = document ∨
      ∃ before after, document.content? element = some before ∧ after.husk = before.husk ∧
        (updateAttribute document element name value).document =
          document.setContent element after := by
  have erased : document.eraseAttribute element name = document ∨
      ∃ before after, document.content? element = some before ∧ after.husk = before.husk ∧
        document.eraseAttribute element name = document.setContent element after := by
    cases present : document.content? element with
    | none => exact .inl (eraseAttribute_of_missing present name)
    | some content =>
        exact .inr ⟨content, _, rfl, by cases content <;> rfl,
          eraseAttribute_of_content? present name⟩
  cases value with
  | text data =>
      simp only [updateAttribute, Attempt.ofEdit]
      split
      · rename_i edited set
        unfold setAttribute at set
        split at set
        · contradiction
        · rename_i tag attributes present
          exact .inr ⟨_, .element tag (Attribute.put attributes name data), present, rfl,
            (Except.ok.inj set).symm⟩
        · contradiction
      · exact .inl rfl
  | _ => exact erased

section Step

variable (sheds : old.Sheds lost document) (oldFormed : old.WellFormed) {anchor : Anchor}
  (newer : ∀ id ∈ anchor.nodes, old.size ≤ id)

include sheds oldFormed newer

theorem newer_or_lost_of_mem_regionNodes {id : NodeId}
    (member : id ∈ anchor.regionNodes document) : old.size ≤ id ∨ id ∈ lost := by
  obtain ⟨_, sibling, own, beside, child⟩ :=
    exists_row_of_mem_regionNodes sheds.wellFormed member
  exact sheds.newer_or_lost oldFormed (newer sibling own) beside child

omit newer in
theorem sheds_fillWithText {region : List NodeId} {after : NodeId}
    (newerAfter : old.size ≤ after) (free : ∀ id ∈ region, old.size ≤ id ∨ id ∈ lost)
    (data : String) : old.Sheds lost (fillWithText document region after data).document := by
  unfold fillWithText
  split
  · rename_i id found
    obtain ⟨before, present⟩ := exists_text_of_isText (List.find?_some found)
    have husk : (Content.text data).husk = (Content.text before).husk := rfl
    have written := sheds.setContent (free id (List.mem_of_find?_eq_some found)) present husk
      (sheds.wellFormed.setText present data)
    exact written.clear oldFormed fun other member => free other (List.mem_of_mem_filter member)
  · have distinct : (Content.text data).HasDistinctNames :=
      Content.hasDistinctNames_of_attributes_eq_nil rfl
    have created := sheds.create distinct
    simp only
    split
    · rename_i inserted
      have placed := created.insertBefore oldFormed newerAfter inserted
      refine Document.Sheds.clear (placed.of_same_lost oldFormed fun id within => ?_) oldFormed free
      -- what was inserted is new
      have missing : old.content? document.size ≠ some .fragment := by
        rw [content?_eq_none_iff.2 sheds.size_le]
        simp
      have different : id ≠ document.size := Nat.ne_of_lt (Nat.lt_of_lt_of_le within sheds.size_le)
      have newText : carried old (document.create (.text data)).2 = [document.size] :=
        if_neg missing
      rw [newText, List.mem_append, List.mem_singleton, or_iff_left different]
    · exact created

omit newer in
theorem sheds_fillWithNode {region : List NodeId} (before : Option NodeId) {after : NodeId}
    (id : NodeId) (newerAfter : old.size ≤ after) (free : ∀ id ∈ region, old.size ≤ id ∨ id ∈ lost)
    (inRow : ∀ id ∈ region, ∃ parent, id ∈ document.children parent) :
    ((fillWithNode document region before after id).outcome = .ok () →
      old.Sheds (lost ++ carried old id)
        (fillWithNode document region before after id).document) ∧
    (∀ cause, (fillWithNode document region before after id).outcome = .error cause →
      (fillWithNode document region before after id).document = document) := by
  unfold fillWithNode
  split
  · exact ⟨fun accepted => by contradiction, fun _ _ => rfl⟩
  split
  · rename_i member
    rw [List.contains_iff_mem] at member
    refine ⟨fun _ => ?_, fun _ refused => by contradiction⟩
    have others : ∀ other ∈ region.filter (· ≠ id), old.size ≤ other ∨ other ∈ lost :=
      fun other inRegion => free other (List.mem_of_mem_filter inRegion)
    have cleared := sheds.clear oldFormed others
    refine cleared.of_same_lost oldFormed fun other within => ?_
    rw [List.mem_append]
    refine (or_iff_left_of_imp fun isCarried => ?_).symm
    -- a node that stands in a region is no fragment, so it is carried itself
    have single : other = id := by
      unfold carried at isCarried
      split at isCarried
      · rename_i fragment
        obtain ⟨parent, child⟩ := inRow id member
        have old := lt_size_of_content? fragment
        exact absurd child (sheds.wellFormed.fragment_not_mem
          ((sheds.fragment_iff old).2 fragment) parent)
      · exact List.mem_singleton.1 isCarried
    subst single
    exact (free other member).resolve_left (Nat.not_le_of_lt within)
  · split
    · rename_i inserted
      refine ⟨fun _ => ?_, fun _ refused => by contradiction⟩
      refine (sheds.insertBefore oldFormed newerAfter inserted).clear oldFormed ?_
      intro other member
      exact (free other member).imp_right (List.mem_append_left _)
    · exact ⟨fun accepted => by contradiction, fun _ _ => rfl⟩

omit oldFormed newer in
theorem sheds_updateAttribute {element : NodeId} (newerElement : old.size ≤ element)
    (name : String) (value : Value) :
    old.Sheds lost (updateAttribute document element name value).document := by
  have wellFormed := wellFormed_updateAttribute sheds.wellFormed element name value
  rcases document_updateAttribute document element name value with
    same | ⟨before, after, present, husk, changed⟩
  · rwa [same]
  · rw [changed] at wellFormed ⊢
    exact sheds.setContent (.inl newerElement) present husk wellFormed

/-- A slot that is bound takes nodes out of the rows of the old document, and a refused value takes
none. -/
theorem sheds_update (value : Value) :
    ((update document anchor value).outcome = .ok () →
      old.Sheds (lost ++ anchor.kind.takes old value) (update document anchor value).document) ∧
    (∀ cause, (update document anchor value).outcome = .error cause →
      old.Sheds lost (update document anchor value).document) := by
  cases anchor with
  | region before after =>
      have free {id : NodeId} (member : id ∈ regionNodes document (.region before after)) :=
        newer_or_lost_of_mem_regionNodes sheds oldFormed newer member
      have newerAfter : old.size ≤ after := newer after (by simp [nodes])
      cases value with
      | text data =>
          have filled := sheds_fillWithText sheds oldFormed newerAfter (fun _ => free) data
          exact ⟨fun _ => (List.append_nil lost).symm ▸ filled, fun _ _ => filled⟩
      | node id =>
          have inRow : ∀ id ∈ regionNodes document (.region before after),
              ∃ parent, id ∈ document.children parent := by
            intro id member
            obtain ⟨parent, _, _, _, child⟩ :=
              exists_row_of_mem_regionNodes sheds.wellFormed member
            exact ⟨parent, child⟩
          have filled := sheds_fillWithNode sheds oldFormed before id newerAfter
            (fun _ => free) inRow
          refine ⟨filled.1, fun cause refused => ?_⟩
          have same : (update document (.region before after) (.node id)).document = document :=
            filled.2 cause refused
          rwa [same]
      | _ =>
          have cleared := sheds.clear oldFormed fun _ => free
          exact ⟨fun _ => (List.append_nil lost).symm ▸ cleared, fun _ _ => cleared⟩
  | attributeValue element name =>
      have changed := sheds_updateAttribute sheds (newer element (by simp [nodes])) name value
      exact ⟨fun _ => (List.append_nil lost).symm ▸ changed, fun _ _ => changed⟩

end Step

end Anchor

/-! ## Binding slots one after the other -/

namespace Instance

variable {old document : Document} {lost : List NodeId}

/-- Values that are all accepted take their nodes out of the rows of the old document. -/
theorem sheds_bindAll (sheds : old.Sheds lost document) (oldFormed : old.WellFormed)
    {bound : List (Anchor × Value)}
    (newer : ∀ entry ∈ bound, ∀ id ∈ entry.1.nodes, old.size ≤ id)
    (accepted : (bindAll document bound).outcome = .ok ()) :
    old.Sheds (lost ++ bound.flatMap fun entry => entry.1.kind.takes old entry.2)
      (bindAll document bound).document := by
  induction bound generalizing document lost with
  | nil => exact (List.append_nil lost).symm ▸ sheds
  | cons first rest inductionHypothesis =>
      obtain ⟨anchor, value⟩ := first
      have step := Anchor.sheds_update sheds oldFormed (newer _ List.mem_cons_self) value
      rw [bindAll, Attempt.andThen] at accepted ⊢
      rw [List.flatMap_cons, ← List.append_assoc]
      split at accepted
      · rename_i done
        exact inductionHypothesis (step.1 done)
          (fun entry member => newer entry (List.mem_cons_of_mem _ member)) accepted
      · contradiction

/-- What is refused is refused after all that comes before it was accepted, and nothing that comes
after it is bound. -/
theorem exists_refused_of_bindAll {bound : List (Anchor × Value)} {cause : Error}
    (refused : (bindAll document bound).outcome = .error cause) :
    ∃ done anchor value rest, bound = done ++ (anchor, value) :: rest ∧
      (bindAll document done).outcome = .ok () ∧
      (Anchor.update (bindAll document done).document anchor value).outcome = .error cause ∧
      (bindAll document bound).document =
        (Anchor.update (bindAll document done).document anchor value).document := by
  induction bound generalizing document with
  | nil => contradiction
  | cons first rest inductionHypothesis =>
      obtain ⟨anchor, value⟩ := first
      rw [bindAll, Attempt.andThen] at refused ⊢
      split at refused
      · rename_i accepted
        obtain ⟨done, refusing, refusedValue, following, split, before, here, same⟩ :=
          inductionHypothesis refused
        refine ⟨(anchor, value) :: done, refusing, refusedValue, following, by rw [split]; rfl, ?_⟩
        rw [bindAll, Attempt.andThen, accepted]
        exact ⟨before, here, same⟩
      · rename_i rejected
        refine ⟨[], anchor, value, rest, rfl, rfl, ?_, rfl⟩
        exact rejected.trans refused

end Instance

/-! ## Instances that were refused -/

namespace Template

/-- The nodes that leave their places when the slots are bound to the values. -/
def takes (template : Template) (document : Document) (values : List Value) : List NodeId :=
  (template.slots.zip values).flatMap fun entry => entry.1.kind.takes document entry.2

/-- The slots of a new instance accept the first values, one after the other, and the next slot
refuses the next value. -/
def RefusesAfter (template : Template) (document : Document) (bound : List Value) (value : Value)
    (cause : Error) : Prop :=
  ∃ copied root anchors anchor,
    document.copyFrom template.document template.root = .ok (copied, root) ∧
      template.slots.mapM (Instance.anchorAt copied root) = .ok anchors ∧
      anchors[bound.length]? = some anchor ∧
      (Instance.bindAll copied (anchors.zip bound)).outcome = .ok () ∧
      (Anchor.update (Instance.bindAll copied (anchors.zip bound)).document anchor value).outcome =
        .error cause

end Template

namespace Instance

variable {options : CompileOptions} {fragments : List String} {document : Document}
  {template : Template} {values : List Value} {cause : Error}

theorem exists_split_of_zip {Left Right : Type} {lefts : List Left} {rights : List Right}
    (sameLength : lefts.length = rights.length) {done rest : List (Left × Right)} {left : Left}
    {right : Right} (split : lefts.zip rights = done ++ (left, right) :: rest) :
    ∃ before after, rights = before ++ right :: after ∧ lefts[before.length]? = some left ∧
      lefts.zip before = done := by
  have firsts := congrArg (List.map Prod.fst) split
  have seconds := congrArg (List.map Prod.snd) split
  rw [List.map_fst_zip (Nat.le_of_eq sameLength), List.map_append, List.map_cons] at firsts
  rw [List.map_snd_zip (Nat.le_of_eq sameLength.symm), List.map_append, List.map_cons] at seconds
  refine ⟨done.map Prod.snd, rest.map Prod.snd, seconds, ?_, ?_⟩
  · rw [firsts, List.length_map, List.getElem?_append_right (by simp), List.length_map,
      Nat.sub_self]
    rfl
  · have nothing : done.map Prod.snd = done.map Prod.snd ++ [] := (List.append_nil _).symm
    rw [firsts, nothing, List.zip_append (by simp), List.zip_nil_right, List.append_nil]
    exact (List.zip_of_prod rfl rfl).symm

/-- The anchors of a copy take what the slots of its template do. -/
theorem flatMap_takes_eq {anchors : List Anchor}
    (kinds : List.Forall₂ (fun slot anchor => slot.kind = anchor.kind) template.slots anchors)
    (values : List Value) :
    ((anchors.zip values).flatMap fun entry => entry.1.kind.takes document entry.2) =
      template.takes document values := by
  have ofKinds {Place : Type} (kind : Place → SlotKind) (places : List Place) :
      ((places.zip values).flatMap fun entry => (kind entry.1).takes document entry.2) =
        ((places.map kind).zip values).flatMap fun entry => entry.1.takes document entry.2 := by
    rw [List.zip_map_left, List.flatMap_map]
    rfl
  have same : template.slots.map Slot.kind = anchors.map Anchor.kind := by
    rw [← List.forall₂_eq_eq_eq, List.forall₂_map_left_iff, List.forall₂_map_right_iff]
    exact kinds
  rw [Template.takes, ofKinds, ofKinds, same]

/-- An instance that is refused for one of the values leaves the old nodes without those that the
values before it put into regions: these are missing from their rows, and all others are what they
were.  If those values put no old node into a region, nothing has happened to the old nodes. -/
theorem create_refused (compiled : Template.compile options fragments = .ok template)
    (reachable : document.Reachable)
    (refused : (create document template values).outcome = .error cause) :
    values.length ≠ template.slots.length ∧
        (create document template values).document = document ∨
      ∃ bound value rest, values = bound ++ value :: rest ∧
        template.RefusesAfter document bound value cause ∧
        (∀ id < document.size, (create document template values).document.children id =
          (document.children id).filter (· ∉ template.takes document bound)) ∧
        (∀ id < document.size, id ∉ template.takes document bound →
          (create document template values).document.content? id = document.content? id) ∧
        ((∀ id ∈ template.takes document bound, document.size ≤ id) → ∀ id < document.size,
          (create document template values).document.node? id = document.node? id) := by
  have wellFormed := reachable.wellFormed
  obtain ⟨copied, block, copyMade, copy⟩ := exists_copyOf_of_compile wellFormed compiled
  by_cases count : values.length = template.slots.length
  · right
    have sameLength := Template.length_of_mapM_eq_ok copy.anchors
    rw [← count] at sameLength
    have rejected :
        (bindAll copied ((anchorsOf options.marker none block).zip values)).outcome =
          .error cause ∧
        (create document template values).document =
          (bindAll copied ((anchorsOf options.marker none block).zip values)).document := by
      rw [copy.create_eq copyMade count, Attempt.andThen] at refused ⊢
      split at refused
      · contradiction
      · rename_i rejected
        rw [rejected]
        exact ⟨congrArg Except.error (Except.error.inj refused), rfl⟩
    obtain ⟨done, anchor, value, rest, split, accepted, here, last⟩ :=
      exists_refused_of_bindAll rejected.1
    obtain ⟨bound, following, valuesSplit, placed, rfl⟩ := exists_split_of_zip sameLength split
    have newer : ∀ entry ∈ (anchorsOf options.marker none block).zip bound,
        ∀ id ∈ entry.1.nodes, document.size ≤ id := fun entry member id named =>
      copy.size_le (copy.mem_skeleton_of_mem_nodes (List.of_mem_zip member).1 named)
    have sheds := sheds_bindAll ((copy.spares wellFormed).sheds copy.copiedIn.wellFormed)
      wellFormed newer accepted
    rw [List.nil_append, flatMap_takes_eq (forall₂_kind_of_mapM copy.anchors)] at sheds
    have final := (Anchor.sheds_update sheds wellFormed (fun id named => copy.size_le
      (copy.mem_skeleton_of_mem_nodes (List.mem_of_getElem? placed) named)) value).2 cause here
    rw [← last, ← rejected.2] at final
    refine ⟨bound, value, following, valuesSplit, ⟨copied, document.size, _, anchor, copyMade,
      copy.anchors, placed, accepted, here⟩, fun id => final.children, fun id => final.content?,
      fun newer id => (final.spares wellFormed newer).node?_eq wellFormed final.wellFormed⟩
  · left
    rw [create, if_pos count]
    exact ⟨count, rfl⟩

/-- A node that does not exist is refused after a text was accepted, and the paragraph of the
caller is what it was. -/
theorem create_refused_after_text :
    let document := Document.empty.perform (.parse false "<p>kept</p>")
    ∃ template, Template.compile {} ["<i>", "</i><b>", "</b>"] = .ok template ∧
      (create document template [.text "a", .node 99]).outcome =
        .error (.invalidNode 99 .notInDocument) ∧
      ∀ id < document.size,
        (create document template [.text "a", .node 99]).document.node? id = document.node? id := by
  intro document
  have computed : (Template.compile {} ["<i>", "</i><b>", "</b>"]).toOption.map (fun template =>
      (template.slots, (create document template [.text "a", .node 99]).outcome)) =
      some ([.region [0, 0], .region [1, 0]], .error (.invalidNode 99 .notInDocument)) := by
    decide +kernel
  obtain ⟨template, compiled, result⟩ := Option.map_eq_some_iff.1 computed
  obtain ⟨slots, refused⟩ := Prod.mk.inj result
  have reachable : document.Reachable := .perform .empty (by simp [Operation.source?])
    (by simp [Operation.template?])
  refine ⟨template, eq_ok_of_toOption compiled, refused, ?_⟩
  rcases create_refused (eq_ok_of_toOption compiled) reachable refused with
    ⟨differ, _⟩ | ⟨bound, value, rest, split, _, _, _, spared⟩
  · rw [slots] at differ
    exact absurd rfl differ
  · refine spared fun id member => ?_
    obtain ⟨⟨slot, first⟩, paired, taken⟩ := List.mem_flatMap.1 member
    have among : first ∈ [Value.text "a", .node 99] := by
      rw [split]
      exact List.mem_append_left _ (List.of_mem_zip paired).2
    have missing : document.size ≤ 99 := by decide +kernel
    have single : Anchor.carried document 99 = [99] := if_neg (by
      rw [content?_eq_none_iff.2 missing]
      simp)
    rw [List.mem_cons, List.mem_singleton] at among
    rcases among with rfl | rfl
    · cases kind : slot.kind <;> simp [kind, SlotKind.takes, Anchor.takenBy] at taken
    · cases kind : slot.kind <;>
        simp [kind, SlotKind.takes, Anchor.takenBy, single] at taken
      exact taken ▸ missing

/-- A node that was put into a slot is gone from where it stood, although a later value is
refused. -/
theorem not_spared_of_refused :
    let document := Document.empty.perform (.parse false "<p>kept</p>")
    ∃ template, Template.compile {} ["<i>", "</i><b>", "</b>"] = .ok template ∧
      document.Reachable ∧
      (create document template [.node 2, .node 99]).outcome =
        .error (.invalidNode 99 .notInDocument) ∧
      1 < document.size ∧
      (create document template [.node 2, .node 99]).document.node? 1 ≠ document.node? 1 := by
  intro document
  have computed : (Template.compile {} ["<i>", "</i><b>", "</b>"]).toOption.map (fun template =>
      ((create document template [.node 2, .node 99]).outcome,
        decide (1 < document.size),
        decide ((create document template [.node 2, .node 99]).document.node? 1 =
          document.node? 1))) =
      some (.error (.invalidNode 99 .notInDocument), true, false) := by
    decide +kernel
  obtain ⟨template, compiled, result⟩ := Option.map_eq_some_iff.1 computed
  rw [Prod.mk.injEq, Prod.mk.injEq] at result
  obtain ⟨refused, within, changed⟩ := result
  exact ⟨template, eq_ok_of_toOption compiled,
    .perform .empty (by simp [Operation.source?]) (by simp [Operation.template?]), refused,
    of_decide_eq_true within, of_decide_eq_false changed⟩

end Instance

end MarkupTemplate
