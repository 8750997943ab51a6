import MarkupTemplate.Proofs.Anchor.Updates
import MarkupTemplate.Proofs.Reachable

/-!
# Refused bindings

An anchor is no more than the numbers of some nodes.  Other edits may have moved these nodes, and a
caller may name nodes that stand in different rows, or that never existed.  A value may then be
refused, and every refusal can be read off the document as it is before the binding.  What is
refused is refused before any node leaves its place.  Only a text may leave something behind: it
has been created by then, and stands nowhere.
-/

namespace MarkupTemplate

open Document Relation

/-! ## Documents with one more text -/

/-- All nodes of the old document are in the new one as they were, and there is at most one more: a
text without links, which is in no row. -/
structure Document.GainsTextAtMost (old new : Document) : Prop where
  node? : ∀ {id}, id < old.size → new.node? id = old.node? id
  size : new.size = old.size ∨ new.size = old.size + 1
  gained : ∀ {id}, old.size ≤ id → id < new.size →
    (∃ data, new.node? id = some { content := .text data }) ∧ ∀ parent, id ∉ new.children parent

namespace Document

variable {document : Document} {reference id : NodeId} {cause : Error}

theorem gainsTextAtMost_self (document : Document) : document.GainsTextAtMost document where
  node? _ := rfl
  size := .inl rfl
  gained newer within := absurd within (Nat.not_lt_of_le newer)

namespace WellFormed

variable (wellFormed : document.WellFormed)

include wellFormed

theorem createText (data : String) : (document.create (.text data)).1.WellFormed :=
  wellFormed.create (Content.hasDistinctNames_of_attributes_eq_nil rfl)

theorem gainsTextAtMost_create (data : String) :
    document.GainsTextAtMost (document.create (.text data)).1 where
  node? within := by rw [node?_create, if_neg (Nat.ne_of_lt within)]
  size := .inr (size_create document _)
  gained newer within := by
    rw [size_create] at within
    obtain rfl := Nat.le_antisymm newer (Nat.le_of_lt_succ within)
    refine ⟨⟨data, by rw [node?_create, if_pos rfl]⟩, fun parent => ?_⟩
    rw [wellFormed.children_create]
    exact wellFormed.not_mem_children_size parent

/-- Nothing that is written of the old nodes shows that a node was created. -/
theorem markup_create {content : Content} (distinct : content.HasDistinctNames)
    (within : id < document.size) :
    (document.create content).1.markup id = document.markup id := by
  have same : ∀ {other}, other < document.size →
      (document.create content).1.content? other = document.content? other := fun old => by
    rw [content?_create, if_neg (Nat.ne_of_lt old)]
  have above := (sameLinks_create document content).parent id
  have verbatim : (document.create content).1.standsVerbatim id = document.standsVerbatim id := by
    unfold standsVerbatim
    rw [above]
    cases inside : document.parent? id with
    | none => rfl
    | some parent =>
        have child := wellFormed.arranged.parent?_eq_some_iff.1 inside
        simp only [Option.bind_some, Document.name?,
          same (wellFormed.arranged.parent_lt_size_of_mem child)]
  have below : (document.create content).1.below id = document.below id := by
    refine below_eq_of_same wellFormed (wellFormed.create distinct) (fun other path => same ?_)
      fun other _ => by rw [wellFormed.children_create]
    rcases path.cases_head with rfl | ⟨upper, child, _⟩
    · exact within
    · exact wellFormed.arranged.lt_size_of_mem (wellFormed.arranged.isChild_iff.1 child)
  unfold Document.markup
  rw [same within, below, verbatim]

end WellFormed

/-! ## Insertions that are refused -/

/-- A node cannot be inserted before a reference, because of a node that has the defect. -/
inductive Bars (document : Document) (reference id : NodeId) : NodeId → NodeDefect → Prop
  | orphan (alone : document.parent? reference = none) :
      Bars document reference id reference .referenceHasNoParent
  | missing {parent : NodeId} (inside : document.parent? reference = some parent)
      (absent : document.size ≤ id) : Bars document reference id id .notInDocument
  /-- The node would come to stand below itself. -/
  | above {parent : NodeId} (inside : document.parent? reference = some parent)
      (path : ReflTransGen document.IsChild parent id) :
      Bars document reference id id .insertedIntoItself

section Insertions

variable (wellFormed : document.WellFormed) {parent node : NodeId} {defect : NodeDefect}

include wellFormed

theorem exists_container_of_parent? (inside : document.parent? id = some parent) :
    ∃ container, document.content? parent = some container ∧ container.mayHaveChildren = true := by
  have child := wellFormed.arranged.parent?_eq_some_iff.1 inside
  obtain ⟨container, holder⟩ := exists_content_of_lt
    (wellFormed.arranged.parent_lt_size_of_mem child)
  exact ⟨container, holder, wellFormed.container holder (List.ne_nil_of_mem child)⟩

theorem insertBefore_of_bars (bars : document.Bars reference id node defect) :
    document.insertBefore reference id = .error (.invalidNode node defect) := by
  cases bars with
  | orphan alone => simp only [insertBefore, alone]
  | missing inside absent =>
      obtain ⟨container, holder, may⟩ := exists_container_of_parent? wellFormed inside
      have unknown := content?_eq_none_iff.2 absent
      simp only [insertBefore, insert, inside, holder, may, unknown, Bool.not_true,
        Bool.false_eq_true, ↓reduceIte]
  | @above parent inside path =>
      obtain ⟨container, holder, may⟩ := exists_container_of_parent? wellFormed inside
      have ancestor := (isInclusiveAncestor_iff wellFormed.arranged wellFormed.acyclic).2 path
      -- the node is the parent, or the parent of another
      have present : id < document.size := by
        rcases path.cases_tail with rfl | ⟨lower, _, child⟩
        · exact lt_size_of_content? holder
        · exact wellFormed.arranged.parent_lt_size_of_mem (wellFormed.arranged.isChild_iff.1 child)
      obtain ⟨content, found⟩ := exists_content_of_lt present
      simp only [insertBefore, insert, inside, holder, may, found, ancestor, Bool.not_true,
        Bool.false_eq_true, ↓reduceIte]

/-- Nothing else keeps a node from being inserted. -/
theorem exists_insertBefore_of_unbarred
    (unbarred : ∀ node defect, ¬ document.Bars reference id node defect) :
    ∃ edited, document.insertBefore reference id = .ok edited := by
  cases inside : document.parent? reference with
  | none => exact absurd (.orphan inside) (unbarred _ _)
  | some parent =>
      obtain ⟨container, holder, may⟩ := exists_container_of_parent? wellFormed inside
      have present : id < document.size := by
        by_contra absent
        exact unbarred _ _ (.missing inside (Nat.le_of_not_lt absent))
      obtain ⟨content, found⟩ := exists_content_of_lt present
      have apart : document.isInclusiveAncestor id parent = false := by
        rw [← Bool.not_eq_true, isInclusiveAncestor_iff wellFormed.arranged wellFormed.acyclic]
        exact fun path => unbarred _ _ (.above inside path)
      simp only [insertBefore, insert, inside, holder, may, found, apart, Bool.not_true,
        Bool.false_eq_true, ↓reduceIte]
      split
      · exact ⟨_, rfl⟩
      · split <;> exact ⟨_, rfl⟩

/-- Where the links of a document are in order, an insertion is refused for these causes only. -/
theorem insertBefore_eq_error_iff :
    document.insertBefore reference id = .error cause ↔
      ∃ node defect, cause = .invalidNode node defect ∧
        document.Bars reference id node defect := by
  constructor
  · intro refused
    by_cases barred : ∃ node defect, document.Bars reference id node defect
    · obtain ⟨node, defect, bars⟩ := barred
      rw [insertBefore_of_bars wellFormed bars] at refused
      exact ⟨node, defect, (Except.error.inj refused).symm, bars⟩
    · push Not at barred
      obtain ⟨edited, inserted⟩ := exists_insertBefore_of_unbarred wellFormed barred
      rw [inserted] at refused
      contradiction
  · rintro ⟨node, defect, rfl, bars⟩
    exact insertBefore_of_bars wellFormed bars

end Insertions

end Document

namespace Anchor

variable {document : Document} {anchor : Anchor} {value : Value} {cause : Error}

/-! ## Bindings that are refused -/

/-- A document refuses to bind the value at the anchor, because of a node that has the defect. -/
inductive Refuses (document : Document) : Anchor → Value → NodeId → NodeDefect → Prop
  | missingElement {element : NodeId} {name data : String} (absent : document.size ≤ element) :
      Refuses document (.attributeValue element name) (.text data) element .notInDocument
  | noElement {element : NodeId} {name data : String} {content : Content}
      (present : document.content? element = some content) (nameless : content.name? = none) :
      Refuses document (.attributeValue element name) (.text data) element .carriesNoAttributes
  /-- There is no text to put the data into, and no row to put a new one into. -/
  | noPlace {before : Option NodeId} {after : NodeId} {data : String}
      (textless : ∀ id ∈ regionNodes document (.region before after), isText document id = false)
      (alone : document.parent? after = none) :
      Refuses document (.region before after) (.text data) after .referenceHasNoParent
  | ownBoundary {before : Option NodeId} {after id : NodeId} (own : id = after ∨ before = some id) :
      Refuses document (.region before after) (.node id) id .ownSlotBoundary
  | barred {before : Option NodeId} {after id node : NodeId} {defect : NodeDefect}
      (foreign : ¬ (id = after ∨ before = some id))
      (outside : id ∉ regionNodes document (.region before after))
      (bars : document.Bars after id node defect) :
      Refuses document (.region before after) (.node id) node defect

/-- Attributes refuse nothing but texts. -/
theorem Refuses.exists_text {element node : NodeId} {name : String} {defect : NodeDefect}
    (refuses : Refuses document (.attributeValue element name) value node defect) :
    ∃ data, value = .text data := by
  cases refuses with
  | missingElement _ => exact ⟨_, rfl⟩
  | noElement _ _ => exact ⟨_, rfl⟩

/-- An attribute is bound to a text exactly if there is an element to carry it. -/
theorem updateAttribute_eq_error_iff {element : NodeId} {name data : String} :
    (updateAttribute document element name (.text data)).outcome = .error cause ↔
      document.size ≤ element ∧ cause = .invalidNode element .notInDocument ∨
        ∃ content, document.content? element = some content ∧ content.name? = none ∧
          cause = .invalidNode element .carriesNoAttributes := by
  rw [← content?_eq_none_iff]
  simp only [updateAttribute, Attempt.ofEdit, setAttribute]
  cases document.content? element with
  | none => simp [eq_comm]
  | some content => cases content <;> simp [Content.name?, eq_comm]

section Causes

variable (wellFormed : document.WellFormed) {region : List NodeId} {before : Option NodeId}
  {after id node : NodeId} {defect : NodeDefect} {data : String}

include wellFormed

/-- Only the place can keep a new text from being inserted. -/
theorem bars_create_iff :
    (document.create (.text data)).1.Bars after document.size node defect ↔
      document.parent? after = none ∧ node = after ∧ defect = .referenceHasNoParent := by
  have above := (sameLinks_create document (.text data)).parent after
  constructor
  · intro bars
    cases bars with
    | orphan alone => exact ⟨above.symm.trans alone, rfl, rfl⟩
    | missing _ absent =>
        rw [size_create] at absent
        exact absurd absent (Nat.not_succ_le_self _)
    | @above parent inside path =>
        have child := wellFormed.arranged.parent?_eq_some_iff.1 (above.symm.trans inside)
        have childless : (document.create (.text data)).1.children document.size = [] := by
          rw [wellFormed.children_create, wellFormed.children_size]
        exact absurd path ((wellFormed.createText data).apart_of_childless childless
          (Nat.ne_of_lt (wellFormed.arranged.parent_lt_size_of_mem child)))
  · rintro ⟨alone, rfl, rfl⟩
    exact .orphan (above.trans alone)

theorem fillWithText_eq_error_iff :
    (fillWithText document region after data).outcome = .error cause ↔
      (∀ id ∈ region, isText document id = false) ∧ document.parent? after = none ∧
        cause = .invalidNode after .referenceHasNoParent := by
  have refused_iff : (document.create (.text data)).1.insertBefore after
      (document.create (.text data)).2 = .error cause ↔
        document.parent? after = none ∧ cause = .invalidNode after .referenceHasNoParent := by
    refine (insertBefore_eq_error_iff (wellFormed.createText data)).trans ?_
    constructor
    · rintro ⟨node, defect, rfl, bars⟩
      obtain ⟨alone, rfl, rfl⟩ := (bars_create_iff wellFormed).1 bars
      exact ⟨alone, rfl⟩
    · rintro ⟨alone, rfl⟩
      exact ⟨after, _, rfl, (bars_create_iff wellFormed).2 ⟨alone, rfl, rfl⟩⟩
  have textless_iff : (∀ id ∈ region, isText document id = false) ↔
      region.find? (isText document) = none := by
    simp [List.find?_eq_none]
  rw [textless_iff, ← refused_iff]
  unfold fillWithText
  cases region.find? (isText document) with
  | some id => simp
  | none =>
      simp only [true_and]
      cases (document.create (.text data)).1.insertBefore after (document.create (.text data)).2 <;>
        simp

theorem fillWithNode_eq_error_iff :
    (fillWithNode document region before after id).outcome = .error cause ↔
      (id = after ∨ before = some id) ∧ cause = .invalidNode id .ownSlotBoundary ∨
        ¬ (id = after ∨ before = some id) ∧ id ∉ region ∧
          ∃ node defect, cause = .invalidNode node defect ∧ document.Bars after id node defect := by
  rw [← insertBefore_eq_error_iff wellFormed]
  unfold fillWithNode
  by_cases own : id = after ∨ before = some id
  · simp only [own, ↓reduceIte, Except.error.injEq, true_and, not_true_eq_false, false_and,
      or_false]
    exact eq_comm
  · rw [if_neg own]
    by_cases inside : id ∈ region
    · simp [own, inside]
    · rw [if_neg (by simpa using inside)]
      cases document.insertBefore after id <;> simp [own, inside]

/-- A binding is refused exactly if the document, as it is before, refuses it. -/
theorem update_eq_error_iff :
    (update document anchor value).outcome = .error cause ↔
      ∃ node defect, cause = .invalidNode node defect ∧
        Refuses document anchor value node defect := by
  constructor
  · intro refused
    cases anchor with
    | region before after =>
        cases value with
        | text data =>
            obtain ⟨textless, alone, rfl⟩ := (fillWithText_eq_error_iff wellFormed).1 refused
            exact ⟨_, _, rfl, .noPlace textless alone⟩
        | node id =>
            rcases (fillWithNode_eq_error_iff wellFormed).1 refused with
              ⟨own, rfl⟩ | ⟨foreign, outside, node, defect, rfl, bars⟩
            · exact ⟨_, _, rfl, .ownBoundary own⟩
            · exact ⟨_, _, rfl, .barred foreign outside bars⟩
        | _ => contradiction
    | attributeValue element name =>
        cases value with
        | text data =>
            rcases updateAttribute_eq_error_iff.1 refused with
              ⟨absent, rfl⟩ | ⟨content, present, nameless, rfl⟩
            · exact ⟨_, _, rfl, .missingElement absent⟩
            · exact ⟨_, _, rfl, .noElement present nameless⟩
        | _ => contradiction
  · rintro ⟨node, defect, rfl, refuses⟩
    cases refuses with
    | missingElement absent => exact updateAttribute_eq_error_iff.2 (.inl ⟨absent, rfl⟩)
    | noElement present nameless =>
        exact updateAttribute_eq_error_iff.2 (.inr ⟨_, present, nameless, rfl⟩)
    | noPlace textless alone =>
        exact (fillWithText_eq_error_iff wellFormed).2 ⟨textless, alone, rfl⟩
    | ownBoundary own => exact (fillWithNode_eq_error_iff wellFormed).2 (.inl ⟨own, rfl⟩)
    | barred foreign outside bars =>
        exact (fillWithNode_eq_error_iff wellFormed).2
          (.inr ⟨foreign, outside, _, _, rfl, bars⟩)

end Causes

/-! ## What a refused value leaves -/

theorem document_fillWithText_of_refused {region : List NodeId} {after : NodeId} {data : String}
    (refused : (fillWithText document region after data).outcome = .error cause) :
    (fillWithText document region after data).document = (document.create (.text data)).1 := by
  cases search : region.find? (isText document) with
  | some id => simp [fillWithText, search] at refused
  | none =>
      cases outcome : (document.create (.text data)).1.insertBefore after
          (document.create (.text data)).2 with
      | ok inserted => simp [fillWithText, search, outcome] at refused
      | error failed => simp only [fillWithText, search, outcome]

theorem document_fillWithNode_of_refused {region : List NodeId} {before : Option NodeId}
    {after id : NodeId}
    (refused : (fillWithNode document region before after id).outcome = .error cause) :
    (fillWithNode document region before after id).document = document := by
  unfold fillWithNode at refused ⊢
  split
  · rfl
  · rename_i foreign
    rw [if_neg foreign] at refused
    split
    · rename_i inside
      rw [if_pos inside] at refused
      contradiction
    · rename_i outside
      rw [if_neg outside] at refused
      cases outcome : document.insertBefore after id with
      | ok inserted => simp [outcome] at refused
      | error failed => rfl

theorem document_updateAttribute_of_refused {element : NodeId} {name : String}
    (refused : (updateAttribute document element name value).outcome = .error cause) :
    (updateAttribute document element name value).document = document := by
  cases value with
  | text data =>
      simp only [updateAttribute, Attempt.ofEdit] at refused ⊢
      cases outcome : document.setAttribute element name data with
      | ok edited => simp [outcome] at refused
      | error failed => rfl
  | _ => contradiction

/-- A refused value leaves the document as it is, but for a new text if the value is a text. -/
theorem document_update_of_refused
    (refused : (update document anchor value).outcome = .error cause) :
    (update document anchor value).document = document ∨
      ∃ data, value = .text data ∧
        (update document anchor value).document = (document.create (.text data)).1 := by
  cases anchor with
  | region before after =>
      cases value with
      | text data => exact .inr ⟨data, rfl, document_fillWithText_of_refused refused⟩
      | node id => exact .inl (document_fillWithNode_of_refused refused)
      | _ => contradiction
  | attributeValue element name => exact .inl (document_updateAttribute_of_refused refused)

/-- Nothing that is written of a document shows that it refused a value. -/
theorem markup_update_of_refused (wellFormed : document.WellFormed)
    (refused : (update document anchor value).outcome = .error cause) {id : NodeId}
    (within : id < document.size) :
    (update document anchor value).document.markup id = document.markup id := by
  rcases document_update_of_refused refused with same | ⟨data, _, created⟩
  · rw [same]
  · rw [created]
    exact wellFormed.markup_create (Content.hasDistinctNames_of_attributes_eq_nil rfl) within

/-- Whatever an anchor names, a value that is refused there damages nothing: every node keeps the
record that it had, and no more is left than a text that stands nowhere.  An attribute is bound to
a node or an absent value without fail, whether or not there is such an element. -/
theorem update_refused (reachable : document.Reachable) :
    (∀ anchor value cause, (update document anchor value).outcome = .error cause →
      document.GainsTextAtMost (update document anchor value).document) ∧
    ∀ element name value, (value.isAbsent = true ∨ ∃ id, value = .node id) →
      (update document (.attributeValue element name) value).outcome = .ok () := by
  have wellFormed := reachable.wellFormed
  refine ⟨fun anchor value cause refused => ?_, fun element name value noText => ?_⟩
  · rcases document_update_of_refused refused with same | ⟨data, _, created⟩
    · rw [same]
      exact gainsTextAtMost_self document
    · rw [created]
      exact wellFormed.gainsTextAtMost_create data
  · cases outcome : (update document (.attributeValue element name) value).outcome with
    | ok _ => rfl
    | error cause =>
        obtain ⟨node, defect, _, refuses⟩ := (update_eq_error_iff wellFormed).1 outcome
        obtain ⟨data, rfl⟩ := refuses.exists_text
        rcases noText with absent | ⟨id, same⟩ <;> contradiction

/-- An anchor begins after the first of two elements and ends at their parent, which stands in no
row, or at a text in another row.  Its region is the second element, which stays where it is when a
new text or the parent itself is refused. -/
theorem update_refused_at_stale_anchors :
    let document := Document.empty.perform (.parse false "<p>a</p><b></b>")
    (update document (.region (some 1) 0) (.text "x")).outcome =
        .error (.invalidNode 0 .referenceHasNoParent) ∧
      regionNodes document (.region (some 1) 0) = [3] ∧
      document.GainsTextAtMost (update document (.region (some 1) 0) (.text "x")).document ∧
      (update document (.region (some 1) 2) (.node 0)).outcome =
        .error (.invalidNode 0 .insertedIntoItself) ∧
      document.GainsTextAtMost (update document (.region (some 1) 2) (.node 0)).document ∧
      (update document (.attributeValue 99 "class") .null).outcome = .ok () := by
  intro document
  have reachable : document.Reachable := Reachable.empty.onward rfl rfl
  have placeless : (update document (.region (some 1) 0) (.text "x")).outcome =
      .error (.invalidNode 0 .referenceHasNoParent) := by
    decide +kernel
  have circular : (update document (.region (some 1) 2) (.node 0)).outcome =
      .error (.invalidNode 0 .insertedIntoItself) := by
    decide +kernel
  have harmless := update_refused reachable
  exact ⟨placeless, by decide +kernel, harmless.1 _ _ _ placeless, circular,
    harmless.1 _ _ _ circular, harmless.2 99 "class" .null (.inl rfl)⟩

end Anchor

end MarkupTemplate
