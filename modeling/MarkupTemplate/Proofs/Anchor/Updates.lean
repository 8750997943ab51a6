import MarkupTemplate.Proofs.Anchor.Region

/-!
# Binding slots

What comes of binding an anchor, for every kind of anchor and value.  A region that stands in a row
is refilled, and an attribute of an element is put or erased; neither is refused unless the value
is a node that may not stand there.  Whatever is bound where, nodes keep their kind, and elements
their name.
-/

namespace MarkupTemplate

open Document

variable {document : Document}

/-- The text that a slot shows once it is bound to the value, if it shows one. -/
def Value.text? : Value → Option String
  | .text data => some data
  | _ => none

/-- The nodes are a text with the data of the value, or there are none if it has none. -/
def Document.Presents (document : Document) (nodes : List NodeId) (value : Value) : Prop :=
  nodes.map document.content? = value.text?.toList.map fun data => some (.text data)

/-- What remains of a content when its texts and attributes are left out. -/
def Content.husk : Content → Content
  | .element name _ => .element name []
  | .text _ => .text ""
  | .comment _ => .comment ""
  | other => other

/-- A content without a name or data is known from its husk. -/
theorem Content.eq_of_husk {found : Option Content} {bare : Content} (nameless : bare.name? = none)
    (dataless : bare.data? = none) (same : found.map husk = (some bare).map husk) :
    found = some bare := by
  obtain ⟨content, rfl, kept⟩ := Option.map_eq_some_iff.1 same
  cases bare with
  | fragment => cases content <;> first | rfl | contradiction
  | boundary => cases content <;> first | rfl | contradiction
  | _ => contradiction

/-- The attributes of an element after one of them was bound to a value. -/
def Attribute.bind (attributes : List Attribute) (name : String) : Value → List Attribute
  | .text data => put attributes name data
  | _ => erase attributes name

namespace Anchor

/-! ## Regions -/

/-- What a value puts into a region that held these nodes, and what it takes from elsewhere. -/
inductive Fills (old new : Document) (region : List NodeId) :
    Value → List NodeId → List NodeId → Prop
  | text {data : String} {id : NodeId} (place : id ∈ region ∨ id = old.size)
      (content : new.content? id = some (.text data)) :
      Fills old new region (.text data) [] [id]
  | node {id : NodeId} (content : ∀ other, new.content? other = old.content? other) :
      Fills old new region (.node id) (carried old id) (carried old id)
  | absent {value : Value} (absent : value.isAbsent = true)
      (content : ∀ other, new.content? other = old.content? other) :
      Fills old new region value [] []

/-- What leaves its place elsewhere when a region is bound to the value. -/
def takenBy (document : Document) : Value → List NodeId
  | .node id => carried document id
  | _ => []

/-- What a region that held these nodes holds once it is bound to the value. -/
def fillingOf (document : Document) (region : List NodeId) : Value → List NodeId
  | .text _ => [textPlace document region]
  | .node id => carried document id
  | _ => []

/-- What a node is once a region that held these nodes is bound to the value. -/
def contentAfter (document : Document) (region : List NodeId) (id : NodeId) :
    Value → Option Content
  | .text data =>
      if id = textPlace document region then some (.text data) else document.content? id
  | _ => document.content? id

section Regions

variable {parent after : NodeId} {left region right : List NodeId}

/-- A region that stands in a row is refilled by every value but a node that may not stand there. -/
theorem refills_update (wellFormed : document.WellFormed)
    (row : document.children parent = left ++ (region ++ after :: right)) {value : Value}
    (admitted : ∀ id, value = .node id → id < document.size ∧
      document.isInclusiveAncestor id parent = false ∧ id ≠ after ∧ left.getLast? ≠ some id) :
    (update document (.region left.getLast? after) value).outcome = .ok () ∧
      Refills document (update document (.region left.getLast? after) value).document parent left
        (after :: right) (takenBy document value) (fillingOf document region value) ∧
      ∀ other, (update document (.region left.getLast? after) value).document.content? other =
        contentAfter document region other value := by
  have found := regionNodes_of_row wellFormed row
  cases value with
  | text data =>
      simp only [update, Attempt.logged, updateRegion, found]
      exact refills_fillWithText wellFormed row data
  | node id =>
      simp only [update, Attempt.logged, updateRegion, found]
      obtain ⟨present, apart, notAfter, notBefore⟩ := admitted id rfl
      exact refills_fillWithNode wellFormed row present apart notAfter notBefore
  | _ =>
      simp only [update, Attempt.logged, updateRegion, found]
      exact ⟨trivial, refills_of_absent wellFormed row, content?_clear document region⟩

theorem exists_refills (wellFormed : document.WellFormed)
    (row : document.children parent = left ++ (region ++ after :: right)) {value : Value}
    (admitted : ∀ id, value = .node id → id < document.size ∧
      document.isInclusiveAncestor id parent = false ∧ id ≠ after ∧ left.getLast? ≠ some id) :
    ∃ taken filling,
      (update document (.region left.getLast? after) value).outcome = .ok () ∧
      Refills document (update document (.region left.getLast? after) value).document parent left
        (after :: right) taken filling ∧
      Fills document (update document (.region left.getLast? after) value).document region value
        taken filling := by
  obtain ⟨outcome, refills, contents⟩ := refills_update wellFormed row admitted
  refine ⟨_, _, outcome, refills, ?_⟩
  cases value with
  | text data => exact .text (textPlace_mem_or document region) ((contents _).trans (if_pos rfl))
  | node id => exact .node contents
  | _ => exact .absent rfl contents

end Regions

/-! ## Attributes -/

/-- Binding an attribute of an element is never refused. -/
theorem update_attributeValue {id : NodeId} {tag : String} {attributes : List Attribute}
    (present : document.content? id = some (.element tag attributes)) (name : String)
    (value : Value) :
    (update document (.attributeValue id name) value).outcome = .ok () ∧
      (update document (.attributeValue id name) value).document =
        document.setContent id (.element tag (Attribute.bind attributes name value)) := by
  have erased := eraseAttribute_of_content? present name
  cases value with
  | text data =>
      have put : document.setAttribute id name data =
          .ok (document.setContent id (.element tag (Attribute.put attributes name data))) := by
        simp only [setAttribute, present]
      simp [update, Attempt.logged, updateAttribute, Attempt.ofEdit, put, Attribute.bind]
  | _ => exact ⟨rfl, erased⟩

/-! ## What no binding changes -/

theorem lt_size_of_insertBefore {edited : Document} {reference id : NodeId}
    (inserted : document.insertBefore reference id = .ok edited) : id < document.size := by
  by_contra missing
  unfold Document.insertBefore Document.insert at inserted
  rw [content?_eq_none_iff.2 (Nat.le_of_not_lt missing)] at inserted
  repeat' split at inserted
  all_goals contradiction

theorem exists_invalidNode_of_insertBefore {reference id : NodeId} {cause : Error}
    (refused : document.insertBefore reference id = .error cause) :
    ∃ node defect, cause = .invalidNode node defect := by
  unfold Document.insertBefore Document.insert at refused
  repeat' split at refused
  all_goals first
    | contradiction
    | exact ⟨_, _, (Except.error.inj refused).symm⟩

theorem content?_insertBefore {edited : Document} {reference id : NodeId}
    (inserted : document.insertBefore reference id = .ok edited) (other : NodeId) :
    edited.content? other = document.content? other := by
  unfold Document.insertBefore at inserted
  split at inserted
  · contradiction
  · exact content?_insert inserted other

theorem husk_setContent {id other : NodeId} {old new : Content}
    (present : document.content? id = some old) (same : new.husk = old.husk) :
    ((document.setContent id new).content? other).map Content.husk =
      (document.content? other).map Content.husk := by
  rw [content?_setContent]
  split
  · rename_i here
    rw [← here.1, present, Option.map_some, Option.map_some, same]
  · rfl

theorem husk_fillWithText (region : List NodeId) (after : NodeId) (data : String) {id : NodeId}
    (within : id < document.size) :
    ((fillWithText document region after data).document.content? id).map Content.husk =
      (document.content? id).map Content.husk := by
  unfold fillWithText
  split
  · rename_i text found
    obtain ⟨old, present⟩ := exists_text_of_isText (List.find?_some found)
    simp only [content?_clear]
    exact husk_setContent present rfl
  · simp only
    split
    · rename_i inserted
      rw [content?_clear, content?_insertBefore inserted, content?_create,
        if_neg (Nat.ne_of_lt within)]
    · rw [content?_create, if_neg (Nat.ne_of_lt within)]

theorem husk_fillWithNode (region : List NodeId) (before : Option NodeId) (after node id : NodeId) :
    ((fillWithNode document region before after node).document.content? id).map Content.husk =
      (document.content? id).map Content.husk := by
  unfold fillWithNode
  split
  · rfl
  · split
    · rw [content?_clear]
    · split
      · rename_i inserted
        rw [content?_clear, content?_insertBefore inserted]
      · rfl

theorem husk_updateAttribute (element : NodeId) (name : String) (value : Value) (id : NodeId) :
    ((updateAttribute document element name value).document.content? id).map Content.husk =
      (document.content? id).map Content.husk := by
  have erased : ((document.eraseAttribute element name).content? id).map Content.husk =
      (document.content? id).map Content.husk := by
    cases present : document.content? element with
    | none => rw [eraseAttribute_of_missing present]
    | some content =>
        rw [eraseAttribute_of_content? present]
        exact husk_setContent present (by cases content <;> rfl)
  cases value with
  | text data =>
      simp only [updateAttribute, Attempt.ofEdit]
      split
      · rename_i edited set
        unfold setAttribute at set
        split at set
        · contradiction
        · rename_i tag attributes present
          rw [← Except.ok.inj set]
          exact husk_setContent present rfl
        · contradiction
      · rfl
  | _ => exact erased

/-- Nodes keep their kind, and elements their name. -/
theorem husk_update (anchor : Anchor) (value : Value) {id : NodeId}
    (within : id < document.size) :
    ((update document anchor value).document.content? id).map Content.husk =
      (document.content? id).map Content.husk := by
  cases anchor with
  | region before after =>
      cases value with
      | text data => exact husk_fillWithText _ after data within
      | node node => exact husk_fillWithNode _ before after node id
      | _ => exact congrArg (Option.map Content.husk) (content?_clear document _ id)
  | attributeValue element name => exact husk_updateAttribute element name value id

/-- No binding removes a node from the document. -/
theorem size_le_update (anchor : Anchor) (value : Value) :
    document.size ≤ (update document anchor value).document.size := by
  by_contra fewer
  have within := Nat.lt_of_not_le fewer
  have husk := husk_update anchor value within
  obtain ⟨content, present⟩ := exists_content_of_lt (Nat.lt_of_not_le fewer)
  rw [present, content?_eq_none_iff.2 (Nat.le_refl _)] at husk
  contradiction

/-! ## Refusals -/

/-- Whatever is refused is refused for a node that cannot be inserted or changed as asked. -/
theorem exists_invalidNode_of_update {anchor : Anchor} {value : Value} {cause : Error}
    (refused : (update document anchor value).outcome = .error cause) :
    ∃ node defect, cause = .invalidNode node defect := by
  cases anchor with
  | region before after =>
      cases value with
      | text data =>
          simp only [update, Attempt.logged, updateRegion, fillWithText] at refused
          repeat' split at refused
          all_goals first
            | contradiction
            | rename_i inserted
              exact exists_invalidNode_of_insertBefore (Except.error.inj refused ▸ inserted)
      | node id =>
          simp only [update, Attempt.logged, updateRegion, fillWithNode] at refused
          repeat' split at refused
          all_goals first
            | contradiction
            | exact ⟨_, _, (Except.error.inj refused).symm⟩
            | rename_i inserted
              exact exists_invalidNode_of_insertBefore (Except.error.inj refused ▸ inserted)
      | _ => contradiction
  | attributeValue element name =>
      cases value with
      | text data =>
          simp only [update, Attempt.logged, updateAttribute, Attempt.ofEdit] at refused
          split at refused
          · contradiction
          · rename_i set
            rw [Except.error.inj refused] at set
            unfold setAttribute at set
            split at set
            · exact ⟨_, _, (Except.error.inj set).symm⟩
            · contradiction
            · exact ⟨_, _, (Except.error.inj set).symm⟩
      | _ => contradiction

end Anchor

end MarkupTemplate
