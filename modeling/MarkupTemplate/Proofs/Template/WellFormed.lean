import MarkupTemplate.Instance
import MarkupTemplate.Proofs.Template.Compiling

/-!
# Templates and well-formed documents

Binding slots and making instances of templates go through edits of documents only, so they keep
documents well formed: whatever the anchors and the values, and also when they are refused halfway.
-/

namespace MarkupTemplate

open Document

variable {document : Document}

/-! ## Binding slots -/

namespace Anchor

theorem wellFormed_clear (wellFormed : document.WellFormed) (nodes : List NodeId) :
    (clear document nodes).WellFormed := by
  unfold clear
  induction nodes generalizing document with
  | nil => exact wellFormed
  | cons id rest inductionHypothesis => exact inductionHypothesis (wellFormed.detach id)

theorem exists_text_of_isText {id : NodeId} (text : isText document id = true) :
    ∃ data, document.content? id = some (.text data) := by
  unfold isText at text
  cases found : document.content? id with
  | none => simp [found] at text
  | some content =>
      cases content with
      | text data => exact ⟨data, rfl⟩
      | _ => simp [found, Content.text?] at text

theorem wellFormed_fillWithText (wellFormed : document.WellFormed) (region : List NodeId)
    (after : NodeId) (data : String) :
    (fillWithText document region after data).document.WellFormed := by
  unfold fillWithText
  split
  · rename_i id found
    obtain ⟨old, present⟩ := exists_text_of_isText (List.find?_some found)
    exact wellFormed_clear (wellFormed.setText present data) _
  · have distinct : (Content.text data).HasDistinctNames :=
      Content.hasDistinctNames_of_attributes_eq_nil rfl
    have created := wellFormed.create distinct
    simp only
    split
    · rename_i inserted
      exact wellFormed_clear (created.insertBefore inserted) _
    · exact created

theorem wellFormed_fillWithNode (wellFormed : document.WellFormed) (region : List NodeId)
    (before : Option NodeId) (after id : NodeId) :
    (fillWithNode document region before after id).document.WellFormed := by
  unfold fillWithNode
  split
  · exact wellFormed
  · split
    · exact wellFormed_clear wellFormed _
    · split
      · rename_i inserted
        exact wellFormed_clear (wellFormed.insertBefore inserted) _
      · exact wellFormed

theorem wellFormed_updateRegion (wellFormed : document.WellFormed) (before : Option NodeId)
    (after : NodeId) (value : Value) :
    (updateRegion document before after value).document.WellFormed := by
  unfold updateRegion
  cases value with
  | text data => exact wellFormed_fillWithText wellFormed _ _ _
  | node id => exact wellFormed_fillWithNode wellFormed _ _ _ _
  | _ => exact wellFormed_clear wellFormed _

theorem wellFormed_updateAttribute (wellFormed : document.WellFormed) (element : NodeId)
    (name : String) (value : Value) :
    (updateAttribute document element name value).document.WellFormed := by
  unfold updateAttribute
  cases value with
  | text data =>
      simp only [Attempt.ofEdit]
      split
      · rename_i changed
        exact wellFormed.setAttribute changed
      · exact wellFormed
  | _ => exact wellFormed.eraseAttribute element name

theorem wellFormed_update (wellFormed : document.WellFormed) (anchor : Anchor) (value : Value) :
    (update document anchor value).document.WellFormed := by
  cases anchor with
  | region before after => exact wellFormed_updateRegion wellFormed before after value
  | attributeValue element name =>
      exact wellFormed_updateAttribute wellFormed element name value

end Anchor

/-! ## Instances -/

namespace Instance

theorem wellFormed_bindAll (wellFormed : document.WellFormed) (bound : List (Anchor × Value)) :
    (bindAll document bound).document.WellFormed := by
  induction bound generalizing document with
  | nil => exact wellFormed
  | cons first rest inductionHypothesis =>
      obtain ⟨anchor, value⟩ := first
      have updated := Anchor.wellFormed_update wellFormed anchor value
      rw [bindAll, Attempt.andThen]
      split
      · exact inductionHypothesis updated
      · exact updated

theorem wellFormed_create (wellFormed : document.WellFormed) {template : Template}
    (templateFormed : template.document.WellFormed) (values : List Value) :
    (create document template values).document.WellFormed := by
  unfold create
  split
  · exact wellFormed
  · split
    · exact wellFormed
    · rename_i copied root made
      obtain ⟨_, _, _, copy⟩ := copiedIn_of_copyFrom wellFormed templateFormed made
      split
      · exact copy.wellFormed
      · rename_i anchors _
        have bound := wellFormed_bindAll copy.wellFormed (anchors.zip values)
        rw [Attempt.andThen]
        split
        · exact bound
        · exact bound

theorem wellFormed_mount (wellFormed : document.WellFormed) {made : Instance} {parent : NodeId}
    {mounted : Document × Instance} (done : mount document made parent = .ok mounted) :
    mounted.1.WellFormed := by
  unfold mount at done
  cases appended : document.append parent made.root with
  | error cause =>
      rw [appended] at done
      contradiction
  | ok edited =>
      rw [appended] at done
      rw [← Except.ok.inj done]
      exact wellFormed.append appended

end Instance

end MarkupTemplate
