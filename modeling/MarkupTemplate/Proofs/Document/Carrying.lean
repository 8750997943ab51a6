import MarkupTemplate.Proofs.Document.Edits

/-!
# Edits of what nodes carry

Data and attributes may be changed without a thought for links: the rows of children stay as they
are.  Dividing a text is the one edit of this kind that also makes a node.
-/

namespace MarkupTemplate

namespace Attribute

theorem nodup_map_name_put {attributes : List Attribute}
    (distinct : (attributes.map Attribute.name).Nodup) (name value : String) :
    ((put attributes name value).map Attribute.name).Nodup := by
  rw [map_name_put]
  split
  · exact distinct
  · rename_i unnamed
    rw [isNamed_iff] at unnamed
    refine List.nodup_append'.2 ⟨distinct, List.nodup_singleton name, ?_⟩
    intro other member single
    rw [List.mem_singleton] at single
    exact unnamed (single ▸ member)

theorem nodup_map_name_erase {attributes : List Attribute}
    (distinct : (attributes.map Attribute.name).Nodup) (name : String) :
    ((erase attributes name).map Attribute.name).Nodup :=
  distinct.sublist (List.filter_sublist.map Attribute.name)

end Attribute

namespace Document

variable {document : Document}

/-! ## Attributes that are taken away -/

theorem eraseAttribute_of_content? {id : NodeId} {content : Content}
    (present : document.content? id = some content) (name : String) :
    document.eraseAttribute id name =
      document.setContent id
        (content.mapAttributes fun entries => Attribute.erase entries name) := by
  apply ext_node?
  intro other
  unfold eraseAttribute setContent
  rw [node?_update, node?_update]
  split
  · rename_i same
    subst same
    unfold content? at present
    obtain ⟨node, found, rfl⟩ := Option.map_eq_some_iff.1 present
    rw [found]
    rfl
  · rfl

theorem eraseAttribute_of_missing {id : NodeId} (missing : document.content? id = none)
    (name : String) : document.eraseAttribute id name = document := by
  apply ext_node?
  intro other
  unfold eraseAttribute
  rw [node?_update]
  split
  · rename_i same
    subst same
    unfold content? at missing
    rw [Option.map_eq_none_iff.1 missing]
    rfl
  · rfl

namespace WellFormed

theorem setText (wellFormed : WellFormed document) {id : NodeId} {old : String}
    (present : document.content? id = some (.text old)) (data : String) :
    WellFormed (document.setContent id (.text data)) :=
  wellFormed.setContent present rfl (by simp)
    (Content.hasDistinctNames_of_attributes_eq_nil rfl)

theorem setAttributes (wellFormed : WellFormed document) {id : NodeId} {tag : String}
    {old new : List Attribute} (present : document.content? id = some (.element tag old))
    (distinct : (new.map Attribute.name).Nodup) :
    WellFormed (document.setContent id (.element tag new)) :=
  wellFormed.setContent present rfl (by simp) distinct

theorem setData (wellFormed : WellFormed document) {id : NodeId} {data : String}
    {edited : Document} (changed : document.setData id data = .ok edited) :
    WellFormed edited := by
  unfold Document.setData at changed
  split at changed
  · contradiction
  · rename_i old present
    rw [← Except.ok.inj changed]
    exact wellFormed.setText present data
  · rename_i old present
    rw [← Except.ok.inj changed]
    exact wellFormed.setContent present rfl (by simp)
      (Content.hasDistinctNames_of_attributes_eq_nil rfl)
  · contradiction

theorem setAttribute (wellFormed : WellFormed document) {id : NodeId} {name value : String}
    {edited : Document} (changed : document.setAttribute id name value = .ok edited) :
    WellFormed edited := by
  unfold Document.setAttribute at changed
  split at changed
  · contradiction
  · rename_i tag attributes present
    rw [← Except.ok.inj changed]
    exact wellFormed.setAttributes present
      (Attribute.nodup_map_name_put (wellFormed.distinct present) name value)
  · contradiction

theorem eraseAttribute (wellFormed : WellFormed document) (id : NodeId) (name : String) :
    WellFormed (document.eraseAttribute id name) := by
  cases present : document.content? id with
  | none => rwa [eraseAttribute_of_missing present]
  | some content =>
      rw [eraseAttribute_of_content? present]
      refine wellFormed.setContent present ?_ ?_ ?_
      · cases content <;> rfl
      · cases content <;> simp [Content.mapAttributes]
      · cases content with
        | element tag attributes =>
            exact Attribute.nodup_map_name_erase (wellFormed.distinct present) name
        | _ => exact wellFormed.distinct present

/-! ## Dividing texts -/

theorem divide (wellFormed : WellFormed document) {id : NodeId} {old : String}
    (present : document.content? id = some (.text old)) (head tail : String) :
    WellFormed (document.divide id head tail).1 :=
  (wellFormed.setText present head).createAfter
    (Content.hasDistinctNames_of_attributes_eq_nil rfl) (by simp) id

theorem splitText (wellFormed : WellFormed document) {id : NodeId} {position : Nat}
    {split : Document × NodeId} (divided : document.splitText id position = .ok split) :
    WellFormed split.1 := by
  unfold Document.splitText at divided
  split at divided
  · contradiction
  · rename_i data present
    split at divided
    · rw [← Except.ok.inj divided]
      exact wellFormed.divide present _ _
    · contradiction
  · contradiction

end WellFormed

theorem splitText_of_text {document : Document} {id : NodeId} {head tail : List Char}
    {position : Nat}
    (present : document.content? id = some (.text (String.ofList (head ++ tail))))
    (measured : Text.byteSize head = position) :
    document.splitText id position =
      .ok (document.divide id (String.ofList head) (String.ofList tail)) := by
  have cut : Text.splitAtByte? position (String.ofList (head ++ tail)).toList =
      some (head, tail) :=
    Text.splitAtByte?_eq_some_iff.2 ⟨String.toList_ofList, measured⟩
  simp only [splitText, present, cut]

end Document

end MarkupTemplate
