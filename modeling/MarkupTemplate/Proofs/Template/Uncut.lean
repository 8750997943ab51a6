import MarkupTemplate.Proofs.Template.Patterns

/-!
# Cut trees and the texts they were cut from

The pattern of a cut tree is filled with the marker by the markup of the tree before it was cut, if
the marker has no characters that are escaped.  The cut only takes markers out of texts, so nothing
stands in a leaf afterwards.
-/

namespace MarkupTemplate

open Template

/-- No character of the marker is escaped, in texts or in attributes. -/
structure IsInert (marker : String) : Prop where
  inText : Reference.escapeText marker.toList = marker.toList
  inAttribute : Reference.escapeAttribute marker.toList = marker.toList

theorem IsInert.textMarkup_eq {marker : String} (inert : IsInert marker) (verbatim : Bool) :
    textMarkup verbatim marker = marker.toList := by
  unfold textMarkup
  split
  · rfl
  · exact inert.inText

theorem isInert_defaultMarker : IsInert defaultMarker := ⟨by decide, by decide⟩

/-! ## Leaves -/

namespace Forest

theorem LeavesBare.append {earlier later : Forest Content} (first : earlier.LeavesBare)
    (second : later.LeavesBare) : (earlier ++ later).LeavesBare := by
  induction earlier with
  | empty => exact second
  | plant content children siblings _ siblingsHypothesis =>
      exact ⟨first.1, first.2.1, siblingsHypothesis first.2.2⟩

theorem leavesBare_cutRow (pieces : List (List Char)) : (cutRow pieces).LeavesBare :=
  cutRow_induction trivial (fun _ _ => ⟨fun _ => rfl, trivial, trivial⟩)
    ⟨fun _ => rfl, trivial, fun _ => rfl, trivial, trivial⟩ LeavesBare.append pieces

theorem Writable.empty_of_isLeaf {content : Content} {children siblings : Forest Content}
    (writable : (Forest.plant content children siblings).Writable)
    (leaf : content.isLeaf = true) : children = .empty := by
  have admits := writable.1
  cases content with
  | fragment => contradiction
  | element name attributes => exact admits.2.2.2.1 leaf
  | text data => exact admits
  | comment data => exact admits.1
  | boundary => exact admits

theorem leavesBare_isolated (marker : List Char) {forest : Forest Content}
    (writable : forest.Writable) : (forest.isolated marker).LeavesBare := by
  induction forest with
  | empty => trivial
  | plant content children siblings childrenHypothesis siblingsHypothesis =>
      have childless := writable.empty_of_isLeaf
      obtain ⟨_, inside, beside⟩ := writable
      cases content with
      | text data => exact (leavesBare_cutRow _).append (siblingsHypothesis beside)
      | _ =>
          refine ⟨?_, childrenHypothesis inside, siblingsHypothesis beside⟩
          intro leaf
          rw [childless leaf]
          rfl

end Forest

/-! ## Filled with the marker -/

theorem pattern_append (marker : String) (verbatim : Bool) (earlier later : Forest Content) :
    pattern marker verbatim (earlier ++ later) =
      pattern marker verbatim earlier ++ pattern marker verbatim later := by
  induction earlier with
  | empty => rfl
  | plant content children siblings _ siblingsHypothesis =>
      rw [Forest.plant_append, pattern, pattern, siblingsHypothesis, List.append_assoc]

/-- The pattern gives this text when every hole is filled with the marker. -/
def Marks (marker : String) (pattern : List Segment) (out : List Char) : Prop :=
  ∃ count, Fills pattern (List.replicate count marker.toList) out

namespace Marks

variable {marker : String} {pattern more : List Segment} {out result : List Char}

theorem append (first : Marks marker pattern out) (second : Marks marker more result) :
    Marks marker (pattern ++ more) (out ++ result) := by
  obtain ⟨count, filled⟩ := first
  obtain ⟨others, onward⟩ := second
  refine ⟨count + others, ?_⟩
  rw [List.replicate_add]
  exact filled.append onward

theorem of_literal (text : List Char) : Marks marker [.literal text] text :=
  ⟨0, Fills.of_literal text⟩

theorem of_hole (kind : Hole) : Marks marker [.hole kind] marker.toList :=
  ⟨1, Fills.of_hole kind marker.toList⟩

theorem nil : Marks marker [] [] := ⟨0, Fills.nil⟩

end Marks

variable {marker : String}

theorem marks_attributes (inert : IsInert marker) (attributes : List Attribute) :
    Marks marker (attributes.flatMap (attributePattern marker))
      (attributes.flatMap Attribute.markup) := by
  induction attributes with
  | nil => exact Marks.nil
  | cons entry rest inductionHypothesis =>
      rw [List.flatMap_cons, List.flatMap_cons]
      refine Marks.append ?_ inductionHypothesis
      rw [attributePattern]
      split
      · rename_i slot
        rw [Attribute.markup, slot, inert.inAttribute]
        exact ((Marks.of_literal _).append (Marks.of_hole .attributeValue)).append
          (Marks.of_literal [Text.quotationMark])
      · exact Marks.of_literal entry.markup

theorem marks_element (inert : IsInert marker) {name : String} (attributes : List Attribute)
    (verbatim : Bool) {inside : List Segment} {children : Forest Content}
    (marks : Marks marker inside (children.markup (hasVerbatimContent name.toList)))
    (void : isVoidElement name = true → inside = []) :
    Marks marker (nodePattern marker verbatim (.element name attributes) inside)
      ((Forest.single (.element name attributes) children).markup verbatim) := by
  obtain ⟨first, filledAttributes⟩ := marks_attributes inert attributes
  obtain ⟨second, filledInside⟩ := marks
  refine ⟨first + second, ?_⟩
  rw [List.replicate_add]
  refine filledAttributes.element filledInside ?_
  intro isVoid
  rw [void isVoid] at filledInside
  exact filledInside.of_nil.1

theorem marks_piece (verbatim : Bool) (characters : List Char) :
    Marks marker (pattern marker verbatim (Forest.piece characters))
      (textMarkup verbatim (String.ofList characters)) := by
  unfold Forest.piece
  split
  · rename_i empty
    rw [List.isEmpty_iff.1 empty]
    simpa [pattern] using Marks.nil
  · rename_i nonempty
    have spelled : String.ofList characters ≠ "" := by
      rw [ne_eq, String.ofList_eq_empty_iff]
      simpa using nonempty
    simpa [Forest.single, pattern, nodePattern, spelled] using
      Marks.of_literal (textMarkup verbatim (String.ofList characters))

theorem marks_cutRow (inert : IsInert marker) (verbatim : Bool) (pieces : List (List Char)) :
    Marks marker (pattern marker verbatim (Forest.cutRow pieces))
      (textMarkup verbatim (String.ofList (marker.toList.intercalate pieces))) := by
  induction pieces with
  | nil => simpa [Forest.cutRow, pattern] using Marks.nil
  | cons first others inductionHypothesis =>
      cases others with
      | nil => simpa [Forest.cutRow] using marks_piece verbatim first
      | cons next rest =>
          have slot : pattern marker verbatim (Forest.single (.text "") .empty) =
              [.hole (.region verbatim)] := rfl
          have boundary : pattern marker verbatim (Forest.single .boundary .empty) = [] := rfl
          rw [List.intercalate_cons_cons, String.ofList_append, String.ofList_append,
            String.ofList_toList, textMarkup_append, textMarkup_append, inert.textMarkup_eq,
            List.append_assoc, Forest.cutRow, pattern_append, pattern_append, pattern_append, slot,
            boundary, List.nil_append]
          exact (marks_piece verbatim first).append
            ((Marks.of_hole _).append inductionHypothesis)

/-- The pattern of a cut tree gives the markup of the uncut tree. -/
theorem marks_isolated (inert : IsInert marker) (verbatim : Bool) {forest : Forest Content}
    (writable : forest.Writable) :
    Marks marker (pattern marker verbatim (forest.isolated marker.toList))
      (forest.markup verbatim) := by
  induction forest generalizing verbatim with
  | empty => exact Marks.nil
  | plant content children siblings childrenHypothesis siblingsHypothesis =>
      have childless := writable.empty_of_isLeaf
      obtain ⟨admits, inside, beside⟩ := writable
      have onward := siblingsHypothesis verbatim beside
      cases content with
      | text data =>
          have here := marks_cutRow inert verbatim (Text.pieces marker.toList data.toList)
          rw [pieces_of_text] at here
          rw [Forest.isolated, pattern_append]
          exact here.append onward
      | element name attributes =>
          have element := marks_element inert attributes verbatim
            (childrenHypothesis (hasVerbatimContent name.toList) inside) fun void => by
              rw [childless void]
              rfl
          have whole := element.append onward
          rw [← Forest.markup_append] at whole
          exact whole
      | comment data => exact (Marks.of_literal (commentMarkup data)).append onward
      | boundary => exact Marks.nil.append onward
      | fragment => exact absurd admits id

end MarkupTemplate
