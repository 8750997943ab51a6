import MarkupTemplate.Proofs.Template.Uncut
import MarkupTemplate.Proofs.Text.Pieces

/-!
# Filled trees that can be written

A cut tree that is filled with texts can be written as markup that reads back, if no region takes
texts exactly as they are.  Inside of an element that does, neither the cut nor the filling has
changed anything then; everywhere else any text can stand.
-/

namespace MarkupTemplate

open Template

variable {marker : String}

theorem mem_holes_left {hole : Hole} {first second : List Segment}
    (absent : hole ∉ holes (first ++ second)) : hole ∉ holes first := by
  rw [holes_append] at absent
  exact fun member => absent (List.mem_append_left _ member)

theorem mem_holes_right {hole : Hole} {first second : List Segment}
    (absent : hole ∉ holes (first ++ second)) : hole ∉ holes second := by
  rw [holes_append] at absent
  exact fun member => absent (List.mem_append_right _ member)

/-- A text is bound to a text, or it goes. -/
theorem fillNode_text (marker data : String) (children : Forest Content) (values : List Value) :
    fillNode marker (.text data) children values = .empty ∨
      ∃ bound inside, fillNode marker (.text data) children values =
        Forest.single (.text bound) inside ∧ (inside = .empty ∨ inside = children) := by
  unfold fillNode
  by_cases slot : data = ""
  · simp only [slot, ↓reduceIte]
    cases values with
    | nil => exact Or.inr ⟨_, children, rfl, Or.inr rfl⟩
    | cons value rest =>
        cases value with
        | text bound => exact Or.inr ⟨bound, .empty, rfl, Or.inl rfl⟩
        | _ => exact Or.inl rfl
  · simp only [slot, ↓reduceIte]
    exact Or.inr ⟨data, children, rfl, Or.inr rfl⟩

namespace Forest

theorem Writable.leavesBare {forest : Forest Content} (writable : forest.Writable) :
    forest.LeavesBare := by
  induction forest with
  | empty => trivial
  | plant content children siblings childrenHypothesis siblingsHypothesis =>
      exact ⟨writable.empty_of_isLeaf, childrenHypothesis writable.2.1,
        siblingsHypothesis writable.2.2⟩

/-! ## Rows of texts -/

theorem holdsTexts_append {earlier later : Forest Content} :
    (earlier ++ later).HoldsTexts ↔ earlier.HoldsTexts ∧ later.HoldsTexts := by
  simp only [HoldsTexts, roots_append, List.forall_mem_append]

theorem holdsTexts_single {content : Content} {children : Forest Content} :
    (single content children).HoldsTexts ↔
      content = .boundary ∨ ∃ data, content = .text data := by
  simp only [HoldsTexts, single, roots, List.forall_mem_singleton]

theorem holdsTexts_cutRow (pieces : List (List Char)) : (cutRow pieces).HoldsTexts := by
  refine cutRow_induction ?_ ?_ ?_ ?_ pieces
  · simp [HoldsTexts, roots]
  · exact fun data _ => holdsTexts_single.2 (Or.inr ⟨data, rfl⟩)
  · exact holdsTexts_append.2
      ⟨holdsTexts_single.2 (Or.inr ⟨"", rfl⟩), holdsTexts_single.2 (Or.inl rfl)⟩
  · exact fun first second => holdsTexts_append.2 ⟨first, second⟩

theorem HoldsTexts.isolated {forest : Forest Content} (holds : forest.HoldsTexts)
    (marker : List Char) : (forest.isolated marker).HoldsTexts := by
  induction forest with
  | empty => exact holds
  | plant content children siblings _ siblingsHypothesis =>
      rw [plant_eq_single_append, holdsTexts_append, holdsTexts_single] at holds
      have beside := siblingsHypothesis holds.2
      rcases holds.1 with rfl | ⟨data, rfl⟩
      · exact holdsTexts_append.2 ⟨holdsTexts_single.2 (Or.inl rfl), beside⟩
      · exact holdsTexts_append.2 ⟨holdsTexts_cutRow _, beside⟩

theorem HoldsTexts.fill {forest : Forest Content} (holds : forest.HoldsTexts) (marker : String)
    (values : List Value) : (Template.fill marker forest values).HoldsTexts := by
  induction forest generalizing values with
  | empty => exact holds
  | plant content children siblings _ siblingsHypothesis =>
      rw [plant_eq_single_append, holdsTexts_append, holdsTexts_single] at holds
      rw [Template.fill, holdsTexts_append]
      refine ⟨?_, siblingsHypothesis holds.2 _⟩
      rcases holds.1 with rfl | ⟨data, rfl⟩
      · exact holdsTexts_single.2 (Or.inl rfl)
      · rcases fillNode_text marker data (Template.fill marker children
          ((values.drop (slotCountAt marker (.text data))).take (slotCount marker children)))
          (values.take (slotCountAt marker (.text data))) with gone | ⟨bound, inside, kept, _⟩
        · rw [gone]
          simp [HoldsTexts, roots]
        · rw [kept]
          exact holdsTexts_single.2 (Or.inr ⟨bound, rfl⟩)

/-- All holes among texts that are written exactly as they are take values in the same way. -/
theorem HoldsTexts.holes_eq_nil {forest : Forest Content} (holds : forest.HoldsTexts)
    (apart : Hole.region true ∉ holes (pattern marker true forest)) :
    holes (pattern marker true forest) = [] := by
  induction forest with
  | empty => rfl
  | plant content children siblings _ siblingsHypothesis =>
      rw [plant_eq_single_append, holdsTexts_append, holdsTexts_single] at holds
      rw [pattern] at apart ⊢
      rw [holes_append, siblingsHypothesis holds.2 (mem_holes_right apart), List.append_nil]
      rcases holds.1 with rfl | ⟨data, rfl⟩
      · rfl
      · have here := mem_holes_left apart
        rw [nodePattern] at here ⊢
        split at here
        · simp at here
        · rename_i nonempty
          rw [if_neg nonempty]
          rfl

/-! ## Cut trees that can be written -/

/-- Where no text is a slot, nothing was cut. -/
theorem isolated_eq_self {forest : Forest Content} (holds : forest.HoldsTexts)
    (writable : forest.Writable) (plain : forest.IsPlain) {verbatim : Bool}
    (none : holes (pattern marker verbatim (forest.isolated marker.toList)) = []) :
    forest.isolated marker.toList = forest := by
  induction forest with
  | empty => rfl
  | plant content children siblings _ siblingsHypothesis =>
      obtain ⟨admits, _, beside⟩ := writable
      obtain ⟨kept, _, besidePlain⟩ := isPlain_plant.1 plain
      rw [plant_eq_single_append, holdsTexts_append, holdsTexts_single] at holds
      rcases holds.1 with rfl | ⟨data, rfl⟩
      · exact absurd rfl kept.1
      · rw [isolated, pattern_append, holes_append, List.append_eq_nil_iff] at none
        have nonempty : data.toList ≠ [] := by
          rw [ne_eq, String.toList_eq_nil_iff]
          exact fun empty => kept.2 (by rw [empty])
        have childless : children = .empty := admits
        have uncut : Text.pieces marker.toList data.toList = [data.toList] := by
          refine Text.pieces_eq_singleton ?_
          have some_piece := Text.pieces_ne_nil marker.toList data.toList
          cases shape : Text.pieces marker.toList data.toList with
          | nil => exact absurd shape some_piece
          | cons first others =>
              cases others with
              | nil => rfl
              | cons next rest =>
                  have cut := none.1
                  rw [shape, cutRow, pattern_append, pattern_append, holes_append, holes_append]
                    at cut
                  simp [single, pattern, nodePattern] at cut
        rw [isolated, uncut, siblingsHypothesis holds.2 beside besidePlain none.2, cutRow, piece,
          if_neg (by simpa using nonempty), String.ofList_toList, childless]
        rfl

theorem writable_cutRow (pieces : List (List Char)) : (cutRow pieces).Writable := by
  refine cutRow_induction trivial ?_ ?_ ?_ pieces
  · exact fun _ _ => ⟨rfl, trivial, trivial⟩
  · exact ⟨rfl, trivial, rfl, trivial, trivial⟩
  · exact fun first second => writable_append.2 ⟨first, second⟩

/-- The cut tree can be written, too, if no region takes texts exactly as they are. -/
theorem Writable.isolated {forest : Forest Content} (writable : forest.Writable)
    (plain : forest.IsPlain) {verbatim : Bool}
    (apart : Hole.region true ∉
      holes (pattern marker verbatim (forest.isolated marker.toList))) :
    (forest.isolated marker.toList).Writable := by
  induction forest generalizing verbatim with
  | empty => trivial
  | plant content children siblings childrenHypothesis siblingsHypothesis =>
      have childless := writable.empty_of_isLeaf
      obtain ⟨admits, inside, beside⟩ := writable
      obtain ⟨_, insidePlain, besidePlain⟩ := isPlain_plant.1 plain
      cases content with
      | text data =>
          rw [Forest.isolated, pattern_append] at apart
          rw [Forest.isolated, writable_append]
          exact ⟨writable_cutRow _, siblingsHypothesis beside besidePlain (mem_holes_right apart)⟩
      | element name attributes =>
          have bare : (Content.element name attributes).isLeaf = true →
              children.isolated marker.toList = .empty := by
            intro void
            rw [childless void]
            rfl
          have here := mem_holes_left apart
          rw [holes_nodePattern (bare_pattern bare)] at here
          have insideApart := fun member => here (List.mem_append_right _ member)
          refine ⟨?_, childrenHypothesis inside insidePlain insideApart,
            siblingsHypothesis beside besidePlain (mem_holes_right apart)⟩
          obtain ⟨isName, named, distinct, _, raw, verbatimOpen⟩ := admits
          refine ⟨isName, named, distinct, bare, fun isRaw => (raw isRaw).isolated _, ?_⟩
          intro isVerbatim
          have holds := raw (hasRawContent_of_hasVerbatimContent isVerbatim)
          rw [Content.takesVerbatim, isVerbatim] at insideApart
          rw [isolated_eq_self holds inside insidePlain
            ((holds.isolated marker.toList).holes_eq_nil insideApart)]
          exact verbatimOpen isVerbatim
      | fragment => exact absurd admits id
      | comment data =>
          rw [childless rfl]
          exact ⟨⟨rfl, admits.2⟩, trivial,
            siblingsHypothesis beside besidePlain (mem_holes_right apart)⟩
      | boundary =>
          rw [childless rfl]
          exact ⟨rfl, trivial, siblingsHypothesis beside besidePlain (mem_holes_right apart)⟩

/-! ## Filled trees that can be written -/

theorem fillAttributes_eq_self {attributes : List Attribute} (none : marked marker attributes = [])
    (values : List Value) : fillAttributes marker attributes values = attributes := by
  induction attributes with
  | nil => rfl
  | cons entry rest inductionHypothesis =>
      rw [marked, List.filter_eq_nil_iff, List.forall_mem_cons] at none
      have plain : entry.value ≠ marker := by simpa using none.1
      rw [fillAttributes_of_ne plain, inductionHypothesis (List.filter_eq_nil_iff.2 none.2)]

theorem fillNode_eq_single {content : Content} (none : slotCountAt marker content = 0)
    (children : Forest Content) (values : List Value) :
    fillNode marker content children values = single content children := by
  cases content with
  | element name attributes =>
      rw [fillNode, fillAttributes_eq_self (List.length_eq_zero_iff.1 none)]
  | text data =>
      have nonempty : data ≠ "" := by
        rintro rfl
        contradiction
      simp [fillNode, nonempty]
  | _ => rfl

theorem fill_eq_self {forest : Forest Content} (none : slotCount marker forest = 0)
    (values : List Value) : Template.fill marker forest values = forest := by
  induction forest generalizing values with
  | empty => rfl
  | plant content children siblings childrenHypothesis siblingsHypothesis =>
      rw [slotCount] at none
      rw [Template.fill, childrenHypothesis (by omega), siblingsHypothesis (by omega),
        fillNode_eq_single (by omega)]
      rfl

/-- Bound attributes are some of those of the template, by name. -/
theorem sublist_names_fillAttributes (marker : String) (attributes : List Attribute)
    (values : List Value) :
    ((fillAttributes marker attributes values).map Attribute.name).Sublist
      (attributes.map Attribute.name) := by
  induction attributes generalizing values with
  | nil => exact List.Sublist.refl _
  | cons entry rest inductionHypothesis =>
      by_cases slot : entry.value = marker
      · cases values with
        | nil => simp [fillAttributes, slot]
        | cons value others =>
            cases value with
            | text data =>
                rw [fillAttributes_of_text slot]
                exact (inductionHypothesis others).cons_cons entry.name
            | _ =>
                rw [fillAttributes_of_absent slot rest (by simp)]
                exact (inductionHypothesis others).cons entry.name
      · rw [fillAttributes_of_ne slot]
        exact (inductionHypothesis values).cons_cons entry.name

theorem isWritable_of_mem_fillAttributes {attributes : List Attribute} {values : List Value}
    (writable : ∀ entry ∈ attributes, entry.IsWritable) :
    ∀ entry ∈ fillAttributes marker attributes values, entry.IsWritable := by
  intro entry member
  have named := (sublist_names_fillAttributes marker attributes values).subset
    (List.mem_map_of_mem member)
  obtain ⟨other, among, same⟩ := List.mem_map.1 named
  have otherWritable := writable other among
  rw [Attribute.IsWritable, same] at otherWritable
  exact otherWritable

/-- A cut tree that can be written can be so when it is filled with any values, if no region takes
texts exactly as they are. -/
theorem Writable.fill {forest : Forest Content} (writable : forest.Writable) {verbatim : Bool}
    (apart : Hole.region true ∉ holes (pattern marker verbatim forest)) (values : List Value) :
    (Template.fill marker forest values).Writable := by
  induction forest generalizing verbatim values with
  | empty => trivial
  | plant content children siblings childrenHypothesis siblingsHypothesis =>
      have childless := writable.empty_of_isLeaf
      obtain ⟨admits, inside, beside⟩ := writable
      have leftApart := mem_holes_left apart
      rw [holes_nodePattern (bare_pattern childless)] at leftApart
      have insideApart := fun member => leftApart (List.mem_append_right _ member)
      have besideWritable := siblingsHypothesis beside (mem_holes_right apart)
        (values.drop (slotCountAt marker content + slotCount marker children))
      have insideWritable := childrenHypothesis inside insideApart
        ((values.drop (slotCountAt marker content)).take (slotCount marker children))
      rw [Template.fill, writable_append]
      refine ⟨?_, besideWritable⟩
      cases content with
      | element name attributes =>
          refine ⟨?_, insideWritable, trivial⟩
          obtain ⟨isName, named, distinct, void, raw, verbatimOpen⟩ := admits
          refine ⟨isName, isWritable_of_mem_fillAttributes named,
            distinct.sublist (sublist_names_fillAttributes marker attributes _), ?_,
            fun isRaw => (raw isRaw).fill marker _, ?_⟩
          · intro isVoid
            rw [void isVoid]
            rfl
          · intro isVerbatim
            have holds := raw (hasRawContent_of_hasVerbatimContent isVerbatim)
            rw [Content.takesVerbatim, isVerbatim] at insideApart
            have none := holds.holes_eq_nil insideApart
            have slotless : slotCount marker children = 0 := by
              rw [← length_holes_pattern marker true inside.leavesBare, none]
              rfl
            rw [fill_eq_self slotless]
            exact verbatimOpen isVerbatim
      | text data =>
          rw [childless rfl]
          rcases fillNode_text marker data .empty (values.take (slotCountAt marker (.text data)))
            with gone | ⟨bound, below, kept, bare⟩
          · rw [Template.fill, gone]
            trivial
          · obtain rfl : below = .empty := by simpa using bare
            rw [Template.fill, kept]
            exact ⟨rfl, trivial, trivial⟩
      | comment data =>
          rw [childless rfl]
          exact ⟨⟨rfl, admits.2⟩, trivial, trivial⟩
      | boundary =>
          rw [childless rfl]
          exact ⟨rfl, trivial, trivial⟩
      | fragment => exact absurd admits id

end Forest

end MarkupTemplate
