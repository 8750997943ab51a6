import MarkupTemplate.Proofs.Template.Binding

/-!
# Patterns of markup

The markup of a cut tree is a pattern: literal text with holes where the slots are.  Filling the
holes with the written values gives the markup of the filled tree, and filling them with the marker
gives the markup of the tree before it was cut.  So the two texts have the same literal parts.
-/

namespace MarkupTemplate

open Template

/-! ## Patterns -/

/-- A place in markup for the value of a slot. -/
inductive Hole where
  | attributeValue
  /-- A place among texts, which are written exactly as they are or escaped. -/
  | region (verbatim : Bool)
  deriving DecidableEq

/-- A value as markup in a hole; an absent one is nothing. -/
def Hole.write : Hole → Value → List Char
  | .attributeValue, .text data => Reference.escapeAttribute data.toList
  | .region verbatim, .text data => textMarkup verbatim data
  | _, _ => []

/-- One part of a pattern. -/
inductive Segment where
  | literal (text : List Char)
  | hole (kind : Hole)

def Segment.hole? : Segment → Option Hole
  | .literal _ => none
  | .hole kind => some kind

/-- The holes of a pattern, in order. -/
def holes (pattern : List Segment) : List Hole :=
  pattern.filterMap Segment.hole?

@[simp]
theorem holes_nil : holes [] = [] := rfl

@[simp]
theorem holes_literal (text : List Char) (rest : List Segment) :
    holes (.literal text :: rest) = holes rest := rfl

@[simp]
theorem holes_hole (kind : Hole) (rest : List Segment) :
    holes (.hole kind :: rest) = kind :: holes rest := rfl

@[simp]
theorem holes_append (first second : List Segment) :
    holes (first ++ second) = holes first ++ holes second :=
  List.filterMap_append

/-- The texts between the holes of a pattern, with those at both ends. -/
def gaps : List Segment → List (List Char)
  | [] => [[]]
  | .literal text :: rest =>
      match gaps rest with
      | [] => [text]
      | first :: others => (text ++ first) :: others
  | .hole _ :: rest => [] :: gaps rest

/-- The text that comes of a pattern when its holes are filled with these in order. -/
inductive Fills : List Segment → List (List Char) → List Char → Prop where
  | nil : Fills [] [] []
  | literal {rest fillings out} (text : List Char) (onward : Fills rest fillings out) :
      Fills (.literal text :: rest) fillings (text ++ out)
  | hole {rest fillings out} (kind : Hole) (filling : List Char)
      (onward : Fills rest fillings out) :
      Fills (.hole kind :: rest) (filling :: fillings) (filling ++ out)

/-- The pieces of a text with the fillings between them. -/
def Text.fillGaps : List (List Char) → List (List Char) → List Char
  | piece :: pieces, filling :: fillings => piece ++ filling ++ fillGaps pieces fillings
  | piece :: _, [] => piece
  | [], _ => []

theorem gaps_ne_nil (pattern : List Segment) : gaps pattern ≠ [] := by
  cases pattern with
  | nil => simp [gaps]
  | cons segment rest =>
      cases segment with
      | literal text =>
          rw [gaps]
          split <;> simp
      | hole kind => simp [gaps]

theorem length_gaps (pattern : List Segment) :
    (gaps pattern).length = (holes pattern).length + 1 := by
  induction pattern with
  | nil => rfl
  | cons segment rest inductionHypothesis =>
      cases segment with
      | literal text =>
          rw [gaps]
          cases shape : gaps rest with
          | nil => exact absurd shape (gaps_ne_nil rest)
          | cons first others =>
              rwa [shape] at inductionHypothesis
      | hole kind =>
          rw [gaps, List.length_cons, inductionHypothesis]
          rfl

namespace Fills

variable {pattern more : List Segment} {fillings others : List (List Char)} {out result : List Char}

theorem append (first : Fills pattern fillings out) (second : Fills more others result) :
    Fills (pattern ++ more) (fillings ++ others) (out ++ result) := by
  induction first with
  | nil => exact second
  | literal text _ inductionHypothesis =>
      rw [List.append_assoc]
      exact literal text inductionHypothesis
  | hole kind filling _ inductionHypothesis =>
      rw [List.append_assoc]
      exact hole kind filling inductionHypothesis

theorem of_literal (text : List Char) : Fills [.literal text] [] text := by
  have filled := literal text nil
  rwa [List.append_nil] at filled

theorem of_hole (kind : Hole) (filling : List Char) : Fills [.hole kind] [filling] filling := by
  have filled := hole kind filling nil
  rwa [List.append_nil] at filled

/-- What comes of a pattern are its gaps with the fillings between them. -/
theorem eq_fillGaps (filled : Fills pattern fillings out) :
    out = Text.fillGaps (gaps pattern) fillings := by
  induction filled with
  | nil => rfl
  | @literal rest fillings out text _ inductionHypothesis =>
      rw [gaps]
      cases shape : gaps rest with
      | nil => exact absurd shape (gaps_ne_nil rest)
      | cons first others =>
          rw [shape] at inductionHypothesis
          cases fillings <;> simp [Text.fillGaps, inductionHypothesis]
  | hole kind filling _ inductionHypothesis =>
      rw [gaps, Text.fillGaps, ← inductionHypothesis, List.nil_append]

theorem length_fillings (filled : Fills pattern fillings out) :
    fillings.length = (holes pattern).length := by
  induction filled with
  | nil => rfl
  | literal text _ inductionHypothesis => exact inductionHypothesis
  | hole kind filling _ inductionHypothesis =>
      rw [List.length_cons, inductionHypothesis]
      rfl

end Fills

/-! ## Patterns of cut trees -/

/-- An attribute of a cut tree. -/
def attributePattern (marker : String) (entry : Attribute) : List Segment :=
  if entry.value = marker then
    [.literal (' ' :: entry.name.toList ++ ['=', Text.quotationMark]), .hole .attributeValue,
      .literal [Text.quotationMark]]
  else
    [.literal entry.markup]

/-- A node of a cut tree, with the pattern of its children. -/
def nodePattern (marker : String) (verbatim : Bool) (content : Content)
    (inside : List Segment) : List Segment :=
  match content with
  | .boundary => []
  | .fragment => inside
  | .text data =>
      if data = "" then [.hole (.region verbatim)] else [.literal (textMarkup verbatim data)]
  | .comment data => [.literal (commentMarkup data)]
  | .element name attributes =>
      .literal ('<' :: name.toList) :: (attributes.flatMap (attributePattern marker) ++
        .literal ['>'] ::
          if isVoidElement name then [] else inside ++ [.literal (endTagMarkup name)])

/-- Whether texts among the children of a node are written exactly as they are. -/
def Content.takesVerbatim : Content → Bool
  | .element name _ => hasVerbatimContent name.toList
  | _ => false

/-- A cut forest. -/
def pattern (marker : String) (verbatim : Bool) : Forest Content → List Segment
  | .empty => []
  | .plant content children siblings =>
      nodePattern marker verbatim content (pattern marker content.takesVerbatim children) ++
        pattern marker verbatim siblings

/-! ## Filled with values -/

/-- Attributes are only bound to texts. -/
def Hole.Accepts : Hole → Value → Prop
  | .attributeValue, value => ∃ data, value = .text data
  | .region _, value => (∃ data, value = .text data) ∨ value.isAbsent = true

/-- The values are accepted by the holes, one by one. -/
def Suits (holes : List Hole) (values : List Value) : Prop :=
  List.Forall₂ Hole.Accepts holes values

theorem Suits.append_split {first second : List Hole} {values : List Value}
    (suits : Suits (first ++ second) values) :
    ∃ left right, values = left ++ right ∧ Suits first left ∧ Suits second right := by
  induction first generalizing values with
  | nil => exact ⟨[], values, rfl, List.Forall₂.nil, suits⟩
  | cons hole rest inductionHypothesis =>
      obtain ⟨value, others, accepts, onward, rfl⟩ := List.forall₂_cons_left_iff.1 suits
      obtain ⟨left, right, rfl, suitsLeft, suitsRight⟩ := inductionHypothesis onward
      exact ⟨value :: left, right, rfl, List.Forall₂.cons accepts suitsLeft, suitsRight⟩

theorem Suits.length_eq {holes : List Hole} {values : List Value} (suits : Suits holes values) :
    holes.length = values.length :=
  List.Forall₂.length_eq suits

theorem Suits.noNode {holes : List Hole} {values : List Value} (suits : Suits holes values) :
    ∀ value ∈ values, ∀ node, value ≠ .node node := by
  induction suits with
  | nil => simp
  | @cons hole value _ _ accepts _ inductionHypothesis =>
      refine List.forall_mem_cons.2 ⟨?_, inductionHypothesis⟩
      rintro node rfl
      cases hole <;> simp [Hole.Accepts, Value.isAbsent] at accepts

def fillings (holes : List Hole) (values : List Value) : List (List Char) :=
  List.zipWith Hole.write holes values

theorem fillings_append {first second : List Hole} {left right : List Value}
    (suits : Suits first left) :
    fillings (first ++ second) (left ++ right) = fillings first left ++ fillings second right :=
  List.zipWith_append suits.length_eq

/-- Nothing can stand in a node of this kind. -/
def Content.isLeaf : Content → Bool
  | .fragment => false
  | .element name _ => isVoidElement name
  | _ => true

/-- Nothing stands in leaves. -/
def Forest.LeavesBare : Forest Content → Prop
  | .empty => True
  | .plant content children siblings =>
      (content.isLeaf = true → children = .empty) ∧ children.LeavesBare ∧ siblings.LeavesBare

/-! ### Attributes -/

theorem holes_attributePattern_of_eq {marker : String} {entry : Attribute}
    (slot : entry.value = marker) :
    holes (attributePattern marker entry) = [.attributeValue] := by
  rw [attributePattern, if_pos slot]
  rfl

theorem holes_attributePattern_of_ne {marker : String} {entry : Attribute}
    (plain : entry.value ≠ marker) : holes (attributePattern marker entry) = [] := by
  rw [attributePattern, if_neg plain]
  rfl

theorem length_holes_attributes (marker : String) (attributes : List Attribute) :
    (holes (attributes.flatMap (attributePattern marker))).length =
      (marked marker attributes).length := by
  induction attributes with
  | nil => rfl
  | cons entry rest inductionHypothesis =>
      rw [List.flatMap_cons, holes_append, List.length_append, inductionHypothesis]
      by_cases slot : entry.value = marker
      · simp [holes_attributePattern_of_eq, marked, slot, Nat.add_comm]
      · simp [holes_attributePattern_of_ne, marked, slot]

theorem fills_attributes {marker : String} {attributes : List Attribute} {values : List Value}
    (suits : Suits (holes (attributes.flatMap (attributePattern marker))) values) :
    Fills (attributes.flatMap (attributePattern marker))
      (fillings (holes (attributes.flatMap (attributePattern marker))) values)
      ((fillAttributes marker attributes values).flatMap Attribute.markup) := by
  induction attributes generalizing values with
  | nil => exact Fills.nil
  | cons entry rest inductionHypothesis =>
      rw [List.flatMap_cons, holes_append] at suits ⊢
      obtain ⟨left, right, rfl, suitsLeft, suitsRight⟩ := suits.append_split
      have onward := inductionHypothesis suitsRight
      rw [fillings_append suitsLeft]
      by_cases slot : entry.value = marker
      · have here := holes_attributePattern_of_eq slot
        rw [here] at suitsLeft ⊢
        obtain ⟨value, others, ⟨data, rfl⟩, ended, rfl⟩ := List.forall₂_cons_left_iff.1 suitsLeft
        rw [List.forall₂_nil_left_iff.1 ended]
        have first : Fills (attributePattern marker entry) [Reference.escapeAttribute data.toList]
            (Attribute.markup ⟨entry.name, data⟩) := by
          have filled := ((Fills.of_literal (' ' :: entry.name.toList ++
            ['=', Text.quotationMark])).append
              (Fills.of_hole .attributeValue (Reference.escapeAttribute data.toList))).append
                (Fills.of_literal [Text.quotationMark])
          simpa [attributePattern, slot, Attribute.markup] using filled
        rw [List.singleton_append, fillAttributes_of_text slot, List.flatMap_cons]
        exact first.append onward
      · have here := holes_attributePattern_of_ne slot
        rw [here] at suitsLeft ⊢
        rw [List.forall₂_nil_left_iff.1 suitsLeft, List.nil_append, fillAttributes_of_ne slot,
          List.flatMap_cons]
        have first : Fills (attributePattern marker entry) [] entry.markup := by
          rw [attributePattern, if_neg slot]
          exact Fills.of_literal entry.markup
        exact first.append onward

/-! ### Forests -/

theorem fills_standIn {verbatim : Bool} {value : Value}
    (accepts : Hole.Accepts (.region verbatim) value) :
    (standInFor value).markup verbatim = Hole.write (.region verbatim) value := by
  cases value with
  | text data => simp [standInFor, Forest.single, Forest.markup, Hole.write]
  | node id =>
      rcases accepts with ⟨data, text⟩ | absent
      · contradiction
      · contradiction
  | _ => rfl

/-- The pattern of an element is filled by filling its attributes and what stands in it. -/
theorem Fills.element {marker name : String} {attributes given : List Attribute}
    {verbatim : Bool} {inside : List Segment} {first second : List (List Char)}
    {children : Forest Content}
    (filledAttributes : Fills (attributes.flatMap (attributePattern marker)) first
      (given.flatMap Attribute.markup))
    (filledInside : Fills inside second (children.markup (hasVerbatimContent name.toList)))
    (void : isVoidElement name = true → second = []) :
    Fills (nodePattern marker verbatim (.element name attributes) inside) (first ++ second)
      ((Forest.single (.element name given) children).markup verbatim) := by
  have opened := (Fills.of_literal ('<' :: name.toList)).append filledAttributes
  have closed := opened.append (Fills.of_literal ['>'])
  cases isVoid : isVoidElement name with
  | true =>
      rw [void isVoid]
      simpa [nodePattern, isVoid, Forest.single, Forest.markup, startTagMarkup] using closed
  | false =>
      have whole := closed.append (filledInside.append (Fills.of_literal (endTagMarkup name)))
      simpa [nodePattern, isVoid, Forest.single, Forest.markup, startTagMarkup,
        List.append_assoc] using whole

theorem fill_plant_append {marker : String} {content : Content} {children siblings : Forest Content}
    {here inside beside : List Value} (countHere : here.length = slotCountAt marker content)
    (countInside : inside.length = slotCount marker children) :
    fill marker (.plant content children siblings) (here ++ (inside ++ beside)) =
      fillNode marker content (fill marker children inside) here ++
        fill marker siblings beside := by
  have dropped : (here ++ (inside ++ beside)).drop (here.length + inside.length) = beside := by
    rw [← List.append_assoc, ← List.length_append, List.drop_left]
  rw [fill]
  simp only [← countHere, ← countInside, dropped, List.take_left, List.drop_left]

theorem holes_nodePattern {marker : String} {verbatim : Bool} {content : Content}
    {inside : List Segment} (bare : content.isLeaf = true → inside = []) :
    holes (nodePattern marker verbatim content inside) =
      holes (nodePattern marker verbatim content []) ++ holes inside := by
  cases content with
  | element name attributes =>
      cases void : isVoidElement name with
      | true =>
          rw [bare void]
          exact (List.append_nil _).symm
      | false => simp [nodePattern, void]
  | fragment => rfl
  | _ =>
      rw [bare rfl]
      exact (List.append_nil _).symm

theorem holes_nodePattern_element (marker : String) (verbatim : Bool) (name : String)
    (attributes : List Attribute) :
    holes (nodePattern marker verbatim (.element name attributes) []) =
      holes (attributes.flatMap (attributePattern marker)) := by
  cases void : isVoidElement name with
  | true => simp [nodePattern, void]
  | false => simp [nodePattern, void]

theorem length_holes_nodePattern (marker : String) (verbatim : Bool) (content : Content) :
    (holes (nodePattern marker verbatim content [])).length = slotCountAt marker content := by
  cases content with
  | element name attributes =>
      rw [holes_nodePattern_element, length_holes_attributes]
      rfl
  | text data =>
      rw [slotCountAt, nodePattern]
      split <;> rfl
  | _ => rfl

theorem bare_pattern {marker : String} {verbatim : Bool} {content : Content}
    {children : Forest Content} (bare : content.isLeaf = true → children = .empty) :
    content.isLeaf = true → pattern marker verbatim children = [] := by
  intro leaf
  rw [bare leaf]
  rfl

theorem length_holes_pattern (marker : String) (verbatim : Bool) {forest : Forest Content}
    (bare : forest.LeavesBare) :
    (holes (pattern marker verbatim forest)).length = slotCount marker forest := by
  induction forest generalizing verbatim with
  | empty => rfl
  | plant content children siblings childrenHypothesis siblingsHypothesis =>
      rw [pattern, holes_append, holes_nodePattern (bare_pattern bare.1), List.length_append,
        List.length_append, length_holes_nodePattern, childrenHypothesis _ bare.2.1,
        siblingsHypothesis _ bare.2.2, slotCount, Nat.add_assoc]

theorem Fills.of_nil {fillings : List (List Char)} {out : List Char}
    (filled : Fills [] fillings out) : fillings = [] ∧ out = [] := by
  cases filled
  exact ⟨rfl, rfl⟩

/-- The pattern of a node is filled by filling its own slots and the pattern of its children. -/
theorem fills_node {marker : String} {verbatim : Bool} {content : Content}
    {inside : List Segment} {children : Forest Content} {here : List Value}
    {second : List (List Char)} (bare : content.isLeaf = true → inside = [])
    (suits : Suits (holes (nodePattern marker verbatim content [])) here)
    (filled : Fills inside second (children.markup content.takesVerbatim)) :
    Fills (nodePattern marker verbatim content inside)
      (fillings (holes (nodePattern marker verbatim content [])) here ++ second)
      ((fillNode marker content children here).markup verbatim) := by
  cases content with
  | element name attributes =>
      rw [holes_nodePattern_element] at suits ⊢
      refine (fills_attributes suits).element filled ?_
      intro void
      rw [bare void] at filled
      exact filled.of_nil.1
  | text data =>
      obtain rfl : inside = [] := bare rfl
      rw [filled.of_nil.1, List.append_nil]
      by_cases slot : data = ""
      · rw [nodePattern, if_pos slot] at suits ⊢
        obtain ⟨value, others, accepts, ended, rfl⟩ := List.forall₂_cons_left_iff.1 suits
        rw [List.forall₂_nil_left_iff.1 ended, fillNode, if_pos slot, fills_standIn accepts]
        exact Fills.of_hole (.region verbatim) _
      · rw [nodePattern, if_neg slot] at suits ⊢
        rw [List.forall₂_nil_left_iff.1 suits, fillNode, if_neg slot, Forest.single, Forest.markup,
          Forest.markup, List.append_nil]
        exact Fills.of_literal (textMarkup verbatim data)
  | comment data =>
      rw [bare rfl] at filled
      rw [filled.of_nil.1]
      simpa [nodePattern, fillings, fillNode, Forest.single, Forest.markup]
        using Fills.of_literal (commentMarkup data)
  | boundary =>
      rw [bare rfl] at filled
      rw [filled.of_nil.1]
      exact Fills.nil
  | fragment =>
      simpa [nodePattern, fillings, fillNode, Forest.single, Forest.markup,
        Content.takesVerbatim] using filled

/-- The markup of a filled tree is its pattern, filled with the written values. -/
theorem fills_fill (marker : String) (verbatim : Bool) {forest : Forest Content}
    (bare : forest.LeavesBare) {values : List Value}
    (suits : Suits (holes (pattern marker verbatim forest)) values) :
    Fills (pattern marker verbatim forest)
      (fillings (holes (pattern marker verbatim forest)) values)
      ((fill marker forest values).markup verbatim) := by
  induction forest generalizing verbatim values with
  | empty =>
      rw [List.forall₂_nil_left_iff.1 suits]
      exact Fills.nil
  | plant content children siblings childrenHypothesis siblingsHypothesis =>
      have emptyInside : content.isLeaf = true →
          pattern marker content.takesVerbatim children = [] := bare_pattern bare.1
      rw [pattern, holes_append, holes_nodePattern emptyInside, List.append_assoc] at suits ⊢
      obtain ⟨here, others, rfl, suitsHere, suitsOthers⟩ := suits.append_split
      obtain ⟨inside, beside, rfl, suitsInside, suitsBeside⟩ := suitsOthers.append_split
      have countHere := suitsHere.length_eq.symm.trans (length_holes_nodePattern _ _ _)
      have countInside := suitsInside.length_eq.symm.trans (length_holes_pattern _ _ bare.2.1)
      rw [fillings_append suitsHere, fillings_append suitsInside, ← List.append_assoc,
        fill_plant_append countHere countInside, Forest.markup_append]
      exact (fills_node emptyInside suitsHere
        (childrenHypothesis _ bare.2.1 suitsInside)).append
          (siblingsHypothesis _ bare.2.2 suitsBeside)

end MarkupTemplate
