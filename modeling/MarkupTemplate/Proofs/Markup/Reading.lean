import MarkupTemplate.Proofs.Document.Growth
import MarkupTemplate.Proofs.Markup.Lexemes

/-!
# Written forests read back

The events of a forest in normal form are what its markup is read as, and taking these events
grows the forest again.  So parsing the markup of any forest that can be written finds no fault,
and makes the normal form of the forest.
-/

namespace MarkupTemplate

open MarkupTemplate.Text

/-! ## Kinds of elements -/

theorem hasRawContent_of_hasVerbatimContent {name : List Char}
    (verbatim : hasVerbatimContent name = true) : hasRawContent name = true := by
  unfold hasVerbatimContent hasRawContent isOneOfIgnoringCase at *
  rw [List.any_eq_true] at verbatim ⊢
  obtain ⟨listed, member, agree⟩ := verbatim
  refine ⟨listed, ?_, agree⟩
  have within : verbatimElements ⊆ rawContentElements := by decide
  exact within member

theorem hasRawContent_eq_false_of_isVoidElement {name : String}
    (void : isVoidElement name = true) : hasRawContent name.toList = false := by
  have apart : ∀ left ∈ voidElements, ∀ right ∈ rawContentElements,
      left.toList.map Char.toLower ≠ right.toList.map Char.toLower := by decide
  unfold isVoidElement isOneOfIgnoringCase at void
  rw [List.any_eq_true] at void
  obtain ⟨left, isVoid, agree⟩ := void
  rw [← Bool.not_eq_true]
  unfold hasRawContent isOneOfIgnoringCase
  rw [List.any_eq_true]
  rintro ⟨right, isRaw, alsoAgree⟩
  rw [agreeIgnoringCase_iff] at agree alsoAgree
  exact apart left isVoid right isRaw (agree.trans alsoAgree.symm)

/-! ## From forests to events -/

/-- The events that a node is read as, given those of its children. -/
def Content.events (inner : List Event) : Content → List Event
  | .element name attributes =>
      .startElement name attributes ::
        if isVoidElement name then [] else inner ++ [.endElement name]
  | .text data => [.text data]
  | .comment data => [.comment data]
  | _ => []

namespace Forest

/-- The events that a forest without boundaries is read as. -/
def events : Forest Content → List Event
  | .empty => []
  | .plant content children siblings => content.events children.events ++ siblings.events

variable {forest : Forest Content}

open Lexeme

theorem endsText_startTag {name : String} (isName : IsName name.toList)
    (attributes : List Attribute) (rest : List Char) :
    EndsText (startTagMarkup name attributes ++ rest) := by
  right
  cases spelled : name.toList with
  | nil =>
      rw [spelled] at isName
      exact isName.elim
  | cons first others =>
      rw [spelled] at isName
      simp [startTagMarkup, spelled, startsMarkup, opensMarkup, isName.1]

theorem endsText_endTag (name : String) (rest : List Char) :
    EndsText (endTagMarkup name ++ rest) :=
  Or.inr (by simp [endTagMarkup, startsMarkup, opensMarkup])

theorem endsText_markup (writable : forest.Writable) (normal : forest.IsNormal)
    (apart : ¬ forest.BeginsWithText) {rest : List Char} (ends : EndsText rest) :
    EndsText (forest.markup false ++ rest) := by
  cases forest with
  | empty => exact ends
  | plant content children siblings =>
      cases content with
      | fragment => exact writable.1.elim
      | element name attributes =>
          simp only [markup, List.append_assoc]
          exact endsText_startTag writable.1.1 attributes _
      | text data => exact absurd trivial apart
      | comment data =>
          refine Or.inr ?_
          simp [markup, commentMarkup, startsMarkup, opensMarkup]
      | boundary => exact absurd rfl normal.1

/-! ## Raw content -/

/-- A row of texts in normal form is at most one text. -/
theorem eq_of_holdsTexts (normal : forest.IsNormal) (writable : forest.Writable)
    (holds : forest.HoldsTexts) :
    forest = .empty ∨ ∃ data, data ≠ "" ∧ forest = single (.text data) .empty := by
  cases forest with
  | empty => exact Or.inl rfl
  | plant content children siblings =>
      right
      obtain ⟨notBoundary, nonempty, apart, _, _⟩ := normal
      simp only [HoldsTexts, roots, List.forall_mem_cons] at holds
      rcases holds.1 with boundary | ⟨data, rfl⟩
      · exact absurd boundary notBoundary
      · refine ⟨data, fun empty => nonempty (by rw [empty]), ?_⟩
        have childless : children = .empty := writable.1
        cases siblings with
        | empty => rw [childless, single]
        | plant next nextChildren nextSiblings =>
            have first := holds.2 next (by simp [roots])
            rcases first with boundary | ⟨nextData, rfl⟩
            · rename_i beside
              exact absurd boundary beside.1
            · exact absurd trivial (apart data rfl)

theorem rawEvents_markup {name : String} (normal : forest.IsNormal)
    (writable : forest.Writable) (holds : forest.HoldsTexts) :
    rawEvents name.toList (forest.markup (hasVerbatimContent name.toList)) = forest.events := by
  rcases eq_of_holdsTexts normal writable holds with rfl | ⟨data, nonempty, rfl⟩
  · rfl
  · have spelled : data.toList ≠ [] := by
      rw [ne_eq, String.toList_eq_nil_iff]
      exact nonempty
    cases verbatim : hasVerbatimContent name.toList with
    | true => simp [rawEvents, single, markup, textMarkup, events, Content.events, spelled,
        verbatim]
    | false =>
        have escaped : Reference.escapeText data.toList ≠ [] := by
          rw [ne_eq, Reference.escapeText_eq_nil_iff]
          exact spelled
        simp [rawEvents, single, markup, textMarkup, events, Content.events, escaped,
          verbatim,
          Reference.decode_escapeText]

theorem keepsOpen_markup {name : String} (normal : forest.IsNormal) (writable : forest.Writable)
    (holds : forest.HoldsTexts)
    (verbatim : hasVerbatimContent name.toList = true →
      KeepsOpen name.toList (forest.markup true)) :
    KeepsOpen name.toList (forest.markup (hasVerbatimContent name.toList)) := by
  cases isVerbatim : hasVerbatimContent name.toList with
  | true => exact verbatim isVerbatim
  | false =>
      apply keepsOpen_of_free
      rcases eq_of_holdsTexts normal writable holds with rfl | ⟨data, _, rfl⟩
      · simp [markup]
      · simpa [single, markup, textMarkup] using Reference.lessThan_not_mem_escapeText data.toList

/-! ## Reading -/

/-- The markup of a forest in normal form is read as the forest's events. -/
theorem readsTo_markup (writable : forest.Writable) (normal : forest.IsNormal)
    {rest : List Char} (ends : EndsText rest) :
    ReadsTo .markup (forest.markup false ++ rest) forest.events .markup rest := by
  induction forest generalizing rest with
  | empty => exact readsTo_refl .markup rest
  | plant content children siblings childrenHypothesis siblingsHypothesis =>
      obtain ⟨admits, inside, beside⟩ := writable
      obtain ⟨notBoundary, nonempty, apart, innerNormal, besideNormal⟩ := normal
      have onward := siblingsHypothesis beside besideNormal ends
      cases content with
      | fragment => exact admits.elim
      | boundary => exact absurd rfl notBoundary
      | text data =>
          have ended := endsText_markup beside besideNormal (apart data rfl) ends
          have spelled : data ≠ "" := fun empty => nonempty (by rw [empty])
          have read := readsTo_text spelled ended
          have whole := read.trans onward
          simpa [markup, textMarkup, events, Content.events, List.append_assoc] using whole
      | comment data =>
          have read := readsTo_comment admits.2 (siblings.markup false ++ rest)
          have whole := read.trans onward
          simpa [markup, events, Content.events, List.append_assoc] using whole
      | element name attributes =>
          obtain ⟨isName, attributesWritable, distinct, void, raw, verbatim⟩ := admits
          cases isVoid : isVoidElement name with
          | true =>
              have opened := readsTo_startTag isName attributesWritable distinct
                (siblings.markup false ++ rest)
              have mode : modeAfter name = .markup := by
                simp [modeAfter, hasRawContent_eq_false_of_isVoidElement isVoid]
              rw [mode] at opened
              have whole := opened.trans onward
              simpa [markup, events, Content.events, isVoid, List.append_assoc] using whole
          | false =>
              have opened := readsTo_startTag isName attributesWritable distinct
                (children.markup (hasVerbatimContent name.toList) ++
                  (endTagMarkup name ++ (siblings.markup false ++ rest)))
              have closed := readsTo_endTag isName (siblings.markup false ++ rest)
              have filled : ReadsTo (modeAfter name)
                  (children.markup (hasVerbatimContent name.toList) ++
                    (endTagMarkup name ++ (siblings.markup false ++ rest)))
                  children.events .markup
                  (endTagMarkup name ++ (siblings.markup false ++ rest)) := by
                cases isRaw : hasRawContent name.toList with
                | true =>
                    rw [modeAfter, if_pos isRaw, ← rawEvents_markup innerNormal inside (raw isRaw)]
                    exact readsTo_rawContent isName
                      (keepsOpen_markup innerNormal inside (raw isRaw) verbatim) _
                | false =>
                    have notVerbatim : hasVerbatimContent name.toList = false := by
                      rw [← Bool.not_eq_true]
                      intro isVerbatim
                      rw [hasRawContent_of_hasVerbatimContent isVerbatim] at isRaw
                      contradiction
                    rw [modeAfter, isRaw, if_neg Bool.false_ne_true, notVerbatim]
                    exact childrenHypothesis inside innerNormal (endsText_endTag name _)
              have whole := ((opened.trans filled).trans closed).trans onward
              simpa [markup, events, Content.events, isVoid, List.append_assoc] using whole

end Forest

/-! ## Growing from the events of a forest -/

namespace Growth

/-- Put a forest where the next node goes. -/
def addForest (growth : Growth) (forest : Forest Content) : Growth :=
  { growth with row := growth.row ++ forest }

theorem takeAll_append {growth next : Growth} {strict : Bool} {earlier : List EventReading}
    (taken : growth.takeAll strict earlier = (next, none)) (later : List EventReading) :
    growth.takeAll strict (earlier ++ later) = next.takeAll strict later := by
  induction earlier generalizing growth with
  | nil =>
      rw [takeAll, Prod.mk.injEq] at taken
      rw [taken.1]
      rfl
  | cons reading rest inductionHypothesis =>
      rw [List.cons_append, takeAll]
      rw [takeAll] at taken
      cases cause : (growth.take strict reading.event).2 with
      | some cause =>
          rw [cause] at taken
          simp at taken
      | none =>
          cases fault : reading.fault? with
          | some fault =>
              simp [cause, fault] at taken
          | none =>
              simp only [cause, fault] at taken ⊢
              exact inductionHypothesis taken

theorem takeAll_singleton {growth next : Growth} {strict : Bool} {reading : EventReading}
    (taken : growth.take strict reading.event = (next, none)) (faultless : reading.fault? = none) :
    growth.takeAll strict [reading] = (next, none) := by
  simp [takeAll, taken, faultless]

/-- An end tag closes the innermost open element of its name. -/
theorem closeElement_innermost (row : Forest Content) (innermost : Opening)
    (outer : List Opening) (strict : Bool) :
    closeElement ⟨row, innermost :: outer⟩ strict innermost.name =
      (⟨innermost.earlier ++
        Forest.single (.element innermost.name innermost.attributes) row, outer⟩, none) := by
  have found : depth? ⟨row, innermost :: outer⟩ innermost.name = some 0 := by
    simp [depth?, List.findIdx?_cons, agreeIgnoringCase]
  unfold closeElement
  rw [found]
  rfl

theorem takeAll_events {forest : Forest Content} (writable : forest.Writable)
    (normal : forest.IsNormal) (growth : Growth) (strict : Bool) {readings : List EventReading}
    (given : readings.map EventReading.event = forest.events)
    (faultless : ∀ reading ∈ readings, reading.fault? = none) :
    growth.takeAll strict readings = (growth.addForest forest, none) := by
  induction forest generalizing growth readings with
  | empty =>
      rw [Forest.events, List.map_eq_nil_iff] at given
      rw [given, takeAll, addForest, Forest.append_empty]
  | plant content children siblings childrenHypothesis siblingsHypothesis =>
      obtain ⟨admits, inside, beside⟩ := writable
      obtain ⟨notBoundary, _, _, innerNormal, besideNormal⟩ := normal
      rw [Forest.events, List.map_eq_append_iff] at given
      obtain ⟨here, onward, rfl, first, later⟩ := given
      rw [List.forall_mem_append] at faultless
      have taken : growth.takeAll strict here =
          (growth.addForest (Forest.single content children), none) := by
        cases content with
        | fragment => exact admits.elim
        | boundary => exact absurd rfl notBoundary
        | text data =>
            have childless : children = .empty := admits
            simp only [Content.events, List.map_eq_singleton_iff] at first
            obtain ⟨reading, rfl, event⟩ := first
            subst childless
            exact takeAll_singleton (by rw [event]; rfl) (faultless.1 reading (by simp))
        | comment data =>
            have childless : children = .empty := admits.1
            simp only [Content.events, List.map_eq_singleton_iff] at first
            obtain ⟨reading, rfl, event⟩ := first
            subst childless
            exact takeAll_singleton (by rw [event]; rfl) (faultless.1 reading (by simp))
        | element name attributes =>
            simp only [Content.events, List.map_eq_cons_iff] at first
            obtain ⟨opening, others, rfl, event, first⟩ := first
            rw [List.forall_mem_cons] at faultless
            have faultlessHere := faultless.1
            cases isVoid : isVoidElement name with
            | true =>
                have childless : children = .empty := admits.2.2.2.1 isVoid
                simp only [isVoid, ↓reduceIte, List.map_eq_nil_iff] at first
                subst first childless
                refine takeAll_singleton ?_ faultlessHere.1
                rw [event, take, openElement, if_pos isVoid]
                rfl
            | false =>
                simp only [isVoid, Bool.false_eq_true, ↓reduceIte, List.map_eq_append_iff,
                  List.map_eq_singleton_iff] at first
                obtain ⟨inner, _, rfl, innerEvents, closing, rfl, closingEvent⟩ := first
                rw [List.forall_mem_append] at faultlessHere
                have opened : growth.takeAll strict [opening] =
                    (growth.enter name attributes, none) := by
                  refine takeAll_singleton ?_ faultlessHere.1
                  rw [event, take, openElement, isVoid]
                  rfl
                have filled := childrenHypothesis inside innerNormal
                  (growth.enter name attributes) innerEvents faultlessHere.2.1
                have closed : (addForest (growth.enter name attributes) children).takeAll strict
                    [closing] =
                      (growth.addForest (Forest.single (.element name attributes) children),
                        none) := by
                  refine takeAll_singleton ?_ (faultlessHere.2.2 closing (by simp))
                  rw [closingEvent, take]
                  exact closeElement_innermost children ⟨growth.row, name, attributes⟩
                    growth.opened strict
                rw [← List.singleton_append, takeAll_append opened, takeAll_append filled, closed]
      rw [takeAll_append taken, siblingsHypothesis beside besideNormal _ later faultless.2]
      unfold addForest
      rw [Forest.append_assoc]
      rfl

end Growth

/-! ## Parsing written markup -/

theorem faultless_of_allFaults_eq_nil {strict : Bool} {lexemes : List Lexeme}
    (faultless : ∀ lexeme ∈ lexemes, lexeme.allFaults = []) :
    ∀ reading ∈ readEventsFrom strict none lexemes, reading.fault? = none := by
  induction lexemes with
  | nil => simp [readEventsFrom]
  | cons lexeme rest inductionHypothesis =>
      rw [List.forall_mem_cons] at faultless
      have onward := inductionHypothesis faultless.2
      intro reading member
      simp only [readEventsFrom, faultless.1, List.head?_nil, Option.or_none, ite_self,
        Option.orElse_eq_orElse, Option.orElse_eq_or] at member
      split at member
      · rcases List.mem_cons.1 member with rfl | later
        · rfl
        · exact onward reading later
      · exact onward reading member

namespace Growth

variable {forest : Forest Content}

theorem ofMarkup_of_isNormal (writable : forest.Writable) (normal : forest.IsNormal)
    (strict : Bool) :
    ofMarkup strict (forest.markup false) = ({ row := forest }, none) ∧
      firstFault? strict (forest.markup false) = none := by
  obtain ⟨lexemes, position, read, faultless, given⟩ :=
    Forest.readsTo_markup writable normal (Or.inl rfl) 0
  rw [List.append_nil] at read
  have ending : Lexeme.readFrom .markup position [] = [Lexeme.atEnd position] := by
    rw [Lexeme.readFrom]
  have whole : Lexeme.readAll (forest.markup false) = lexemes ++ [Lexeme.atEnd position] := by
    rw [Lexeme.readAll, read, ending]
  have allFaultless : ∀ lexeme ∈ lexemes ++ [Lexeme.atEnd position], lexeme.allFaults = [] := by
    rw [List.forall_mem_append]
    exact ⟨faultless, by simp [Lexeme.atEnd, Lexeme.allFaults, Lexeme.attributeFault?]⟩
  constructor
  · unfold ofMarkup readEvents
    rw [whole]
    refine (takeAll_events writable normal {} strict ?_
      (faultless_of_allFaults_eq_nil allFaultless)).trans rfl
    rw [map_event_readEventsFrom, List.filterMap_append, given]
    simp [Lexeme.atEnd, Lexeme.event?]
  · unfold firstFault?
    rw [whole, List.flatMap_eq_nil_iff.2 allFaultless]
    simp

end Growth

/-- Parsing the markup of a forest finds no fault and makes the forest's normal form. -/
theorem Document.parse_markup (document : Document) (strict : Bool) {forest : Forest Content}
    (writable : forest.Writable) :
    document.parse strict (String.ofList (forest.markup false)) =
      { document := (document.create .fragment).1.plant document.size forest.normalized
        root := document.size
        fault? := none } := by
  obtain ⟨grown, faultless⟩ := Growth.ofMarkup_of_isNormal writable.normalized
    forest.isNormal_normalized strict
  have closed : ({ row := forest.normalized } : Growth).faultAtEnd? strict
      (forest.normalized.markup false) = none := by
    unfold Growth.faultAtEnd?
    rw [faultless]
    split <;> rfl
  rw [Document.parse_eq, String.toList_ofList, ← writable.markup_normalized, grown]
  simp only [closed]
  rfl

end MarkupTemplate
