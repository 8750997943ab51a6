import MarkupTemplate.Proofs.Markup.Reading

/-!
# Strict reading

Strict reading accepts a markup text just when there is no fault in its lexemes, none in the
attributes of its tags, and its tags are nested as brackets are.  Whatever it accepts it builds as
forgiving reading does, node by node.

The open elements of a builder are the stack of an automaton that recognizes balanced words: one
event moves the stack as its bracket does, and strict building stops where the automaton has no
move.
-/

namespace MarkupTemplate

open MarkupTemplate.Text

/-! ## Balanced brackets -/

/-- A tag as far as nesting is concerned. -/
inductive Bracket where
  | opening (name : String)
  | closing (name : String)
  deriving DecidableEq, Repr

/-- Every opening bracket has a closing one of its name, whatever the ASCII case, and what stands
between the two is balanced as well. -/
inductive Balanced : List Bracket → Prop
  | nil : Balanced []
  | enclose {opened closed : String} {inner rest : List Bracket}
      (agree : agreeIgnoringCase opened.toList closed.toList = true) (inside : Balanced inner)
      (beside : Balanced rest) : Balanced (.opening opened :: (inner ++ .closing closed :: rest))

/-- The names that are open after a word of brackets, the innermost first, when the given ones were
open before it; there are none if a bracket closes another name than the innermost. -/
def openAfter? : List String → List Bracket → Option (List String)
  | opened, [] => some opened
  | opened, .opening name :: rest => openAfter? (name :: opened) rest
  | [], .closing _ :: _ => none
  | innermost :: outer, .closing name :: rest =>
      if agreeIgnoringCase innermost.toList name.toList then openAfter? outer rest else none

theorem openAfter?_append (opened : List String) (word rest : List Bracket) :
    openAfter? opened (word ++ rest) =
      (openAfter? opened word).bind fun left => openAfter? left rest := by
  fun_induction openAfter? opened word with
  | case1 opened => rfl
  | case2 opened name word inductionHypothesis => exact inductionHypothesis
  | case3 name word => rfl
  | case4 innermost outer name word agree inductionHypothesis =>
      rw [List.cons_append, openAfter?, if_pos agree, inductionHypothesis]
  | case5 innermost outer name word differ =>
      rw [List.cons_append, openAfter?, if_neg differ]
      rfl

theorem Balanced.openAfter?_eq {word : List Bracket} (balanced : Balanced word)
    (opened : List String) : openAfter? opened word = some opened := by
  induction balanced generalizing opened with
  | nil => rfl
  | @enclose name _ inner rest agree _ _ insideHypothesis besideHypothesis =>
      rw [openAfter?, openAfter?_append, insideHypothesis, Option.bind_some, openAfter?,
        if_pos agree, besideHypothesis]

/-- The word closes the open names one after the other, the innermost first, with balanced words
around the brackets that do. -/
inductive Closes : List String → List Bracket → Prop
  | nil {word : List Bracket} (balanced : Balanced word) : Closes [] word
  | cons {opened closed : String} {outer : List String} {inner rest : List Bracket}
      (inside : Balanced inner) (agree : agreeIgnoringCase opened.toList closed.toList = true)
      (onward : Closes outer rest) : Closes (opened :: outer) (inner ++ .closing closed :: rest)

/-- A bracket that is closed again may come before. -/
theorem Closes.enclose {opened closed : String} {outer : List String} {inner rest : List Bracket}
    (agree : agreeIgnoringCase opened.toList closed.toList = true) (inside : Balanced inner)
    (closes : Closes outer rest) :
    Closes outer (.opening opened :: (inner ++ .closing closed :: rest)) := by
  cases closes with
  | nil balanced => exact .nil (.enclose agree inside balanced)
  | cons between closed onward =>
      have longer := Closes.cons (.enclose agree inside between) closed onward
      rw [List.cons_append, List.append_assoc, List.cons_append] at longer
      exact longer

theorem closes_of_openAfter? {opened : List String} {word : List Bracket}
    (closed : openAfter? opened word = some []) : Closes opened word := by
  fun_induction openAfter? opened word with
  | case1 opened =>
      rw [Option.some.inj closed]
      exact .nil .nil
  | case2 opened name rest inductionHypothesis =>
      cases inductionHypothesis closed with
      | cons inside agree onward => exact onward.enclose agree inside
  | case3 => contradiction
  | case4 innermost outer name rest agree inductionHypothesis =>
      exact .cons .nil agree (inductionHypothesis closed)
  | case5 => contradiction

/-- A word is balanced if nothing is open after it that was not before. -/
theorem balanced_iff {word : List Bracket} : Balanced word ↔ openAfter? [] word = some [] := by
  constructor
  · exact fun balanced => balanced.openAfter?_eq []
  · intro closed
    cases closes_of_openAfter? closed with
    | nil balanced => exact balanced

/-! ## Tags as brackets -/

/-- The start of an element that can have content opens a bracket, and every end tag closes one. -/
def Construct.bracket? : Construct → Option Bracket
  | .startTag name _ =>
      if isVoidElement (String.ofList name) then none else some (.opening (String.ofList name))
  | .endTag name => some (.closing (String.ofList name))
  | _ => none

/-- What is written in a tag after its name. -/
def Construct.attributeText? : Construct → Option (List Char)
  | .startTag _ written => some written
  | .emptyTag _ written => some written
  | _ => none

def Event.bracket? : Event → Option Bracket
  | .startElement name _ => if isVoidElement name then none else some (.opening name)
  | .endElement name => some (.closing name)
  | _ => none

theorem bracket?_event? (strict : Bool) (lexeme : Lexeme) :
    (lexeme.event? strict).bind Event.bracket? = lexeme.construct.bracket? := by
  unfold Lexeme.event? Construct.bracket?
  cases lexeme.construct <;> rfl

/-! ## One event -/

namespace TreeBuilder

/-- The names of the open elements, the innermost first. -/
def openNames (builder : TreeBuilder) : List String :=
  builder.opened.map OpenElement.name

variable {builder : TreeBuilder} {left : List String}

/-- An event of which the bracket may stand here is taken in the same way by both readings. -/
theorem take_of_nested {event : Event}
    (nested : openAfter? builder.openNames event.bracket?.toList = some left) :
    ∃ next, (∀ strict, builder.take strict event = (next, none)) ∧ next.openNames = left := by
  cases event with
  | startElement name attributes =>
      refine ⟨builder.openElement name attributes, fun strict => rfl, ?_⟩
      unfold openElement
      cases void : isVoidElement name with
      | true =>
          simp only [Event.bracket?, void, ↓reduceIte, Option.toList_none, openAfter?,
            Option.some.injEq] at nested
          exact nested
      | false =>
          simp only [Event.bracket?, void, Bool.false_eq_true, ↓reduceIte, Option.toList_some,
            openAfter?, Option.some.injEq] at nested
          exact nested
  | endElement name =>
      cases shape : builder.opened with
      | nil =>
          simp [openNames, shape, Event.bracket?, openAfter?] at nested
      | cons innermost outer =>
          simp only [openNames, shape, List.map_cons, Event.bracket?, Option.toList_some,
            openAfter?, Option.ite_none_right_eq_some, Option.some.injEq] at nested
          refine ⟨{ builder with opened := outer }, fun strict => ?_, nested.2⟩
          rw [take, closeElement, shape, splitAtName?, if_pos nested.1]
  | _ => exact ⟨_, fun strict => rfl, Option.some.inj nested⟩

/-- Strict reading refuses an end tag that does not close the innermost open element. -/
theorem exists_fault_of_take {event : Event}
    (stuck : openAfter? builder.openNames event.bracket?.toList = none) :
    ∃ cause, (builder.take true event).2 = some cause := by
  cases event with
  | startElement name attributes =>
      rw [Event.bracket?] at stuck
      split at stuck <;> contradiction
  | endElement name =>
      rw [take, closeElement]
      cases shape : builder.opened with
      | nil => exact ⟨_, rfl⟩
      | cons innermost outer =>
          simp only [openNames, shape, List.map_cons, Event.bracket?, Option.toList_some,
            openAfter?, ite_eq_right_iff, reduceCtorEq, imp_false] at stuck
          rw [splitAtName?, if_neg stuck]
          cases splitAtName? name outer with
          | none => exact ⟨_, rfl⟩
          | some halves => exact ⟨_, rfl⟩
  | _ => contradiction

/-! ## All events -/

/-- The brackets of events. -/
def brackets (readings : List EventReading) : List Bracket :=
  readings.filterMap fun reading => reading.event.bracket?

theorem brackets_cons (reading : EventReading) (rest : List EventReading) :
    brackets (reading :: rest) = reading.event.bracket?.toList ++ brackets rest := by
  unfold brackets
  rw [List.filterMap_cons]
  cases reading.event.bracket? <;> rfl

/-- Events without faults are taken in the same way by both readings if their brackets are
nested. -/
theorem takeAll_of_nested {readings : List EventReading}
    (faultless : ∀ reading ∈ readings, reading.fault? = none)
    (nested : openAfter? builder.openNames (brackets readings) = some left) :
    ∃ last, (∀ strict, builder.takeAll strict readings = (last, none)) ∧
      last.openNames = left := by
  induction readings generalizing builder with
  | nil => exact ⟨builder, fun strict => rfl, Option.some.inj nested⟩
  | cons reading rest inductionHypothesis =>
      rw [List.forall_mem_cons] at faultless
      rw [brackets_cons, openAfter?_append, Option.bind_eq_some_iff] at nested
      obtain ⟨between, first, onward⟩ := nested
      obtain ⟨next, taken, names⟩ := take_of_nested first
      rw [← names] at onward
      obtain ⟨last, takenAll, namesAtEnd⟩ := inductionHypothesis faultless.2 onward
      refine ⟨last, fun strict => ?_, namesAtEnd⟩
      simp only [takeAll, taken, faultless.1, takenAll]

/-- Strict reading stops at the first event of which the bracket may not stand there. -/
theorem exists_fault_of_takeAll {readings : List EventReading}
    (faultless : ∀ reading ∈ readings, reading.fault? = none)
    (stuck : openAfter? builder.openNames (brackets readings) = none) :
    ∃ fault, (builder.takeAll true readings).2 = some fault := by
  induction readings generalizing builder with
  | nil => contradiction
  | cons reading rest inductionHypothesis =>
      rw [List.forall_mem_cons] at faultless
      rw [brackets_cons, openAfter?_append] at stuck
      cases first : openAfter? builder.openNames reading.event.bracket?.toList with
      | none =>
          obtain ⟨cause, refused⟩ := exists_fault_of_take first
          simp only [takeAll, refused]
          exact ⟨_, rfl⟩
      | some between =>
          obtain ⟨next, taken, rfl⟩ := take_of_nested first
          rw [first, Option.bind_some] at stuck
          simp only [takeAll, taken, faultless.1]
          exact inductionHypothesis faultless.2 stuck

/-- What strict building does not stop at, forgiving building takes in the same way. -/
theorem takeAll_eq_of_fault?_eq_none {readings : List EventReading}
    (faultless : ∀ reading ∈ readings, reading.fault? = none)
    (accepted : (builder.takeAll true readings).2 = none) :
    builder.takeAll true readings = builder.takeAll false readings := by
  cases nested : openAfter? builder.openNames (brackets readings) with
  | none =>
      obtain ⟨fault, refused⟩ := exists_fault_of_takeAll faultless nested
      rw [refused] at accepted
      contradiction
  | some left =>
      obtain ⟨last, taken, _⟩ := takeAll_of_nested faultless nested
      rw [taken, taken]

/-- Strict building goes through to the end, and leaves nothing open, just when the brackets are
balanced. -/
theorem takeAll_closed_iff {readings : List EventReading} (fresh : builder.opened = [])
    (faultless : ∀ reading ∈ readings, reading.fault? = none) :
    ((builder.takeAll true readings).2 = none ∧ (builder.takeAll true readings).1.opened = []) ↔
      Balanced (brackets readings) := by
  have none_open : builder.openNames = [] := by
    rw [openNames, fresh]
    rfl
  rw [balanced_iff]
  cases nested : openAfter? builder.openNames (brackets readings) with
  | none =>
      obtain ⟨fault, refused⟩ := exists_fault_of_takeAll faultless nested
      rw [none_open] at nested
      simp [refused, nested]
  | some left =>
      obtain ⟨last, taken, rfl⟩ := takeAll_of_nested faultless nested
      rw [none_open] at nested
      simp [taken, nested, openNames]

end TreeBuilder

/-! ## Faultless lexemes -/

theorem attributeFault?_eq_none_iff {lexeme : Lexeme} :
    lexeme.attributeFault? = none ↔ ∀ written, lexeme.construct.attributeText? = some written →
      ∃ attributes, Attribute.readStrictly written = .ok attributes := by
  have accepted : ∀ written, Attribute.fault? written = none ↔
      ∃ attributes, Attribute.readStrictly written = .ok attributes := by
    intro written
    unfold Attribute.readStrictly
    cases Attribute.fault? written <;> simp
  unfold Lexeme.attributeFault? Construct.attributeText?
  cases lexeme.construct <;> simp [accepted]

theorem allFaults_eq_nil_iff {lexeme : Lexeme} :
    lexeme.allFaults = [] ↔ lexeme.faults = [] ∧ lexeme.attributeFault? = none := by
  simp [Lexeme.allFaults]

theorem firstFault?_eq_none_iff {text : List Char} :
    firstFault? true text = none ↔ ∀ lexeme ∈ Lexeme.readAll text, lexeme.allFaults = [] := by
  simp [firstFault?]

theorem forall_allFaults_eq_nil_iff {lexemes : List Lexeme} :
    (∀ lexeme ∈ lexemes, lexeme.allFaults = []) ↔
      (∀ lexeme ∈ lexemes, lexeme.faults = []) ∧ ∀ lexeme ∈ lexemes,
        ∀ written, lexeme.construct.attributeText? = some written →
          ∃ attributes, Attribute.readStrictly written = .ok attributes := by
  simp only [allFaults_eq_nil_iff, attributeFault?_eq_none_iff]
  exact ⟨fun sound => ⟨fun lexeme member => (sound lexeme member).1,
    fun lexeme member => (sound lexeme member).2⟩,
    fun sound lexeme member => ⟨sound.1 lexeme member, sound.2 lexeme member⟩⟩

/-- Without faults the same events are read in both ways. -/
theorem readEvents_of_faultless {lexemes : List Lexeme}
    (faultless : ∀ lexeme ∈ lexemes, lexeme.allFaults = []) :
    readEventsFrom true none lexemes = readEventsFrom false none lexemes := by
  induction lexemes with
  | nil => rfl
  | cons lexeme rest inductionHypothesis =>
      rw [List.forall_mem_cons] at faultless
      have same : lexeme.event? true = lexeme.event? false := by
        have accepted := (allFaults_eq_nil_iff.1 faultless.1).2
        unfold Lexeme.attributeFault? at accepted
        unfold Lexeme.event? Lexeme.readAttributes
        cases kind : lexeme.construct with
        | startTag name written =>
            simp only [kind, Option.map_eq_none_iff] at accepted
            simp [accepted]
        | emptyTag name written =>
            simp only [kind, Option.map_eq_none_iff] at accepted
            simp [accepted]
        | _ => rfl
      simp only [readEventsFrom, same, faultless.1, List.head?_nil, ↓reduceIte,
        Bool.false_eq_true, Option.orElse_eq_orElse, Option.orElse_eq_or, Option.or_none,
        inductionHypothesis faultless.2]

theorem brackets_readEvents (strict : Bool) (text : List Char) :
    TreeBuilder.brackets (readEvents strict text) =
      (Lexeme.readAll text).filterMap fun lexeme => lexeme.construct.bracket? := by
  have events := map_event_readEventsFrom strict none (Lexeme.readAll text)
  have mapped := congrArg (List.filterMap Event.bracket?) events
  rw [List.filterMap_map, List.filterMap_filterMap] at mapped
  simp only [bracket?_event?] at mapped
  exact mapped

namespace Document

/-- Forgiving reading never finds fault.  Strict reading finds none just when the lexemes have none,
the attributes of all tags are accepted and the tags are balanced, and then it leaves the document
as forgiving reading does. -/
theorem parse_strict_iff (document : Document) (markup : String) :
    let lexemes := Lexeme.readAll markup.toList
    (document.parse false markup).fault? = none ∧
      ((document.parse true markup).fault? = none ↔
        (∀ lexeme ∈ lexemes, lexeme.faults = []) ∧
          (∀ lexeme ∈ lexemes, ∀ text, lexeme.construct.attributeText? = some text →
            ∃ attributes, Attribute.readStrictly text = .ok attributes) ∧
          Balanced (lexemes.filterMap fun lexeme => lexeme.construct.bracket?)) ∧
      ((document.parse true markup).fault? = none →
        document.parse true markup = document.parse false markup) := by
  intro lexemes
  let start : TreeBuilder :=
    { document := (document.create .fragment).1, root := document.size }
  have accepted_iff : (document.parse true markup).fault? = none ↔
      (∀ lexeme ∈ lexemes, lexeme.allFaults = []) ∧
        (start.takeAll true (readEvents true markup.toList)).2 = none ∧
        (start.takeAll true (readEvents true markup.toList)).1.opened = [] := by
    have atEnd : firstFault? true markup.toList = none ↔
        ∀ lexeme ∈ lexemes, lexeme.allFaults = [] := firstFault?_eq_none_iff
    simp only [parse, TreeBuilder.faultAtEnd?, ↓reduceIte, Option.orElse_eq_orElse,
      Option.orElse_eq_or, Option.or_eq_none_iff, Option.map_eq_none_iff,
      List.getLast?_eq_none_iff, atEnd]
    exact and_left_comm
  have nesting : (∀ lexeme ∈ lexemes, lexeme.allFaults = []) →
      ∀ reading ∈ readEvents true markup.toList, reading.fault? = none :=
    faultless_of_allFaults_eq_nil
  refine ⟨fault?_parse_forgiving document markup, ?_, fun accepted => ?_⟩
  · rw [accepted_iff, forall_allFaults_eq_nil_iff, and_assoc]
    refine and_congr_right fun sound => and_congr_right fun readable => ?_
    have faultless := forall_allFaults_eq_nil_iff.2 ⟨sound, readable⟩
    rw [TreeBuilder.takeAll_closed_iff rfl (nesting faultless), brackets_readEvents]
  · obtain ⟨faultless, through, _⟩ := accepted_iff.1 accepted
    have same := TreeBuilder.takeAll_eq_of_fault?_eq_none (nesting faultless) through
    have events : readEvents true markup.toList = readEvents false markup.toList :=
      readEvents_of_faultless faultless
    have documents : (document.parse true markup).document =
        (document.parse false markup).document := by
      change (start.takeAll true (readEvents true markup.toList)).1.document =
        (start.takeAll false (readEvents false markup.toList)).1.document
      rw [same, events]
    rw [ParsedMarkup.mk.injEq, accepted, fault?_parse_forgiving]
    exact ⟨documents, rfl, rfl⟩

/-- An element that is closed in another ASCII case, around one that has no content and one that is
empty. -/
theorem parse_strict_of_nested_tags :
    let markup := "<P title=a>b<br><i/></p>"
    (Document.empty.parse true markup).fault? = none ∧
      Document.empty.parse true markup = Document.empty.parse false markup := by
  intro markup
  have accepted : (Document.empty.parse true markup).fault? = none := by decide +kernel
  exact ⟨accepted, (parse_strict_iff .empty markup).2.2 accepted⟩

end Document

end MarkupTemplate
