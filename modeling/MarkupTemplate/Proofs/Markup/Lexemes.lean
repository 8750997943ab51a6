import MarkupTemplate.Proofs.Markup.Attributes

/-!
# Lexemes of written markup

Each construct that is written is read as one lexeme without a fault, whatever follows it; only a
text must be followed by markup or by nothing, since it would go on otherwise.  What is read of a
text is recorded without positions, so that readings can be put together.
-/

namespace MarkupTemplate

open MarkupTemplate.Text

namespace Lexeme

/-! ## Readings -/

/-- Read in one mode, the text gives the events without a fault, and the rest of it is read in
the next mode. -/
def ReadsTo (mode : ReadingMode) (text : List Char) (events : List Event) (next : ReadingMode)
    (rest : List Char) : Prop :=
  ∀ start, ∃ lexemes position,
    readFrom mode start text = lexemes ++ readFrom next position rest ∧
      (∀ lexeme ∈ lexemes, lexeme.allFaults = []) ∧
      ∀ strict, lexemes.filterMap (event? strict) = events

variable {mode next last : ReadingMode} {text middle rest : List Char} {events more : List Event}

theorem readsTo_refl (mode : ReadingMode) (text : List Char) : ReadsTo mode text [] mode text :=
  fun start => ⟨[], start, rfl, by simp, fun _ => rfl⟩

theorem ReadsTo.trans (first : ReadsTo mode text events next middle)
    (second : ReadsTo next middle more last rest) :
    ReadsTo mode text (events ++ more) last rest := by
  intro start
  obtain ⟨earlier, position, read, faultless, given⟩ := first start
  obtain ⟨later, stop, readOn, alsoFaultless, givenOn⟩ := second position
  refine ⟨earlier ++ later, stop, ?_, ?_, ?_⟩
  · rw [read, readOn, List.append_assoc]
  · intro lexeme member
    rcases List.mem_append.1 member with before | after
    · exact faultless lexeme before
    · exact alsoFaultless lexeme after
  · intro strict
    rw [List.filterMap_append, given, givenOn]

theorem readsTo_readMarkup {first : Char} {event : Event}
    (read : ∀ start, ∃ lexeme, readMarkup start first text = (lexeme, rest) ∧
      lexeme.construct.nextMode = next ∧ lexeme.allFaults = [] ∧
      ∀ strict, lexeme.event? strict = some event) :
    ReadsTo .markup (first :: text) [event] next rest := by
  intro start
  obtain ⟨lexeme, found, onward, faultless, gives⟩ := read start
  refine ⟨[lexeme], lexeme.stop, ?_, by simpa using faultless, ?_⟩
  · rw [readFrom, found, onward]
    rfl
  · intro strict
    simp [gives strict]

/-! ## Tags -/

/-- What is no comment is a declaration. -/
theorem readMarkup_of_sign {start : Nat} {rest : List Char}
    (noComment : ¬ ['<', '!', '-', '-'] <+: '<' :: '!' :: rest) :
    readMarkup start '<' ('!' :: rest) = readDeclaration start '!' rest := by
  unfold readMarkup
  rw [if_neg (by simp)]
  split
  · rename_i text shape
    rw [shape] at noComment
    exact absurd ⟨text, rfl⟩ noComment
  · rename_i shape
    rw [(List.cons.inj shape).2]
  · rename_i shape
    exact absurd (List.cons.inj shape).1 (by decide)
  · rename_i shape
    exact absurd (List.cons.inj shape).1 (by decide)
  · rename_i other _ _
    exact absurd rfl (other rest)

/-- What is no comment, declaration or end tag either is a start tag or a run of text. -/
theorem readMarkup_of_head {start : Nat} {rest : List Char}
    (plain : ∀ sign ∈ ['!', '?', '/'], rest.head? ≠ some sign) :
    readMarkup start '<' rest = match splitName? rest with
      | some (name, after) => readStartTag start name after
      | none => readText start '<' rest := by
  unfold readMarkup
  rw [if_neg (by simp)]
  split
  · exact absurd rfl (plain '!' (by simp))
  · exact absurd rfl (plain '!' (by simp))
  · exact absurd rfl (plain '?' (by simp))
  · exact absurd rfl (plain '/' (by simp))
  · rfl

theorem readMarkup_of_isName {name following : List Char} (isName : IsName name)
    (ends : EndsName following) (start : Nat) :
    readMarkup start '<' (name ++ following) = readStartTag start name following := by
  cases name with
  | nil => exact isName.elim
  | cons first others =>
      rw [readMarkup_of_head, splitName?_append isName ends]
      intro sign member head
      obtain rfl := Option.some.inj head
      have opens : isNameStart first = true := isName.1
      simp only [List.mem_cons, List.not_mem_nil, or_false] at member
      rcases member with rfl | rfl | rfl <;> exact absurd opens (by decide)

theorem endsName_attributes (attributes : List Attribute) (rest : List Char) :
    EndsName (attributes.flatMap Attribute.markup ++ '>' :: rest) := by
  intro character first
  cases attributes with
  | nil =>
      simp only [List.flatMap_nil, List.nil_append, List.head?_cons, Option.mem_some] at first
      rw [← first]
      decide
  | cons entry others =>
      simp only [List.flatMap_cons, Attribute.markup, List.cons_append, List.head?_cons,
        Option.mem_some] at first
      rw [← first]
      decide

/-- How to read on after a start tag of this name. -/
def modeAfter (name : String) : ReadingMode :=
  if hasRawContent name.toList then .rawContent name.toList else .markup

theorem readsTo_startTag {name : String} {attributes : List Attribute}
    (isName : IsName name.toList) (writable : ∀ entry ∈ attributes, entry.IsWritable)
    (distinct : (attributes.map Attribute.name).Nodup) (rest : List Char) :
    ReadsTo .markup (startTagMarkup name attributes ++ rest) [.startElement name attributes]
      (modeAfter name) rest := by
  have shape : startTagMarkup name attributes ++ rest =
      '<' :: (name.toList ++ (attributes.flatMap Attribute.markup ++ '>' :: rest)) := by
    simp [startTagMarkup]
  rw [shape]
  apply readsTo_readMarkup
  intro start
  have ended := splitTagEnd?_of_passesTo (Attribute.passesTo_flatMap_markup writable) rest
  have noFault := Attribute.fault?_flatMap_markup writable distinct
  rw [readMarkup_of_isName isName (endsName_attributes attributes rest)]
  unfold readStartTag
  simp only [ended, Attribute.getLast?_flatMap_markup, ↓reduceIte]
  refine ⟨_, rfl, rfl, ?_, ?_⟩
  · simp [allFaults, attributeFault?, noFault]
  · intro strict
    simp [event?, readAttributes, noFault, Attribute.readAll_flatMap_markup writable distinct]

theorem readsTo_endTag {name : String} (isName : IsName name.toList) (rest : List Char) :
    ReadsTo .markup (endTagMarkup name ++ rest) [.endElement name] .markup rest := by
  have shape : endTagMarkup name ++ rest = '<' :: '/' :: (name.toList ++ '>' :: rest) := by
    simp [endTagMarkup]
  rw [shape]
  apply readsTo_readMarkup
  intro start
  have ends : EndsName ('>' :: rest) := by
    intro character first
    simp only [List.head?_cons, Option.mem_some] at first
    rw [← first]
    decide
  have named := splitName?_append isName ends
  have ended : splitTagEnd? ('>' :: rest) = some ([], rest) :=
    splitTagEnd?_of_passesTo passesTo_nil rest
  have read : readMarkup start '<' ('/' :: (name.toList ++ '>' :: rest)) =
      readEndTag start (name.toList ++ '>' :: rest) := rfl
  rw [read]
  unfold readEndTag
  simp only [named, Option.getD_some, isName.isEmpty, Bool.false_eq_true, ↓reduceIte, ended]
  refine ⟨_, rfl, rfl, rfl, ?_⟩
  intro strict
  simp [event?]

/-! ## Comments -/

theorem readsTo_comment {data : String} (closed : ¬ ['-', '-', '>'] <:+: data.toList)
    (rest : List Char) :
    ReadsTo .markup (commentMarkup data ++ rest) [.comment data] .markup rest := by
  have shape : commentMarkup data ++ rest =
      '<' :: '!' :: '-' :: '-' :: (data.toList ++ ['-', '-', '>'] ++ rest) := by
    simp [commentMarkup]
  rw [shape]
  apply readsTo_readMarkup
  intro start
  have read : readMarkup start '<' ('!' :: '-' :: '-' :: (data.toList ++ ['-', '-', '>'] ++ rest)) =
      readComment start (data.toList ++ ['-', '-', '>'] ++ rest) := rfl
  rw [read]
  unfold readComment
  rw [splitFirst?_commentEnd closed]
  refine ⟨_, rfl, rfl, rfl, ?_⟩
  intro strict
  simp [event?]

/-! ## Texts -/

/-- A text ends before this: at markup, or at the end of everything. -/
def EndsText (rest : List Char) : Prop :=
  rest = [] ∨ startsMarkup rest = true

theorem startsMarkup_cons_of_ne {first : Char} (other : first ≠ '<') (rest : List Char) :
    startsMarkup (first :: rest) = false := by
  simp [startsMarkup, other]

theorem splitBeforeMarkup_cons {first : Char} (plain : startsMarkup (first :: rest) = false) :
    splitBeforeMarkup (first :: rest) =
      (first :: (splitBeforeMarkup rest).1, (splitBeforeMarkup rest).2) := by
  rw [splitBeforeMarkup, splitFirst?, plain, splitBeforeMarkup]
  cases splitFirst? startsMarkup rest with
  | none => rfl
  | some halves => rfl

theorem splitBeforeMarkup_append_of_free (free : '<' ∉ text) (rest : List Char) :
    splitBeforeMarkup (text ++ rest) =
      (text ++ (splitBeforeMarkup rest).1, (splitBeforeMarkup rest).2) := by
  induction text with
  | nil => rfl
  | cons first others inductionHypothesis =>
      rw [List.mem_cons, not_or] at free
      rw [List.cons_append, splitBeforeMarkup_cons (startsMarkup_cons_of_ne (Ne.symm free.1) _),
        inductionHypothesis free.2, List.cons_append]

theorem splitBeforeMarkup_append (free : '<' ∉ text) (ends : EndsText rest) :
    splitBeforeMarkup (text ++ rest) = (text, rest) := by
  have passed : splitBeforeMarkup rest = ([], rest) := by
    rcases ends with rfl | starts
    · rfl
    · cases rest with
      | nil => rfl
      | cons first others =>
          rw [splitBeforeMarkup, splitFirst?, if_pos starts]
          rfl
  rw [splitBeforeMarkup_append_of_free free, passed, List.append_nil]

theorem bracketPositions_of_free (free : '<' ∉ text) (start : Nat) :
    bracketPositions start text = [] := by
  induction text generalizing start with
  | nil => rfl
  | cons character others inductionHypothesis =>
      rw [List.mem_cons, not_or] at free
      rw [bracketPositions, if_neg (Ne.symm free.1), inductionHypothesis free.2]

theorem readsTo_text {data : String} (nonempty : data ≠ "") (ends : EndsText rest) :
    ReadsTo .markup (Reference.escapeText data.toList ++ rest) [.text data] .markup rest := by
  have free := Reference.lessThan_not_mem_escapeText data.toList
  obtain ⟨first, others, shape⟩ := List.exists_cons_of_ne_nil
    (l := Reference.escapeText data.toList) (by
      rw [ne_eq, Reference.escapeText_eq_nil_iff, String.toList_eq_nil_iff]
      exact nonempty)
  have decoded := Reference.decode_escapeText data.toList
  rw [shape] at free decoded ⊢
  have plain : first ≠ '<' := fun same => free (same ▸ List.mem_cons_self)
  have freeRest : '<' ∉ others := fun member => free (List.mem_cons_of_mem _ member)
  rw [List.cons_append]
  apply readsTo_readMarkup
  intro start
  unfold readMarkup
  rw [if_pos plain]
  unfold readText
  simp only [splitBeforeMarkup_append freeRest ends, decoded]
  refine ⟨_, rfl, rfl, ?_, ?_⟩
  · simp [allFaults, attributeFault?, bracketPositions_of_free free]
  · intro strict
    simp [event?]

/-! ## Raw content -/

/-- The events of raw content: one text, unless there is nothing. -/
def rawEvents (name content : List Char) : List Event :=
  if content.isEmpty then []
  else if hasVerbatimContent name then [.text (String.ofList content)]
  else [.text (String.ofList (Reference.decode content))]

/-- What raw content stands for. -/
def rawConstruct (name content : List Char) : Construct :=
  if content.isEmpty then .dropped
  else if hasVerbatimContent name then .text content
  else .text (Reference.decode content)

theorem readRawContent_of_cut {name content after : List Char}
    (cut : splitClosingTag? name text = some (content, after)) (start : Nat) :
    readRawContent start name text =
      ({ start, source := content, construct := rawConstruct name content, faults := [] },
        after) := by
  simp only [readRawContent, cut, Option.getD_some, Option.isNone_some, Bool.false_eq_true,
    ↓reduceIte, rawConstruct]

theorem readRawContent_of_uncut {name : List Char} (uncut : splitClosingTag? name text = none)
    (start : Nat) :
    readRawContent start name text =
      ( { start, source := text, construct := rawConstruct name text
          faults := [⟨start, .unclosedRawElement (String.ofList name)⟩] }, []) := by
  simp only [readRawContent, uncut, Option.getD_none, Option.isNone_none, ↓reduceIte,
    rawConstruct]

theorem construct_readRawContent (start : Nat) (name text : List Char) :
    (readRawContent start name text).1.construct =
      rawConstruct name (readRawContent start name text).1.source :=
  rfl

theorem rawConstruct_of_ne_nil {content : List Char} (filled : content ≠ []) (name : List Char) :
    rawConstruct name content =
      .text (if hasVerbatimContent name then content else Reference.decode content) := by
  unfold rawConstruct
  rw [List.isEmpty_eq_false_iff.2 filled]
  cases hasVerbatimContent name <;> rfl

theorem rawConstruct_cases (name content : List Char) :
    rawConstruct name content = .dropped ∨
      ∃ data, rawConstruct name content = .text data := by
  by_cases empty : content = []
  · rw [empty]
    exact Or.inl rfl
  · exact Or.inr ⟨_, rawConstruct_of_ne_nil empty name⟩

theorem rawConstruct_eq_dropped_iff {name content : List Char} :
    rawConstruct name content = .dropped ↔ content = [] := by
  by_cases empty : content = []
  · rw [empty]
    exact iff_of_true rfl rfl
  · rw [rawConstruct_of_ne_nil empty]
    exact iff_of_false (by simp) empty

theorem nextMode_rawConstruct (name content : List Char) :
    (rawConstruct name content).nextMode = .markup := by
  rcases rawConstruct_cases name content with dropped | ⟨data, text⟩
  · rw [dropped]
    rfl
  · rw [text]
    rfl

theorem readsTo_rawContent {name : String} {content : List Char} (isName : IsName name.toList)
    (keeps : KeepsOpen name.toList content) (rest : List Char) :
    ReadsTo (.rawContent name.toList) (content ++ (endTagMarkup name ++ rest))
      (rawEvents name.toList content) .markup (endTagMarkup name ++ rest) := by
  have shape : endTagMarkup name ++ rest = '<' :: '/' :: (name.toList ++ '>' :: rest) := by
    simp [endTagMarkup]
  rw [shape]
  intro start
  have read := readRawContent_of_cut
    (splitClosingTag?_append isName.lessThan_not_mem keeps rest) start
  refine ⟨[⟨start, content, rawConstruct name.toList content, []⟩],
    start + byteSize content, ?_, ?_, ?_⟩
  · rw [readFrom, read]
    rfl
  · intro lexeme member
    rw [List.mem_singleton] at member
    subst member
    rcases rawConstruct_cases name.toList content with dropped | ⟨data, text⟩
    · simp [allFaults, attributeFault?, dropped]
    · simp [allFaults, attributeFault?, text]
  · intro strict
    simp only [List.filterMap_cons, List.filterMap_nil, event?, rawEvents, rawConstruct]
    cases content.isEmpty with
    | true => rfl
    | false => cases hasVerbatimContent name.toList <;> rfl

end Lexeme

end MarkupTemplate
