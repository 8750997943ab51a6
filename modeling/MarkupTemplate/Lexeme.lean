import MarkupTemplate.Fault
import MarkupTemplate.Reference
import MarkupTemplate.Text.Scan

/-!
# Lexemes of markup

A markup text is a row of lexemes: tags, comments, declarations and the runs of text between them,
and the end of the text as the last.  Every lexeme keeps the characters it was read from, so the
lexemes of a text in order are the whole text.  Two shapes stand for nothing and are dropped: an
end tag without a name, and a start tag that the text ends in.  The content of a few elements is
not markup; there the next lexeme reaches to the element's closing tag.

Reading never fails.  What is not well formed is recorded as a fault of the lexeme, and whether
anything follows from a fault is for the reader of the lexemes to decide.
-/

namespace MarkupTemplate

open MarkupTemplate.Text

/-! ## Elements whose content is not markup -/

/-- Elements whose content is not markup. -/
def rawContentElements : List String :=
  ["script", "style", "textarea", "title"]

/-- Elements whose content is not markup and holds no references either. -/
def verbatimElements : List String :=
  ["script", "style"]

def hasRawContent (name : List Char) : Bool :=
  isOneOfIgnoringCase rawContentElements name

/-- The content of the element is written exactly as it is. -/
def hasVerbatimContent (name : List Char) : Bool :=
  isOneOfIgnoringCase verbatimElements name

/-! ## Lexemes -/

/-- What a lexeme stands for. -/
inductive Construct where
  | startTag (name attributes : List Char)
  | emptyTag (name attributes : List Char)
  | endTag (name : List Char)
  | text (content : List Char)
  | comment (content : List Char)
  | declaration (content : List Char)
  | dropped
  | endOfText
  deriving DecidableEq, Repr

/-- What a lexeme is read as: markup, or the content of an element that is not markup; once the
end of the text was met, nothing more is read. -/
inductive ReadingMode where
  | markup
  | rawContent (name : List Char)
  | finished
  deriving DecidableEq, Repr

/-- How many lexemes of no length may still be read. -/
def ReadingMode.weight : ReadingMode → Nat
  | .finished => 0
  | .markup => 1
  | .rawContent _ => 2

def Construct.nextMode : Construct → ReadingMode
  | .startTag name _ => if hasRawContent name then .rawContent name else .markup
  | .endOfText => .finished
  | _ => .markup

/-- A construct with the characters it was read from and the faults found in them. -/
structure Lexeme where
  /-- Byte position of the first character. -/
  start : Nat
  source : List Char
  construct : Construct
  faults : List Fault
  deriving DecidableEq, Repr

namespace Lexeme

/-- Byte position after the last character. -/
def stop (lexeme : Lexeme) : Nat :=
  lexeme.start + byteSize lexeme.source

/-! ## Reading one lexeme -/

/-- Byte positions of the opening angle brackets in a text that begins at the given position. -/
def bracketPositions : Nat → List Char → List Nat
  | _, [] => []
  | position, character :: rest =>
      if character = '<' then
        position :: bracketPositions (position + character.utf8Size) rest
      else
        bracketPositions (position + character.utf8Size) rest

/-- A run of text: its first character, whatever it is, and everything up to the next angle
bracket that opens markup.  Every angle bracket inside is a fault. -/
def readText (start : Nat) (first : Char) (rest : List Char) : Lexeme × List Char :=
  let run := splitBeforeMarkup rest
  let source := first :: run.1
  ( { start, source
      construct := .text (Reference.decode source)
      faults := (bracketPositions start source).map fun position => ⟨position, .invalidTagName⟩ },
    run.2 )

/-- A comment, whose opening has been read. -/
def readComment (start : Nat) (text : List Char) : Lexeme × List Char :=
  match splitFirst? ['-', '-', '>'].isPrefixOf text with
  | some (content, after) =>
      ( { start
          source := ['<', '!', '-', '-'] ++ content ++ ['-', '-', '>']
          construct := .comment content
          faults := [] },
        after.drop 3 )
  | none =>
      ( { start
          source := ['<', '!', '-', '-'] ++ text
          construct := .comment text
          faults := [⟨start, .unterminatedComment⟩] },
        [] )

/-- A declaration, of which the opening bracket and the sign after it have been read.  Its
content is all of its source. -/
def readDeclaration (start : Nat) (sign : Char) (text : List Char) : Lexeme × List Char :=
  match splitTagEnd? text with
  | some (content, after) =>
      let source := '<' :: sign :: content ++ ['>']
      ({ start, source, construct := .declaration source, faults := [] }, after)
  | none =>
      let source := '<' :: sign :: text
      ( { start, source
          construct := .declaration source
          faults := [⟨start, .unterminatedDeclaration⟩] },
        [] )

/-- An end tag, whose bracket and slash have been read. -/
def readEndTag (start : Nat) (text : List Char) : Lexeme × List Char :=
  let named := (splitName? text).getD ([], text)
  let construct := if named.1.isEmpty then .dropped else .endTag named.1
  let nameless := if named.1.isEmpty then [⟨start, .invalidEndTag⟩] else []
  match splitTagEnd? named.2 with
  | some (skipped, after) =>
      ( { start
          source := ['<', '/'] ++ named.1 ++ skipped ++ ['>']
          construct
          faults := nameless },
        after )
  | none =>
      ( { start
          source := ['<', '/'] ++ text
          construct
          faults := ⟨start, .unterminatedEndTag⟩ :: nameless },
        [] )

/-- A start tag, whose bracket and name have been read.  A slash before the closing bracket makes
it an empty tag. -/
def readStartTag (start : Nat) (name text : List Char) : Lexeme × List Char :=
  match splitTagEnd? text with
  | some (attributes, after) =>
      ( { start
          source := '<' :: name ++ attributes ++ ['>']
          construct :=
            if attributes.getLast? = some '/' then
              .emptyTag name attributes.dropLast
            else
              .startTag name attributes
          faults := [] },
        after )
  | none =>
      ( { start
          source := '<' :: name ++ text
          construct := .dropped
          faults := [⟨start, .unterminatedStartTag⟩] },
        [] )

/-- The lexeme at the start of a markup text, given by its first character and the rest. -/
def readMarkup (start : Nat) (first : Char) (rest : List Char) : Lexeme × List Char :=
  if first ≠ '<' then
    readText start first rest
  else
    match rest with
    | '!' :: '-' :: '-' :: text => readComment start text
    | '!' :: text => readDeclaration start '!' text
    | '?' :: text => readDeclaration start '?' text
    | '/' :: text => readEndTag start text
    | text =>
        match splitName? text with
        | some (name, after) => readStartTag start name after
        | none => readText start first text

/-- The content of an element that is not markup, up to its closing tag.  Content of no length is
dropped. -/
def readRawContent (start : Nat) (name text : List Char) : Lexeme × List Char :=
  let halves := (splitClosingTag? name text).getD (text, [])
  ( { start
      source := halves.1
      construct :=
        if halves.1.isEmpty then .dropped
        else if hasVerbatimContent name then .text halves.1
        else .text (Reference.decode halves.1)
      faults :=
        if (splitClosingTag? name text).isNone then
          [⟨start, .unclosedRawElement (String.ofList name)⟩]
        else
          [] },
    halves.2 )

/-! ## Nothing is lost -/

theorem source_append_readText (start : Nat) (first : Char) (rest : List Char) :
    (readText start first rest).1.source ++ (readText start first rest).2 = first :: rest := by
  simp [readText]

theorem source_append_readComment (start : Nat) (text : List Char) :
    (readComment start text).1.source ++ (readComment start text).2 =
      '<' :: '!' :: '-' :: '-' :: text := by
  unfold readComment
  split
  · rename_i content after cut
    obtain ⟨following, leads⟩ := List.isPrefixOf_iff_prefix.1 (holds_of_splitFirst? cut)
    rw [← append_of_splitFirst? cut, ← leads]
    simp
  · simp

theorem source_append_readDeclaration (start : Nat) (sign : Char) (text : List Char) :
    (readDeclaration start sign text).1.source ++ (readDeclaration start sign text).2 =
      '<' :: sign :: text := by
  unfold readDeclaration
  split
  · rename_i content after cut
    rw [← append_of_splitTagEnd? cut]
    simp
  · simp

theorem append_splitName?_getD (text : List Char) :
    ((splitName? text).getD ([], text)).1 ++ ((splitName? text).getD ([], text)).2 = text := by
  cases read : splitName? text with
  | none => simp
  | some halves => simpa using append_of_splitName? read

theorem source_append_readEndTag (start : Nat) (text : List Char) :
    (readEndTag start text).1.source ++ (readEndTag start text).2 = '<' :: '/' :: text := by
  have named := append_splitName?_getD text
  unfold readEndTag
  simp only
  split
  · rename_i skipped after cut
    have rest := append_of_splitTagEnd? cut
    simp only [List.append_assoc, List.cons_append, List.nil_append, rest, named]
  · simp

theorem source_append_readStartTag (start : Nat) (name text : List Char) :
    (readStartTag start name text).1.source ++ (readStartTag start name text).2 =
      '<' :: (name ++ text) := by
  unfold readStartTag
  split
  · rename_i content after cut
    rw [← append_of_splitTagEnd? cut]
    simp
  · simp

theorem source_append_readMarkup (start : Nat) (first : Char) (rest : List Char) :
    (readMarkup start first rest).1.source ++ (readMarkup start first rest).2 =
      first :: rest := by
  unfold readMarkup
  by_cases bracket : first = '<'
  · subst bracket
    simp only [ne_eq, not_true_eq_false, ↓reduceIte]
    split
    · exact source_append_readComment start _
    · exact source_append_readDeclaration start '!' _
    · exact source_append_readDeclaration start '?' _
    · exact source_append_readEndTag start _
    · split
      · rename_i name after read
        rw [source_append_readStartTag, append_of_splitName? read]
      · exact source_append_readText start '<' _
  · simp only [ne_eq, bracket, not_false_eq_true, ↓reduceIte]
    exact source_append_readText start first rest

theorem source_readMarkup_ne_nil (start : Nat) (first : Char) (rest : List Char) :
    (readMarkup start first rest).1.source ≠ [] := by
  unfold readMarkup
  split
  · simp [readText]
  · split
    · unfold readComment
      split <;> simp
    · unfold readDeclaration
      split <;> simp
    · unfold readDeclaration
      split <;> simp
    · unfold readEndTag
      simp only
      split <;> simp
    · split
      · unfold readStartTag
        split <;> simp
      · simp [readText]

/-- Only the end of the text ends the reading. -/
theorem nextMode_readMarkup (start : Nat) (first : Char) (rest : List Char) :
    (readMarkup start first rest).1.construct.nextMode ≠ .finished := by
  unfold readMarkup
  split
  · simp [readText, Construct.nextMode]
  · split
    · unfold readComment
      split <;> simp [Construct.nextMode]
    · unfold readDeclaration
      split <;> simp [Construct.nextMode]
    · unfold readDeclaration
      split <;> simp [Construct.nextMode]
    · unfold readEndTag
      simp only
      split <;> (split <;> simp [Construct.nextMode])
    · split
      · unfold readStartTag
        split
        · split
          · simp [Construct.nextMode]
          · simp only [Construct.nextMode]
            split <;> simp
        · simp [Construct.nextMode]
      · simp [readText, Construct.nextMode]

theorem source_append_readRawContent (start : Nat) (name text : List Char) :
    (readRawContent start name text).1.source ++ (readRawContent start name text).2 = text := by
  unfold readRawContent
  cases cut : splitClosingTag? name text with
  | none => simp
  | some halves => simpa using append_of_splitFirst? cut

/-! ## Reading all lexemes -/

def atEnd (position : Nat) : Lexeme :=
  { start := position, source := [], construct := .endOfText, faults := [] }

/-- The lexemes of a text that begins at the given byte position and is read in the given mode. -/
def readFrom (mode : ReadingMode) (start : Nat) (text : List Char) : List Lexeme :=
  match mode with
  | .finished => []
  | .rawContent name =>
      let read := readRawContent start name text
      read.1 :: readFrom .markup read.1.stop read.2
  | .markup =>
      match text with
      | [] => [atEnd start]
      | first :: rest =>
          let read := readMarkup start first rest
          read.1 :: readFrom read.1.construct.nextMode read.1.stop read.2
  termination_by 2 * text.length + mode.weight
  decreasing_by
    · have whole := congrArg List.length (source_append_readRawContent start name text)
      simp only [List.length_append] at whole
      simp only [ReadingMode.weight]
      omega
    · have whole := congrArg List.length (source_append_readMarkup start first rest)
      have nonempty := List.length_pos_iff.2 (source_readMarkup_ne_nil start first rest)
      have light : ∀ mode : ReadingMode, mode.weight ≤ 2 := by
        intro mode
        cases mode <;> simp [ReadingMode.weight]
      have bounded := light (readMarkup start first rest).1.construct.nextMode
      have once : ReadingMode.markup.weight = 1 := rfl
      simp only [List.length_append, List.length_cons] at whole
      rw [once, List.length_cons]
      omega

def readAll (text : List Char) : List Lexeme :=
  readFrom .markup 0 text

/-- The lexemes of a text, in order, are the whole text. -/
theorem flatMap_source_readFrom {mode : ReadingMode} (reads : mode ≠ .finished) (start : Nat)
    (text : List Char) :
    (readFrom mode start text).flatMap source = text := by
  fun_induction readFrom mode start text with
  | case1 => contradiction
  | case2 start text name read inductionHypothesis =>
    rw [List.flatMap_cons, inductionHypothesis (by simp)]
    exact source_append_readRawContent start name text
  | case3 start => simp [atEnd]
  | case4 start first rest read inductionHypothesis =>
    rw [List.flatMap_cons, inductionHypothesis (nextMode_readMarkup start first rest)]
    exact source_append_readMarkup start first rest

theorem flatMap_source_readAll (text : List Char) : (readAll text).flatMap source = text :=
  flatMap_source_readFrom (by simp) 0 text

end Lexeme

end MarkupTemplate
