import Mathlib.Data.List.Chain
import MarkupTemplate.Proofs.Markup.Offences
import MarkupTemplate.Proofs.Markup.Lexemes

/-!
# Where lexemes stand

Every lexeme stands at a place of the text, from one character to another, and so do the names,
attributes and contents that are taken from it.  A text ends where markup begins, or with the whole
text; so no text begins where another one ends.  What is dropped is an end tag without a name, or a
start tag that the text ends in.
-/

namespace MarkupTemplate

open MarkupTemplate.Text

namespace Text

/-! ## Between two places -/

/-- The text between two byte positions, if both of them lie between characters. -/
def between? (first last : Nat) (text : List Char) : Option (List Char) :=
  if first ≤ last then
    (splitAtByte? first text).bind fun halves =>
      (splitAtByte? (last - first) halves.2).map Prod.fst
  else
    none

theorem between?_append (before middle after : List Char) :
    between? (byteSize before) (byteSize before + byteSize middle)
      (before ++ (middle ++ after)) = some middle := by
  have first : splitAtByte? (byteSize before) (before ++ (middle ++ after)) =
      some (before, middle ++ after) := splitAtByte?_eq_some_iff.2 ⟨rfl, rfl⟩
  have second : splitAtByte? (byteSize middle) (middle ++ after) = some (middle, after) :=
    splitAtByte?_eq_some_iff.2 ⟨rfl, rfl⟩
  rw [between?, if_pos (Nat.le_add_right _ _), first, Option.bind_some, Nat.add_sub_cancel_left,
    second]
  rfl

/-! ## Tags without an end -/

/-- No quote is open behind the text, if the given one was open before it. -/
def LeavesNoQuote (openQuote : Option Char) (text : List Char) : Prop :=
  text.foldl nextQuote openQuote = none

/-- Every closing bracket of the text stands within quotes. -/
def HasNoTagEnd (openQuote : Option Char) (text : List Char) : Prop :=
  ∀ before after, text = before ++ '>' :: after → ¬ LeavesNoQuote openQuote before

theorem hasNoTagEnd_cons {openQuote : Option Char} {character : Char} {rest : List Char} :
    HasNoTagEnd openQuote (character :: rest) ↔
      (openQuote.isNone && character == '>') = false ∧
        HasNoTagEnd (nextQuote openQuote character) rest := by
  constructor
  · intro uncut
    refine ⟨?_, fun before after shape => ?_⟩
    · rw [Bool.and_eq_false_iff, Option.isNone_eq_false_iff, beq_eq_false_iff_ne]
      by_contra ends
      rw [not_or, not_not, Option.not_isSome_iff_eq_none] at ends
      exact uncut [] rest (by rw [ends.2]; rfl) ends.1
    · exact uncut (character :: before) after (by rw [shape]; rfl)
  · rintro ⟨here, uncut⟩ before after shape
    cases before with
    | nil =>
        obtain ⟨rfl, _⟩ := List.cons.inj shape
        intro unquoted
        rw [LeavesNoQuote, List.foldl_nil] at unquoted
        rw [unquoted] at here
        contradiction
    | cons first others =>
        obtain ⟨rfl, same⟩ := List.cons.inj shape
        exact uncut others after same

theorem hasNoTagEnd_of_splitTagEndWithin? {openQuote : Option Char} {text : List Char}
    (uncut : splitTagEndWithin? openQuote text = none) : HasNoTagEnd openQuote text := by
  induction text generalizing openQuote with
  | nil =>
      intro before after shape
      simp at shape
  | cons character rest inductionHypothesis =>
      rw [splitTagEndWithin?] at uncut
      split at uncut
      · contradiction
      · rename_i passes
        rw [Option.map_eq_none_iff] at uncut
        exact hasNoTagEnd_cons.2 ⟨Bool.eq_false_iff.2 passes, inductionHypothesis uncut⟩

theorem leavesNoQuote_of_splitTagEndWithin? {openQuote : Option Char}
    {text before after : List Char}
    (cut : splitTagEndWithin? openQuote text = some (before, after)) :
    LeavesNoQuote openQuote before ∧ HasNoTagEnd openQuote before := by
  induction text generalizing openQuote before with
  | nil => contradiction
  | cons character rest inductionHypothesis =>
      rw [splitTagEndWithin?] at cut
      split at cut
      · rename_i ends
        obtain ⟨rfl, rfl⟩ := Prod.mk.inj (Option.some.inj cut)
        rw [Bool.and_eq_true, Option.isNone_iff_eq_none] at ends
        exact ⟨ends.1, fun earlier later shape => by simp at shape⟩
      · rename_i passes
        obtain ⟨⟨others, remaining⟩, found, same⟩ := Option.map_eq_some_iff.1 cut
        obtain ⟨rfl, rfl⟩ := Prod.mk.inj same
        obtain ⟨unquoted, uncut⟩ := inductionHypothesis found
        exact ⟨unquoted, hasNoTagEnd_cons.2 ⟨Bool.eq_false_iff.2 passes, uncut⟩⟩

end Text

/-! ## What is dropped -/

/-- The position lies in something that stands for nothing: in an end tag without a name, up to and
with its first closing bracket outside quotes, or to the end of the text if there is none; or in a
start tag without such a bracket, which the text ends in. -/
inductive Skipped (text : List Char) (position : Nat) : Prop
  | namelessEndTag (before skipped after : List Char)
      (whole : text = before ++ ('<' :: '/' :: skipped ++ '>' :: after))
      (nameless : ∀ character ∈ (skipped ++ '>' :: after).head?, isNameStart character = false)
      (unquoted : LeavesNoQuote none skipped) (first : HasNoTagEnd none skipped)
      (inside : byteSize before ≤ position ∧
        position < byteSize before + byteSize ('<' :: '/' :: skipped ++ ['>']))
  | unendedEndTag (before skipped : List Char) (whole : text = before ++ '<' :: '/' :: skipped)
      (nameless : ∀ character ∈ skipped.head?, isNameStart character = false)
      (unended : HasNoTagEnd none skipped)
      (inside : byteSize before ≤ position ∧ position < byteSize text)
  | unendedStartTag (before name attributes : List Char)
      (whole : text = before ++ '<' :: (name ++ attributes))
      (named : splitName? (name ++ attributes) = some (name, attributes))
      (unended : HasNoTagEnd none attributes)
      (inside : byteSize before ≤ position ∧ position < byteSize text)

namespace Lexeme

/-! ## What markup is read as -/

/-- What begins at a place of a text, and how it is read. -/
inductive ReadsAs (start : Nat) : List Char → Lexeme × List Char → Prop
  | text {first : Char} {rest : List Char} (plain : startsMarkup (first :: rest) = false) :
      ReadsAs start (first :: rest) (readText start first rest)
  | comment (text : List Char) :
      ReadsAs start ('<' :: '!' :: '-' :: '-' :: text) (readComment start text)
  | declaration (sign : Char) (text : List Char) :
      ReadsAs start ('<' :: sign :: text) (readDeclaration start sign text)
  | endTag (text : List Char) : ReadsAs start ('<' :: '/' :: text) (readEndTag start text)
  | startTag {name text : List Char} (named : splitName? (name ++ text) = some (name, text)) :
      ReadsAs start ('<' :: (name ++ text)) (readStartTag start name text)

theorem readsAs (start : Nat) (first : Char) (rest : List Char) :
    ReadsAs start (first :: rest) (readMarkup start first rest) := by
  unfold readMarkup
  by_cases bracket : first = '<'
  · subst bracket
    rw [if_neg (by simp)]
    split
    · exact .comment _
    · exact .declaration '!' _
    · exact .declaration '?' _
    · exact .endTag _
    · rename_i noComment noSign noQuestion noSlash
      split
      · rename_i name after named
        have whole := append_of_splitName? named
        rw [← whole] at named ⊢
        exact .startTag named
      · rename_i nameless
        refine .text ?_
        cases rest with
        | nil => rfl
        | cons sign others =>
            have noStart : isNameStart sign = false := by
              rw [splitName?] at nameless
              split at nameless
              · contradiction
              · rename_i refused
                exact Bool.eq_false_iff.2 refused
            have signs : sign ≠ '!' ∧ sign ≠ '?' ∧ sign ≠ '/' :=
              ⟨fun same => noSign others (by rw [same]),
                fun same => noQuestion others (by rw [same]),
                fun same => noSlash others (by rw [same])⟩
            simp [startsMarkup, opensMarkup, noStart, signs]
  · rw [if_pos (by simpa using bracket)]
    refine .text ?_
    simp [startsMarkup, bracket]

/-! ## Texts end where markup begins -/

/-- The lexeme is a text. -/
def IsText (lexeme : Lexeme) : Prop :=
  ∃ content, lexeme.construct = .text content

/-- Only a run of text is read as a text. -/
theorem ReadsAs.eq_readText {start : Nat} {text : List Char} {read : Lexeme × List Char}
    (reads : ReadsAs start text read) (isText : read.1.IsText) :
    ∃ first rest, startsMarkup (first :: rest) = false ∧ text = first :: rest ∧
      read = readText start first rest := by
  obtain ⟨content, isText⟩ := isText
  cases reads with
  | text plain => exact ⟨_, _, plain, rfl, rfl⟩
  | comment text =>
      unfold readComment at isText
      split at isText <;> contradiction
  | declaration sign text =>
      unfold readDeclaration at isText
      split at isText <;> contradiction
  | endTag text =>
      unfold readEndTag at isText
      simp only at isText
      split at isText <;> (simp only at isText; split at isText <;> contradiction)
  | startTag named =>
      unfold readStartTag at isText
      split at isText
      · simp only at isText
        split at isText <;> contradiction
      · contradiction

/-- Nothing is left behind a text, or markup. -/
theorem endsText_splitBeforeMarkup (text : List Char) : EndsText (splitBeforeMarkup text).2 := by
  unfold splitBeforeMarkup
  cases cut : splitFirst? startsMarkup text with
  | none => exact .inl rfl
  | some halves => exact .inr (holds_of_splitFirst? cut)

theorem startsMarkup_of_startsClosingTag {name text : List Char}
    (starts : startsClosingTag name text = true) : startsMarkup text = true := by
  unfold startsClosingTag at starts
  split at starts
  · rfl
  · contradiction

theorem endsText_readRawContent (start : Nat) (name text : List Char) :
    EndsText (readRawContent start name text).2 := by
  unfold readRawContent
  cases cut : splitClosingTag? name text with
  | none => exact .inl rfl
  | some halves => exact .inr (startsMarkup_of_startsClosingTag (holds_of_splitFirst? cut))

/-- Where nothing is left, or markup, no text is read, and what is read there is not empty. -/
theorem head_readFrom_of_endsText {text : List Char} (ends : EndsText text) (start : Nat) :
    ∀ lexeme ∈ (readFrom .markup start text).head?, ¬ lexeme.IsText ∧
      (lexeme.construct = .endOfText ∨ lexeme.source ≠ []) := by
  intro lexeme isHead
  unfold readFrom at isHead
  cases text with
  | nil =>
      obtain rfl := Option.some.inj isHead
      exact ⟨fun ⟨content, isText⟩ => by contradiction, .inl rfl⟩
  | cons first rest =>
      obtain rfl := Option.some.inj isHead
      refine ⟨fun isText => ?_, .inr (source_readMarkup_ne_nil start first rest)⟩
      obtain ⟨_, _, plain, same, _⟩ := (readsAs start first rest).eq_readText isText
      rw [← same, ends.resolve_left (by simp)] at plain
      contradiction

theorem isChain_readFrom (mode : ReadingMode) (start : Nat) (text : List Char) :
    (readFrom mode start text).IsChain fun lexeme next =>
      lexeme.IsText → ¬ next.IsText ∧ (next.construct = .endOfText ∨ next.source ≠ []) := by
  fun_induction readFrom mode start text with
  | case1 => exact .nil
  | case2 start text name read inductionHypothesis =>
      refine List.isChain_cons.2 ⟨fun next isHead _ => ?_, inductionHypothesis⟩
      exact head_readFrom_of_endsText (endsText_readRawContent start name text) _ next isHead
  | case3 start => exact .singleton _
  | case4 start first rest read inductionHypothesis =>
      refine List.isChain_cons.2 ⟨fun next isHead isText => ?_, inductionHypothesis⟩
      obtain ⟨_, later, _, _, same⟩ := (readsAs start first rest).eq_readText isText
      have onward : read.1.construct.nextMode = .markup := by
        obtain ⟨content, isText⟩ := isText
        rw [isText]
        rfl
      rw [onward] at isHead
      have behind : read.2 = (splitBeforeMarkup later).2 := congrArg Prod.snd same
      exact head_readFrom_of_endsText (behind ▸ endsText_splitBeforeMarkup later) _ next isHead

/-! ## Places -/

/-- What a lexeme was read from, at its place. -/
inductive ReadFrom (lexeme : Lexeme) : List Char → List Char → Prop
  | markup {first : Char} {rest behind : List Char}
      (read : readMarkup lexeme.start first rest = (lexeme, behind)) :
      ReadFrom lexeme (first :: rest) behind
  | rawContent {text behind : List Char} (name : List Char)
      (read : readRawContent lexeme.start name text = (lexeme, behind)) :
      ReadFrom lexeme text behind
  | atEnd (isEnd : lexeme = atEnd lexeme.start) : ReadFrom lexeme [] []

theorem exists_place {mode : ReadingMode} {start : Nat} {text : List Char} {lexeme : Lexeme}
    (member : lexeme ∈ readFrom mode start text) :
    ∃ before rest behind, text = before ++ rest ∧ rest = lexeme.source ++ behind ∧
      lexeme.start = start + byteSize before ∧ lexeme.ReadFrom rest behind := by
  fun_induction readFrom mode start text with
  | case1 => contradiction
  | case2 start text name read inductionHypothesis =>
      have whole : read.1.source ++ read.2 = text := source_append_readRawContent start name text
      rcases List.mem_cons.1 member with rfl | later
      · exact ⟨[], text, read.2, rfl, whole.symm, rfl, .rawContent name rfl⟩
      · obtain ⟨before, rest, behind, shape, split, place, reads⟩ := inductionHypothesis later
        refine ⟨read.1.source ++ before, rest, behind, ?_, split, ?_, reads⟩
        · rw [List.append_assoc, ← shape, whole]
        · rw [place, stop, byteSize_append, Nat.add_assoc]
          rfl
  | case3 start =>
      obtain rfl := List.mem_singleton.1 member
      exact ⟨[], [], [], rfl, rfl, rfl, .atEnd rfl⟩
  | case4 start first rest read inductionHypothesis =>
      have whole : read.1.source ++ read.2 = first :: rest :=
        source_append_readMarkup start first rest
      have placed : read.1.start = start := start_readMarkup start first rest
      rcases List.mem_cons.1 member with rfl | later
      · refine ⟨[], first :: rest, read.2, rfl, whole.symm, placed, .markup ?_⟩
        rw [placed]
      · obtain ⟨before, others, behind, shape, split, place, reads⟩ := inductionHypothesis later
        refine ⟨read.1.source ++ before, others, behind, ?_, split, ?_, reads⟩
        · rw [List.append_assoc, ← shape, whole]
        · rw [place, stop, placed, byteSize_append, Nat.add_assoc]

/-! ## What is taken from a lexeme -/

/-- The names, attributes and contents that are taken from the source of a lexeme, each with the
byte position where it begins. -/
def slices (lexeme : Lexeme) : List (Nat × List Char) :=
  match lexeme.construct with
  | .startTag name attributes =>
      [(lexeme.start + 1, name), (lexeme.start + 1 + byteSize name, attributes)]
  | .emptyTag name attributes =>
      [(lexeme.start + 1, name), (lexeme.start + 1 + byteSize name, attributes)]
  | .endTag name => [(lexeme.start + 2, name)]
  | .text _ => [(lexeme.start, lexeme.source)]
  | .comment content => [(lexeme.start + 4, content)]
  | .declaration content => [(lexeme.start, content)]
  | .dropped => []
  | .endOfText => []

/-- The slice is a part of the source, at its place. -/
def Contains (lexeme : Lexeme) (slice : Nat × List Char) : Prop :=
  ∃ before after, lexeme.source = before ++ (slice.2 ++ after) ∧
    slice.1 = lexeme.start + byteSize before

variable {lexeme : Lexeme} {name attributes content after : List Char}

theorem contains_slices_of_dropped (construct : lexeme.construct = .dropped) :
    ∀ slice ∈ lexeme.slices, lexeme.Contains slice := by
  intro slice member
  rw [slices, construct] at member
  contradiction

theorem contains_slices_of_text (construct : lexeme.construct = .text content) :
    ∀ slice ∈ lexeme.slices, lexeme.Contains slice := by
  intro slice member
  rw [slices, construct] at member
  obtain rfl := List.mem_singleton.1 member
  exact ⟨[], [], (List.append_nil _).symm, rfl⟩

theorem contains_slices_of_comment (construct : lexeme.construct = .comment content)
    (source : lexeme.source = '<' :: '!' :: '-' :: '-' :: (content ++ after)) :
    ∀ slice ∈ lexeme.slices, lexeme.Contains slice := by
  intro slice member
  rw [slices, construct] at member
  obtain rfl := List.mem_singleton.1 member
  exact ⟨['<', '!', '-', '-'], after, source, rfl⟩

theorem contains_slices_of_declaration (construct : lexeme.construct = .declaration content)
    (source : lexeme.source = content) : ∀ slice ∈ lexeme.slices, lexeme.Contains slice := by
  intro slice member
  rw [slices, construct] at member
  obtain rfl := List.mem_singleton.1 member
  exact ⟨[], [], source.trans (List.append_nil _).symm, rfl⟩

theorem contains_slices_of_endTag (after : List Char) (construct : lexeme.construct = .endTag name)
    (source : lexeme.source = '<' :: '/' :: (name ++ after)) :
    ∀ slice ∈ lexeme.slices, lexeme.Contains slice := by
  intro slice member
  rw [slices, construct] at member
  obtain rfl := List.mem_singleton.1 member
  exact ⟨['<', '/'], after, source, rfl⟩

theorem contains_slices_of_startTag (after : List Char)
    (construct : lexeme.construct = .startTag name attributes ∨
      lexeme.construct = .emptyTag name attributes)
    (source : lexeme.source = '<' :: (name ++ (attributes ++ after))) :
    ∀ slice ∈ lexeme.slices, lexeme.Contains slice := by
  intro slice member
  have parts : slice ∈ [(lexeme.start + 1, name),
      (lexeme.start + 1 + byteSize name, attributes)] := by
    rw [slices] at member
    rcases construct with construct | construct <;> (rw [construct] at member; exact member)
  rw [List.mem_cons, List.mem_singleton] at parts
  rcases parts with rfl | rfl
  · exact ⟨['<'], attributes ++ after, source, rfl⟩
  · exact ⟨'<' :: name, after, source, by rw [byteSize_cons, ← Nat.add_assoc]; rfl⟩

/-- What is taken from a lexeme of markup is a part of its source. -/
theorem ReadsAs.contains_slices {start : Nat} {text : List Char} {read : Lexeme × List Char}
    (reads : ReadsAs start text read) : ∀ slice ∈ read.1.slices, read.1.Contains slice := by
  cases reads with
  | text plain => exact contains_slices_of_text rfl
  | comment text =>
      unfold readComment
      split
      · rename_i content after _
        exact contains_slices_of_comment rfl rfl
      · exact contains_slices_of_comment rfl (congrArg _ (List.append_nil _).symm)
  | declaration sign text =>
      unfold readDeclaration
      split
      · exact contains_slices_of_declaration rfl rfl
      · exact contains_slices_of_declaration rfl rfl
  | endTag text =>
      have named := append_splitName?_getD text
      unfold readEndTag
      simp only
      generalize (splitName? text).getD ([], text) = halves at named ⊢
      cases empty : halves.1.isEmpty with
      | true =>
          split
          · exact contains_slices_of_dropped rfl
          · exact contains_slices_of_dropped rfl
      | false =>
          split
          · rename_i skipped _ _
            exact contains_slices_of_endTag (skipped ++ ['>']) rfl
              (List.append_assoc _ _ _)
          · exact contains_slices_of_endTag halves.2 rfl (by rw [named]; rfl)
  | @startTag name text named =>
      unfold readStartTag
      split
      · rename_i attributes behind cut
        split
        · rename_i slash
          obtain ⟨written, rfl⟩ := List.getLast?_eq_some_iff.1 slash
          refine contains_slices_of_startTag ['/', '>'] (.inr rfl) ?_
          simp
        · exact contains_slices_of_startTag ['>'] (.inl rfl)
            (congrArg _ (List.append_assoc _ _ _))
      · exact contains_slices_of_dropped rfl

theorem contains_slices_readRawContent (start : Nat) (name text : List Char) :
    ∀ slice ∈ (readRawContent start name text).1.slices,
      (readRawContent start name text).1.Contains slice := by
  unfold readRawContent
  simp only
  split
  · exact contains_slices_of_dropped rfl
  · split
    · exact contains_slices_of_text rfl
    · exact contains_slices_of_text rfl

/-- What is taken from a lexeme stands in the text from one character to another, within the
lexeme. -/
theorem between?_of_mem_slices {mode : ReadingMode} {text : List Char}
    (member : lexeme ∈ readFrom mode 0 text) {slice : Nat × List Char}
    (taken : slice ∈ lexeme.slices) :
    lexeme.start ≤ slice.1 ∧ slice.1 + byteSize slice.2 ≤ lexeme.stop ∧
      between? slice.1 (slice.1 + byteSize slice.2) text = some slice.2 := by
  obtain ⟨front, rest, behind, whole, split, place, read⟩ := exists_place member
  have inside : lexeme.Contains slice := by
    cases read with
    | @markup first rest behind read =>
        have within := (readsAs lexeme.start first rest).contains_slices
        rw [read] at within
        exact within slice taken
    | rawContent name read =>
        have within := contains_slices_readRawContent lexeme.start name rest
        rw [read] at within
        exact within slice taken
    | atEnd isEnd =>
        rw [isEnd] at taken
        contradiction
  obtain ⟨before, after, source, position⟩ := inside
  have shape : text = (front ++ before) ++ (slice.2 ++ (after ++ behind)) := by
    rw [whole, split, source]
    simp only [List.append_assoc]
  have first : slice.1 = byteSize (front ++ before) := by
    rw [position, place, byteSize_append, Nat.zero_add]
  refine ⟨by omega, ?_, ?_⟩
  · rw [stop, source, byteSize_append, byteSize_append]
    omega
  · rw [first, shape]
    exact between?_append _ _ _

/-- A lexeme that stands for something has a source. -/
theorem source_ne_nil_of_standing {mode : ReadingMode} {start : Nat} {text : List Char}
    (member : lexeme ∈ readFrom mode start text) (standing : lexeme.construct ≠ .dropped)
    (unended : lexeme.construct ≠ .endOfText) : lexeme.source ≠ [] := by
  obtain ⟨_, rest, _, _, _, _, read⟩ := exists_place member
  cases read with
  | @markup first rest behind read =>
      have nonempty := source_readMarkup_ne_nil lexeme.start first rest
      rwa [read] at nonempty
  | rawContent name read =>
      have construct := construct_readRawContent lexeme.start name rest
      rw [read] at construct
      rw [construct] at standing
      exact fun nothing => standing (rawConstruct_eq_dropped_iff.2 nothing)
  | atEnd isEnd =>
      rw [isEnd] at unended
      exact absurd rfl unended

/-! ## What is dropped -/

theorem isNameStart_of_splitName?_eq_none {text : List Char} (nameless : splitName? text = none) :
    ∀ character ∈ text.head?, isNameStart character = false := by
  intro character isHead
  cases text with
  | nil => contradiction
  | cons first rest =>
      obtain rfl := Option.some.inj isHead
      rw [splitName?] at nameless
      split at nameless
      · contradiction
      · rename_i refused
        exact Bool.eq_false_iff.2 refused

/-- What is dropped of markup is an end tag without a name, or a start tag without an end. -/
theorem ReadsAs.skipped {front whole text : List Char} {start position : Nat}
    {read : Lexeme × List Char} (reads : ReadsAs start text read)
    (dropped : read.1.construct = .dropped) (shape : whole = front ++ text)
    (inside : byteSize front ≤ position ∧ position < byteSize front + byteSize read.1.source) :
    Skipped whole position := by
  cases reads with
  | text plain => contradiction
  | comment text =>
      unfold readComment at dropped
      split at dropped <;> contradiction
  | declaration sign text =>
      unfold readDeclaration at dropped
      split at dropped <;> contradiction
  | endTag text =>
      cases named : splitName? text with
      | some halves =>
          unfold readEndTag at dropped
          simp only [named, Option.getD_some, (isName_of_splitName? named).isEmpty,
            Bool.false_eq_true, ↓reduceIte] at dropped
          split at dropped <;> contradiction
      | none =>
          have nameless := isNameStart_of_splitName?_eq_none named
          unfold readEndTag at inside
          simp only [named, Option.getD_none] at inside
          split at inside
          · rename_i skipped after cut
            have again := append_of_splitTagEnd? cut
            obtain ⟨unquoted, first⟩ := leavesNoQuote_of_splitTagEndWithin? cut
            rw [← again] at nameless
            refine .namelessEndTag front skipped after ?_ nameless unquoted first inside
            rw [shape, ← again]
            rfl
          · rename_i uncut
            refine .unendedEndTag front text shape nameless
              (hasNoTagEnd_of_splitTagEndWithin? uncut) ?_
            rw [shape, byteSize_append]
            exact inside
  | @startTag name text named =>
      unfold readStartTag at dropped inside
      split at dropped
      · simp only at dropped
        split at dropped <;> contradiction
      · rename_i uncut
        rw [uncut] at inside
        refine .unendedStartTag front name text shape named
          (hasNoTagEnd_of_splitTagEndWithin? uncut) ?_
        rw [shape, byteSize_append]
        exact inside

theorem skipped_of_dropped {mode : ReadingMode} {text : List Char} {position : Nat}
    (member : lexeme ∈ readFrom mode 0 text) (dropped : lexeme.construct = .dropped)
    (inside : lexeme.start ≤ position ∧ position < lexeme.stop) : Skipped text position := by
  obtain ⟨front, rest, behind, shape, split, place, read⟩ := exists_place member
  rw [Nat.zero_add] at place
  rw [stop, place] at inside
  cases read with
  | @markup first rest behind read =>
      have reads := readsAs lexeme.start first rest
      rw [read] at reads
      exact reads.skipped dropped shape inside
  | rawContent name read =>
      have construct := construct_readRawContent lexeme.start name rest
      rw [read, dropped] at construct
      rw [rawConstruct_eq_dropped_iff.1 construct.symm, byteSize_nil] at inside
      omega
  | atEnd isEnd =>
      rw [isEnd] at dropped
      contradiction

end Lexeme

/-! ## One after the other -/

section InARow

variable {start position : Nat} {lexemes : List Lexeme}

theorem byteSize_pos {text : List Char} (filled : text ≠ []) : 0 < byteSize text := by
  cases text with
  | nil => contradiction
  | cons first rest => exact Nat.lt_of_lt_of_le first.utf8Size_pos (Nat.le_add_right _ _)

theorem InOrder.left_of_append {others : List Lexeme}
    (ordered : InOrder start (lexemes ++ others)) : InOrder start lexemes := by
  induction lexemes generalizing start with
  | nil => trivial
  | cons first rest inductionHypothesis =>
      obtain ⟨place, own, onward⟩ := ordered
      exact ⟨place, own, inductionHypothesis onward⟩

theorem InOrder.pairwise (ordered : InOrder start lexemes) :
    (∀ lexeme ∈ lexemes, start ≤ lexeme.start) ∧
      lexemes.Pairwise fun lexeme later => lexeme.stop ≤ later.start := by
  induction lexemes generalizing start with
  | nil => exact ⟨by simp, .nil⟩
  | cons first rest inductionHypothesis =>
      obtain ⟨rfl, _, onward⟩ := ordered
      obtain ⟨bounds, pairwise⟩ := inductionHypothesis onward
      refine ⟨List.forall_mem_cons.2 ⟨Nat.le_refl _, fun lexeme member => ?_⟩,
        List.pairwise_cons.2 ⟨bounds, pairwise⟩⟩
      exact Nat.le_trans first.start_le_stop (bounds lexeme member)

/-- Every position of a text lies in one of its lexemes. -/
theorem InOrder.exists_around (ordered : InOrder start lexemes) (reached : start ≤ position)
    (within : position < start + byteSize (lexemes.flatMap Lexeme.source)) :
    ∃ lexeme ∈ lexemes, lexeme.start ≤ position ∧ position < lexeme.stop := by
  induction lexemes generalizing start with
  | nil =>
      rw [List.flatMap_nil, byteSize_nil] at within
      omega
  | cons first rest inductionHypothesis =>
      obtain ⟨rfl, _, onward⟩ := ordered
      by_cases here : position < first.stop
      · exact ⟨first, List.mem_cons_self, reached, here⟩
      · rw [List.flatMap_cons, byteSize_append] at within
        have further : position < first.stop + byteSize (rest.flatMap Lexeme.source) := by
          rw [Lexeme.stop]
          omega
        obtain ⟨lexeme, member, inside⟩ := inductionHypothesis onward (by omega) further
        exact ⟨lexeme, List.mem_cons_of_mem _ member, inside⟩

/-- There are no more lexemes with a source than bytes. -/
theorem length_le_byteSize {stands : Lexeme → Bool}
    (filled : ∀ lexeme ∈ lexemes, stands lexeme = true → lexeme.source ≠ []) :
    (lexemes.filter stands).length ≤ byteSize (lexemes.flatMap Lexeme.source) := by
  induction lexemes with
  | nil => exact Nat.le_refl _
  | cons first rest inductionHypothesis =>
      rw [List.forall_mem_cons] at filled
      have onward := inductionHypothesis filled.2
      rw [List.filter_cons, List.flatMap_cons, byteSize_append]
      split
      · rename_i here
        have positive := byteSize_pos (filled.1 here)
        rw [List.length_cons]
        omega
      · omega

/-- No text begins where another one ends: what is read behind a text is none and not empty. -/
theorem InOrder.texts_apart (ordered : InOrder start lexemes)
    (chain : lexemes.IsChain fun lexeme next =>
      lexeme.IsText → ¬ next.IsText ∧ (next.construct = .endOfText ∨ next.source ≠ []))
    (unended : ∀ lexeme ∈ lexemes, lexeme.construct ≠ .endOfText) :
    lexemes.Pairwise fun lexeme later => lexeme.IsText → later.IsText →
      lexeme.stop < later.start := by
  induction lexemes generalizing start with
  | nil => exact .nil
  | cons first rest inductionHypothesis =>
      obtain ⟨rfl, _, onward⟩ := ordered
      rw [List.forall_mem_cons] at unended
      have others := inductionHypothesis onward (List.IsChain.tail chain) unended.2
      refine List.pairwise_cons.2 ⟨fun later member isText laterText => ?_, others⟩
      cases rest with
      | nil => contradiction
      | cons next rest =>
          obtain ⟨noText, ends⟩ := (List.isChain_cons_cons.1 chain).1 isText
          have filled := ends.resolve_left (unended.2 next List.mem_cons_self)
          obtain ⟨place, _, behind⟩ := onward
          have positive := byteSize_pos filled
          rcases List.mem_cons.1 member with rfl | beyond
          · exact absurd laterText noText
          · have reached := behind.pairwise.1 later beyond
            rw [Lexeme.stop] at reached
            omega

end InARow

end MarkupTemplate
