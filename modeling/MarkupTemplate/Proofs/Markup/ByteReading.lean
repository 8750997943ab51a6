import MarkupTemplate.Proofs.Markup.Spans
import MarkupTemplate.Proofs.Text.Encoding
import MarkupTemplate.Proofs.Text.Pieces

/-!
# Reading the bytes of a text

The lexemes of a text can be read with a cursor that knows nothing of characters: it moves from
byte to byte, looks for the signs of markup, and takes parts of the text between two positions.
A part can be taken only if both positions lie between characters.  This never fails, and the
lexemes are those of the text.
-/

namespace MarkupTemplate

open MarkupTemplate.Text

namespace ByteCursor

/-! ## Reading with a cursor -/

/-- The byte that stands a number of bytes ahead, as a character. -/
def sign? (cursor : ByteCursor) (ahead : Nat) : Option Char :=
  (cursor.peek? ahead).map characterOfByte

theorem findTagStart?_bounds {cursor : ByteCursor} {bracket : Nat}
    (found : cursor.findTagStart? = some bracket) :
    cursor.position ≤ bracket ∧ bracket < cursor.bytes.length := by
  obtain ⟨⟨before, after⟩, cut, rfl⟩ := Option.map_eq_some_iff.1 found
  have whole := congrArg List.length (append_of_splitFirst? cut)
  have leads := (List.isPrefixOf_iff_prefix.1 (holds_of_splitFirst? cut)).length_le
  rw [List.length_append, remaining, List.length_map, List.length_drop] at whole
  rw [List.length_singleton] at leads
  simp only
  omega

/-- Where a run of text ends, and the angle brackets up to there. -/
def textEnd (cursor : ByteCursor) : Nat × List Nat :=
  match _found : cursor.findTagStart? with
  | none => (cursor.bytes.length, [])
  | some bracket =>
      if cursor.opensMarkupAt bracket then
        (bracket, [])
      else
        Prod.map id (bracket :: ·) (cursor.moveTo (bracket + 1)).textEnd
  termination_by cursor.bytes.length - cursor.position
  decreasing_by
    have bounds := findTagStart?_bounds _found
    simp only [moveTo]
    omega

/-- Take what lies between the cursor and the end of a construct, and move there. -/
def finish? (cursor : ByteCursor) (text : List Char) (stop : Nat) (construct : Construct)
    (faults : List Fault) : Option (Lexeme × ByteCursor) := do
  let source ← between? cursor.position stop text
  some ({ start := cursor.position, source, construct, faults }, cursor.moveTo stop)

/-- A run of text.  The search for its end begins behind the first byte, which need not be the
whole first character. -/
def readText (cursor : ByteCursor) (text : List Char) (faults : List Fault) :
    Option (Lexeme × ByteCursor) := do
  let (stop, brackets) := (cursor.moveTo (cursor.position + 1)).textEnd
  let content ← between? cursor.position stop text
  cursor.finish? text stop (.text (Reference.decode content))
    (faults ++ brackets.map fun bracket => ⟨bracket, .invalidTagName⟩)

def readComment (cursor : ByteCursor) (text : List Char) : Option (Lexeme × ByteCursor) :=
  let opened := cursor.advance 4
  match opened.find? (encode ['-', '-', '>']) with
  | some closing => do
      let content ← between? opened.position closing text
      cursor.finish? text (closing + 3) (.comment content) []
  | none => do
      let content ← between? opened.position cursor.bytes.length text
      cursor.finish? text cursor.bytes.length (.comment content)
        [⟨cursor.position, .unterminatedComment⟩]

def readDeclaration (cursor : ByteCursor) (text : List Char) : Option (Lexeme × ByteCursor) :=
  match cursor.findTagEnd? with
  | some bracket => do
      let content ← between? cursor.position (bracket + 1) text
      cursor.finish? text (bracket + 1) (.declaration content) []
  | none => do
      let content ← between? cursor.position cursor.bytes.length text
      cursor.finish? text cursor.bytes.length (.declaration content)
        [⟨cursor.position, .unterminatedDeclaration⟩]

/-- An end tag, from behind its name on. -/
def closeEndTag (cursor : ByteCursor) (text : List Char) (named : ByteCursor)
    (construct : Construct) (faults : List Fault) : Option (Lexeme × ByteCursor) :=
  match named.findTagEnd? with
  | some bracket => cursor.finish? text (bracket + 1) construct faults
  | none =>
      cursor.finish? text cursor.bytes.length construct
        (⟨cursor.position, .unterminatedEndTag⟩ :: faults)

def readEndTag (cursor : ByteCursor) (text : List Char) : Option (Lexeme × ByteCursor) :=
  let opened := cursor.advance 2
  match opened.readName with
  | (none, named) =>
      cursor.closeEndTag text named .dropped [⟨cursor.position, .invalidEndTag⟩]
  | (some _, named) => do
      let name ← between? opened.position named.position text
      cursor.closeEndTag text named (.endTag name) []

/-- A start tag, whose closing bracket was found.  The byte before it tells whether the tag is
empty, unless it belongs to the name. -/
def closeStartTag (cursor : ByteCursor) (text name : List Char) (first bracket : Nat) :
    Option (Lexeme × ByteCursor) :=
  if first < bracket ∧ (cursor.bytes[bracket - 1]?).map characterOfByte = some '/' then do
    let attributes ← between? first (bracket - 1) text
    cursor.finish? text (bracket + 1) (.emptyTag name attributes) []
  else do
    let attributes ← between? first bracket text
    cursor.finish? text (bracket + 1) (.startTag name attributes) []

/-- A start tag, or a run of text if no name follows the bracket. -/
def readStartTag (cursor : ByteCursor) (text : List Char) : Option (Lexeme × ByteCursor) :=
  let opened := cursor.advance 1
  match opened.readName with
  | (none, _) => cursor.readText text [⟨cursor.position, .invalidTagName⟩]
  | (some _, named) => do
      let name ← between? opened.position named.position text
      match named.findTagEnd? with
      | some bracket => cursor.closeStartTag text name named.position bracket
      | none =>
          cursor.finish? text cursor.bytes.length .dropped
            [⟨cursor.position, .unterminatedStartTag⟩]

/-- What begins with an angle bracket. -/
def readMarkup (cursor : ByteCursor) (text : List Char) : Option (Lexeme × ByteCursor) :=
  if cursor.startsWith (encode ['<', '!', '-', '-']) then
    cursor.readComment text
  else
    match cursor.sign? 1 with
    | some '!' => cursor.readDeclaration text
    | some '?' => cursor.readDeclaration text
    | some '/' => cursor.readEndTag text
    | _ => cursor.readStartTag text

def readNext (cursor : ByteCursor) (text : List Char) : Option (Lexeme × ByteCursor) :=
  if cursor.sign? 0 = some '<' then cursor.readMarkup text else cursor.readText text []

/-- The content up to a position, unless it is empty. -/
def takeRawContent (cursor : ByteCursor) (text name : List Char) (stop : Nat)
    (faults : List Fault) : Option (Lexeme × ByteCursor) :=
  if stop = cursor.position then
    cursor.finish? text stop .dropped faults
  else do
    let content ← between? cursor.position stop text
    if hasVerbatimContent name then
      cursor.finish? text stop (.text content) faults
    else
      cursor.finish? text stop (.text (Reference.decode content)) faults

def readRawContent (cursor : ByteCursor) (text name : List Char) :
    Option (Lexeme × ByteCursor) :=
  match cursor.findClosingTag? (encode name) with
  | some closing => cursor.takeRawContent text name closing []
  | none =>
      cursor.takeRawContent text name cursor.bytes.length
        [⟨cursor.position, .unclosedRawElement (String.ofList name)⟩]

/-- The lexemes from the cursor on, up to a number of them. -/
def lexemes? (text : List Char) : Nat → ReadingMode → ByteCursor → Option (List Lexeme)
  | 0, _, _ => some []
  | _ + 1, .finished, _ => some []
  | count + 1, .rawContent name, cursor => do
      let (lexeme, onward) ← cursor.readRawContent text name
      let others ← lexemes? text count .markup onward
      some (lexeme :: others)
  | count + 1, .markup, cursor =>
      if cursor.isAtEnd then
        some [Lexeme.atEnd cursor.bytes.length]
      else do
        let (lexeme, onward) ← cursor.readNext text
        let others ← lexemes? text count lexeme.construct.nextMode onward
        some (lexeme :: others)

/-! ## Where a cursor stands -/

/-- The cursor is in the bytes of a text, and the rest of the text is ahead. -/
def StandsBefore (cursor : ByteCursor) (text rest : List Char) : Prop :=
  ∃ before, text = before ++ rest ∧ cursor = ⟨encode text, byteSize before⟩

namespace StandsBefore

variable {cursor : ByteCursor} {text passed rest : List Char}

theorem start (text : List Char) : StandsBefore ⟨encode text, 0⟩ text text :=
  ⟨[], rfl, rfl⟩

theorem length_bytes (stands : cursor.StandsBefore text rest) :
    cursor.bytes.length = cursor.position + byteSize rest := by
  obtain ⟨before, rfl, rfl⟩ := stands
  rw [length_encode, byteSize_append]

theorem position_add (stands : cursor.StandsBefore text rest) :
    cursor.position + byteSize rest = byteSize text := by
  obtain ⟨before, rfl, rfl⟩ := stands
  exact (byteSize_append before rest).symm

theorem drop_bytes (stands : cursor.StandsBefore text rest) :
    cursor.bytes.drop cursor.position = encode rest := by
  obtain ⟨before, rfl, rfl⟩ := stands
  simp only [encode_append]
  rw [← length_encode, List.drop_left]

theorem remaining (stands : cursor.StandsBefore text rest) :
    cursor.remaining = bytewise rest := by
  rw [ByteCursor.remaining, stands.drop_bytes, bytewise]

theorem position_moveTo (stands : cursor.StandsBefore text (passed ++ rest)) :
    (cursor.moveTo (cursor.position + byteSize passed)).position =
      cursor.position + byteSize passed := by
  have size := stands.length_bytes
  rw [byteSize_append] at size
  exact ByteCursor.position_moveTo cursor (by omega)

/-- Moving over a part of the text, the cursor stands before the rest. -/
theorem moveTo (stands : cursor.StandsBefore text (passed ++ rest)) :
    (cursor.moveTo (cursor.position + byteSize passed)).StandsBefore text rest := by
  have place := stands.position_moveTo
  obtain ⟨before, rfl, rfl⟩ := stands
  refine ⟨before ++ passed, (List.append_assoc _ _ _).symm, ?_⟩
  rw [ByteCursor.moveTo, ByteCursor.mk.injEq]
  exact ⟨rfl, place.trans (byteSize_append _ _).symm⟩

/-- What lies ahead can be taken. -/
theorem takes {last : Nat} (stands : cursor.StandsBefore text (passed ++ rest))
    (place : last = cursor.position + byteSize passed) :
    between? cursor.position last text = some passed := by
  obtain ⟨before, rfl, rfl⟩ := stands
  rw [place]
  exact between?_append before passed rest

/-- So can all that lies ahead. -/
theorem takesAll (stands : cursor.StandsBefore text rest) :
    between? cursor.position cursor.bytes.length text = some rest := by
  have whole : cursor.StandsBefore text (rest ++ []) := (List.append_nil rest).symm ▸ stands
  exact whole.takes stands.length_bytes

/-- The place behind what a scan of the bytes passed over. -/
theorem positionAfter (cursor : ByteCursor) (cut : Option (List Char × List Char)) :
    cursor.positionAfter (cut.map (Prod.map bytewise bytewise)) =
      cut.map fun halves => cursor.position + byteSize halves.1 := by
  cases cut with
  | none => rfl
  | some halves => exact congrArg (fun size => some (cursor.position + size)) (length_bytewise _)

theorem findTagEnd? (stands : cursor.StandsBefore text rest) :
    cursor.findTagEnd? =
      (splitTagEnd? rest).map fun halves => cursor.position + byteSize halves.1 := by
  rw [ByteCursor.findTagEnd?, stands.remaining, splitTagEnd?_bytewise, positionAfter]

theorem findClosingTag? (stands : cursor.StandsBefore text rest) (name : List Char) :
    cursor.findClosingTag? (encode name) =
      (splitClosingTag? name rest).map fun halves => cursor.position + byteSize halves.1 := by
  rw [ByteCursor.findClosingTag?, stands.remaining, ← bytewise, splitClosingTag?_bytewise,
    positionAfter]

theorem find? (stands : cursor.StandsBefore text rest) {first : Char} {others : List Char}
    (ascii : first.toNat < 0x80) :
    cursor.find? (encode (first :: others)) =
      (splitFirst? (first :: others).isPrefixOf rest).map fun halves =>
        cursor.position + byteSize halves.1 := by
  rw [ByteCursor.find?, stands.remaining, ← bytewise, ← positionAfter,
    splitFirst?_bytewise (isPrefixOf_bytewise (first :: others))]
  intro other foreign rest
  rw [bytewise_cons_of_ascii ascii, List.isPrefixOf, Bool.and_eq_false_iff]
  exact .inl (beq_false_of_ne (foreign.ne ascii).symm)

theorem slice? (stands : cursor.StandsBefore text (passed ++ rest)) :
    cursor.slice? cursor.position (cursor.position + byteSize passed) = some (encode passed) := by
  have size := stands.length_bytes
  rw [byteSize_append] at size
  rw [ByteCursor.slice?, if_pos ⟨Nat.le_add_right _ _, by omega⟩, List.drop_take,
    Nat.add_sub_cancel_left, stands.drop_bytes, encode_append, ← length_encode, List.take_left]

/-- A name is read whole, or the cursor stays. -/
theorem readName (stands : cursor.StandsBefore text rest) :
    cursor.readName = match splitName? rest with
      | some (name, _) =>
          (some (encode name), cursor.moveTo (cursor.position + byteSize name))
      | none => (none, cursor) := by
  rw [ByteCursor.readName, stands.remaining, splitName?_bytewise]
  cases named : splitName? rest with
  | none => rfl
  | some halves =>
      rw [← append_of_splitName? named] at stands
      simp only [Option.map_some, Prod.map, length_bytewise, stands.slice?]

end StandsBefore

/-! ## Where a run of text ends -/

section TextEnd

variable {cursor : ByteCursor} {lead rest before following : List Char}

theorem map_drop_bytes (cursor : ByteCursor) (count : Nat) :
    (cursor.bytes.drop (cursor.position + count)).map characterOfByte =
      cursor.remaining.drop count := by
  rw [remaining, ← List.map_drop, List.drop_drop]

/-- Bytes past ASCII that a character goes on with hide no angle bracket. -/
theorem findTagStart?_eq (ahead : cursor.remaining = lead ++ bytewise rest)
    (foreign : ∀ character ∈ lead, IsForeign character) :
    cursor.findTagStart? = (splitFirst? ['<'].isPrefixOf rest).map fun halves =>
      cursor.position + lead.length + byteSize halves.1 := by
  have passes : ∀ first, IsForeign first → ∀ others,
      ['<'].isPrefixOf (first :: others) = false := by
    intro first beyond others
    rw [List.isPrefixOf, Bool.and_eq_false_iff]
    exact .inl (beq_false_of_ne (beyond.ne (by decide)).symm)
  have bracket : bytewise ['<'] = ['<'] := by decide
  have same := isPrefixOf_bytewise ['<']
  rw [bracket] at same
  rw [findTagStart?, ahead,
    splitFirst?_append fun first member => passes first (foreign first member),
    splitFirst?_bytewise same passes]
  cases splitFirst? ['<'].isPrefixOf rest with
  | none => rfl
  | some halves =>
      simp only [Option.map_some, positionAfter, Prod.map, List.length_append, length_bytewise,
        Nat.add_assoc]

/-- A bracket that is found stands before the rest, and none before it. -/
theorem exists_of_splitFirst?_bracket {after : List Char}
    (cut : splitFirst? ['<'].isPrefixOf rest = some (before, after)) :
    ∃ following, rest = before ++ '<' :: following ∧ '<' ∉ before := by
  obtain ⟨following, leads⟩ := List.isPrefixOf_iff_prefix.1 (holds_of_splitFirst? cut)
  refine ⟨following, ?_, ?_⟩
  · rw [← append_of_splitFirst? cut, ← leads]
    rfl
  · rw [← List.singleton_infix_iff]
    exact not_infix_of_splitFirst? (List.cons_ne_nil _ _) cut

theorem bracketPositions_append (free : '<' ∉ before) (start : Nat) :
    Lexeme.bracketPositions start (before ++ '<' :: following) =
      (start + byteSize before) ::
        Lexeme.bracketPositions (start + byteSize before + 1) following := by
  induction before generalizing start with
  | nil => rfl
  | cons first others inductionHypothesis =>
      rw [List.mem_cons, not_or] at free
      rw [List.cons_append, Lexeme.bracketPositions, if_neg (Ne.symm free.1),
        inductionHypothesis free.2, byteSize_cons, Nat.add_assoc]

/-- The bytes behind a bracket are those of the text behind it. -/
theorem map_drop_bytes_behind (ahead : cursor.remaining = lead ++ bytewise rest)
    (shape : rest = before ++ '<' :: following) :
    (cursor.bytes.drop (cursor.position + lead.length + byteSize before + 1)).map
      characterOfByte = bytewise following := by
  have size : (lead ++ bytewise (before ++ ['<'])).length =
      lead.length + (byteSize before + 1) := by
    rw [List.length_append, length_bytewise, byteSize_append]
    rfl
  have whole : cursor.remaining = lead ++ bytewise (before ++ ['<']) ++ bytewise following := by
    rw [ahead, shape, List.append_assoc, ← bytewise_append, List.append_assoc]
    rfl
  rw [Nat.add_assoc, Nat.add_assoc, map_drop_bytes, whole, ← size, List.drop_left]

/-- The bytes of a text, behind the rest of a character, end where the text does, and the same
brackets are passed over. -/
theorem textEnd_eq (within : cursor.position ≤ cursor.bytes.length)
    (ahead : cursor.remaining = lead ++ bytewise rest)
    (foreign : ∀ character ∈ lead, IsForeign character) :
    cursor.textEnd =
      (cursor.position + lead.length + byteSize (splitBeforeMarkup rest).1,
        Lexeme.bracketPositions (cursor.position + lead.length) (splitBeforeMarkup rest).1) := by
  fun_induction textEnd cursor generalizing lead rest with
  | case1 cursor found =>
      rw [findTagStart?_eq ahead foreign, Option.map_eq_none_iff] at found
      have free : '<' ∉ rest := by
        rw [← List.singleton_infix_iff]
        exact not_infix_of_splitFirst?_eq_none found
      have size := congrArg List.length ahead
      rw [remaining, List.length_map, List.length_drop, List.length_append, length_bytewise]
        at size
      have uncut := Lexeme.splitBeforeMarkup_append free (.inl rfl)
      rw [List.append_nil] at uncut
      rw [uncut, Lexeme.bracketPositions_of_free free, Prod.mk.injEq]
      exact ⟨by simp only; omega, rfl⟩
  | case2 cursor bracket found opens =>
      rw [findTagStart?_eq ahead foreign] at found
      obtain ⟨halves, cut, rfl⟩ := Option.map_eq_some_iff.1 found
      obtain ⟨following, shape, free⟩ := exists_of_splitFirst?_bracket cut
      rw [opensMarkupAt, map_drop_bytes_behind ahead shape, opensMarkup_bytewise] at opens
      have ends : Lexeme.EndsText ('<' :: following) := .inr opens
      rw [shape, Lexeme.splitBeforeMarkup_append free ends, Lexeme.bracketPositions_of_free free]
  | case3 cursor bracket found lone inductionHypothesis =>
      -- Behind a bracket nothing is left of a character, so the lead is empty from there on.
      have bounds := findTagStart?_bounds found
      rw [findTagStart?_eq ahead foreign] at found
      obtain ⟨halves, cut, rfl⟩ := Option.map_eq_some_iff.1 found
      obtain ⟨following, shape, free⟩ := exists_of_splitFirst?_bracket cut
      have behind := map_drop_bytes_behind ahead shape
      rw [opensMarkupAt, behind, opensMarkup_bytewise] at lone
      have moved := cursor.position_moveTo (Nat.succ_le_of_lt bounds.2)
      have plain : startsMarkup ('<' :: following) = false := Bool.eq_false_iff.2 lone
      have onward := inductionHypothesis (position_moveTo_le _ _)
        (by rw [remaining, moved]; exact behind) (fun _ member => absurd member List.not_mem_nil)
      rw [onward, moved, shape, Lexeme.splitBeforeMarkup_append_of_free free,
        Lexeme.splitBeforeMarkup_cons plain, bracketPositions_append free, List.length_nil,
        Prod.map_apply, Prod.mk.injEq]
      refine ⟨?_, rfl⟩
      have one : '<'.utf8Size = 1 := rfl
      rw [byteSize_append, byteSize_cons, one, id_eq]
      omega

end TextEnd

/-! ## The bytes are read like the text -/

/-- Reading the bytes succeeds, with the lexeme and the rest that reading the text leads to. -/
def ReadsLike (text : List Char) (outcome : Option (Lexeme × ByteCursor))
    (read : Lexeme × List Char) : Prop :=
  ∃ onward, outcome = some (read.1, onward) ∧ onward.StandsBefore text read.2

namespace StandsBefore

variable {cursor : ByteCursor} {text source rest : List Char}

theorem finish? {stop : Nat} (stands : cursor.StandsBefore text (source ++ rest))
    (place : stop = cursor.position + byteSize source) (construct : Construct)
    (faults : List Fault) :
    ReadsLike text (cursor.finish? text stop construct faults)
      ({ start := cursor.position, source, construct, faults }, rest) := by
  refine ⟨cursor.moveTo stop, ?_, place ▸ stands.moveTo⟩
  rw [ByteCursor.finish?, stands.takes place]
  rfl

/-- A construct that the text ends in. -/
theorem finishAll? (stands : cursor.StandsBefore text source) (construct : Construct)
    (faults : List Fault) :
    ReadsLike text (cursor.finish? text cursor.bytes.length construct faults)
      ({ start := cursor.position, source, construct, faults }, []) := by
  have whole : cursor.StandsBefore text (source ++ []) := (List.append_nil source).symm ▸ stands
  exact whole.finish? stands.length_bytes construct faults

theorem readComment (stands : cursor.StandsBefore text ('<' :: '!' :: '-' :: '-' :: rest)) :
    ReadsLike text (cursor.readComment text) (Lexeme.readComment cursor.position rest) := by
  have opening : cursor.StandsBefore text (['<', '!', '-', '-'] ++ rest) := stands
  have opened : (cursor.advance 4).StandsBefore text rest := opening.moveTo
  have place : (cursor.advance 4).position = cursor.position + 4 := opening.position_moveTo
  rw [ByteCursor.readComment, Lexeme.readComment, opened.find? (by decide)]
  cases cut : splitFirst? ['-', '-', '>'].isPrefixOf rest with
  | none =>
      have taken : between? (cursor.advance 4).position cursor.bytes.length text = some rest :=
        opened.takesAll
      simp only [Option.map_none, taken, Option.bind_eq_bind, Option.bind_some]
      exact stands.finishAll? _ _
  | some halves =>
      obtain ⟨following, leads⟩ := List.isPrefixOf_iff_prefix.1 (holds_of_splitFirst? cut)
      have whole := append_of_splitFirst? cut
      rw [← whole] at opened opening
      simp only [Option.map_some, opened.takes rfl, Option.bind_eq_bind, Option.bind_some]
      rw [← leads, ← List.append_assoc, ← List.append_assoc] at opening
      rw [← leads]
      refine opening.finish? ?_ _ _
      have sizes : byteSize ['<', '!', '-', '-'] = 4 ∧ byteSize ['-', '-', '>'] = 3 := by decide
      rw [place, byteSize_append, byteSize_append, sizes.1, sizes.2]
      omega

theorem readDeclaration {sign : Char} (stands : cursor.StandsBefore text ('<' :: sign :: rest))
    (plain : isQuote sign = false) (unended : sign ≠ '>') :
    ReadsLike text (cursor.readDeclaration text)
      (Lexeme.readDeclaration cursor.position sign rest) := by
  rw [ByteCursor.readDeclaration, Lexeme.readDeclaration, stands.findTagEnd?,
    splitTagEnd?_cons (by decide) (by decide), splitTagEnd?_cons plain unended]
  cases cut : splitTagEnd? rest with
  | none =>
      simp only [Option.map_none, stands.takesAll, Option.bind_eq_bind, Option.bind_some]
      exact stands.finishAll? _ _
  | some halves =>
      have whole : '<' :: sign :: rest = ('<' :: sign :: halves.1 ++ ['>']) ++ halves.2 := by
        rw [← append_of_splitTagEnd? cut]
        simp
      rw [whole] at stands
      have place : cursor.position + byteSize ('<' :: sign :: halves.1) + 1 =
          cursor.position + byteSize ('<' :: sign :: halves.1 ++ ['>']) := by
        rw [byteSize_append]
        rfl
      simp only [Option.map_some, stands.takes place, Option.bind_eq_bind, Option.bind_some]
      exact stands.finish? place _ _

theorem closeEndTag {named : ByteCursor} (stands : cursor.StandsBefore text (source ++ rest))
    (behind : named.StandsBefore text rest)
    (place : named.position = cursor.position + byteSize source) (construct : Construct)
    (faults : List Fault) :
    ReadsLike text (cursor.closeEndTag text named construct faults)
      (match splitTagEnd? rest with
        | some (skipped, after) =>
            ( { start := cursor.position
                source := source ++ skipped ++ ['>']
                construct
                faults },
              after )
        | none =>
            ( { start := cursor.position
                source := source ++ rest
                construct
                faults := ⟨cursor.position, .unterminatedEndTag⟩ :: faults },
              [] )) := by
  rw [ByteCursor.closeEndTag, behind.findTagEnd?]
  cases cut : splitTagEnd? rest with
  | none => exact stands.finishAll? _ _
  | some halves =>
      have whole : source ++ rest = (source ++ halves.1 ++ ['>']) ++ halves.2 := by
        rw [← append_of_splitTagEnd? cut]
        simp
      rw [whole] at stands
      refine stands.finish? ?_ _ _
      rw [place, byteSize_append, byteSize_append, Nat.add_assoc, Nat.add_assoc, Nat.add_assoc]
      rfl

theorem readEndTag (stands : cursor.StandsBefore text ('<' :: '/' :: rest)) :
    ReadsLike text (cursor.readEndTag text) (Lexeme.readEndTag cursor.position rest) := by
  have opening : cursor.StandsBefore text (['<', '/'] ++ rest) := stands
  have opened : (cursor.advance 2).StandsBefore text rest := opening.moveTo
  have place : (cursor.advance 2).position = cursor.position + 2 := opening.position_moveTo
  rw [ByteCursor.readEndTag, Lexeme.readEndTag, opened.readName]
  cases named : splitName? rest with
  | none => exact opening.closeEndTag opened place _ _
  | some halves =>
      have whole := append_of_splitName? named
      rw [← whole] at opened
      rw [← whole, ← List.append_assoc] at opening
      have onward := opened.position_moveTo
      have signs : byteSize ['<', '/'] = 2 := by decide
      simp only [opened.takes onward, Option.bind_eq_bind, Option.bind_some, Option.getD_some,
        (isName_of_splitName? named).isEmpty, Bool.false_eq_true, ↓reduceIte]
      rw [← whole, ← List.append_assoc]
      refine opening.closeEndTag opened.moveTo ?_ _ _
      rw [onward, place, byteSize_append, signs, Nat.add_assoc]

theorem readText {first : Char} (stands : cursor.StandsBefore text (first :: rest)) :
    ReadsLike text
      (cursor.readText text
        (if first = '<' then [⟨cursor.position, .invalidTagName⟩] else []))
      (Lexeme.readText cursor.position first rest) := by
  -- The search begins behind one byte: `lead` is what it leaves of the first character.
  obtain ⟨lead, bytes, size, foreign⟩ := exists_tail_bytewise first rest
  have positive := first.utf8Size_pos
  have length := stands.length_bytes
  rw [byteSize_cons] at length
  have moved : (cursor.moveTo (cursor.position + 1)).position = cursor.position + 1 :=
    cursor.position_moveTo (by omega)
  have ahead : (cursor.moveTo (cursor.position + 1)).remaining = lead ++ bytewise rest := by
    rw [ByteCursor.remaining, moved, ← bytes, ← List.drop_one, ← stands.remaining]
    exact map_drop_bytes cursor 1
  have behind : cursor.position + 1 + lead.length = cursor.position + first.utf8Size := by omega
  have ends := textEnd_eq (position_moveTo_le _ _) ahead foreign
  rw [moved, behind] at ends
  have place : cursor.position + first.utf8Size + byteSize (splitBeforeMarkup rest).1 =
      cursor.position + byteSize (first :: (splitBeforeMarkup rest).1) := by
    rw [byteSize_cons, Nat.add_assoc]
  have whole : first :: rest =
      (first :: (splitBeforeMarkup rest).1) ++ (splitBeforeMarkup rest).2 := by
    rw [List.cons_append, append_splitBeforeMarkup]
  rw [whole] at stands
  rw [ByteCursor.readText, ends]
  simp only [stands.takes place, Option.bind_eq_bind, Option.bind_some]
  have found : (if first = '<' then [⟨cursor.position, .invalidTagName⟩] else []) ++
      (Lexeme.bracketPositions (cursor.position + first.utf8Size) (splitBeforeMarkup rest).1).map
        (fun bracket => ⟨bracket, .invalidTagName⟩) =
      (Lexeme.bracketPositions cursor.position (first :: (splitBeforeMarkup rest).1)).map
        (fun bracket => (⟨bracket, .invalidTagName⟩ : Fault)) := by
    rw [Lexeme.bracketPositions]
    split <;> rfl
  rw [found]
  exact stands.finish? place _ _

/-- The last sign of what lies ahead can be told from the byte before its end. -/
theorem lastSign_iff {passed : List Char} {sign : Char} (ascii : sign.toNat < 0x80)
    (stands : cursor.StandsBefore text (passed ++ rest)) :
    cursor.position < cursor.position + byteSize passed ∧
        (cursor.bytes[cursor.position + byteSize passed - 1]?).map characterOfByte = some sign ↔
      passed.getLast? = some sign := by
  rw [← getLast?_bytewise_iff ascii, List.getLast?_eq_getElem?, length_bytewise]
  rcases Nat.eq_zero_or_pos (byteSize passed) with nothing | positive
  · have empty : bytewise passed = [] := by
      rw [← List.length_eq_zero_iff, length_bytewise, nothing]
    rw [empty, nothing]
    simp
  · have last : (cursor.bytes[cursor.position + byteSize passed - 1]?).map characterOfByte =
        (bytewise passed)[byteSize passed - 1]? := by
      rw [Nat.add_sub_assoc positive, ← List.getElem?_drop, stands.drop_bytes,
        ← List.getElem?_map, ← bytewise, bytewise_append,
        List.getElem?_append_left (by rw [length_bytewise]; omega)]
    rw [last]
    exact and_iff_right (Nat.lt_add_of_pos_right positive)

theorem closeStartTag {named : ByteCursor} {name attributes after : List Char}
    (stands : cursor.StandsBefore text ('<' :: name ++ (attributes ++ '>' :: after)))
    (behind : named.StandsBefore text (attributes ++ '>' :: after))
    (place : named.position = cursor.position + byteSize ('<' :: name))
    (same : named.bytes = cursor.bytes) :
    ReadsLike text
      (cursor.closeStartTag text name named.position (named.position + byteSize attributes))
      ( { start := cursor.position
          source := '<' :: name ++ attributes ++ ['>']
          construct :=
            if attributes.getLast? = some '/' then
              .emptyTag name attributes.dropLast
            else
              .startTag name attributes
          faults := [] },
        after ) := by
  have whole : '<' :: name ++ (attributes ++ '>' :: after) =
      ('<' :: name ++ attributes ++ ['>']) ++ after := by
    simp
  have ends : named.position + byteSize attributes + 1 =
      cursor.position + byteSize ('<' :: name ++ attributes ++ ['>']) := by
    rw [place, byteSize_append, byteSize_append, Nat.add_assoc, Nat.add_assoc, Nat.add_assoc]
    rfl
  have slash := behind.lastSign_iff (by decide : '/'.toNat < 0x80)
  rw [same] at slash
  rw [whole] at stands
  simp only [ByteCursor.closeStartTag, slash]
  split
  · rename_i isSlash
    obtain ⟨written, rfl⟩ := List.getLast?_eq_some_iff.1 isSlash
    have last : named.position + byteSize (written ++ ['/']) - 1 =
        named.position + byteSize written := by
      rw [byteSize_append]
      rfl
    rw [List.append_assoc] at behind
    rw [behind.takes last, List.dropLast_concat]
    exact stands.finish? ends _ _
  · rw [behind.takes rfl]
    exact stands.finish? ends _ _

theorem readStartTag (stands : cursor.StandsBefore text ('<' :: rest)) :
    ReadsLike text (cursor.readStartTag text)
      (match splitName? rest with
        | some (name, after) => Lexeme.readStartTag cursor.position name after
        | none => Lexeme.readText cursor.position '<' rest) := by
  have opening : cursor.StandsBefore text (['<'] ++ rest) := stands
  have opened : (cursor.advance 1).StandsBefore text rest := opening.moveTo
  have place : (cursor.advance 1).position = cursor.position + 1 := opening.position_moveTo
  rw [ByteCursor.readStartTag, opened.readName]
  cases named : splitName? rest with
  | none => exact stands.readText
  | some halves =>
      have whole := append_of_splitName? named
      rw [← whole] at opened
      rw [← whole, ← List.append_assoc] at opening
      have onward := opened.position_moveTo
      have behind := opened.moveTo
      simp only [opened.takes onward, Option.bind_eq_bind, Option.bind_some,
        behind.findTagEnd?, Lexeme.readStartTag]
      cases cut : splitTagEnd? halves.2 with
      | none => exact opening.finishAll? _ _
      | some tag =>
          rw [← append_of_splitTagEnd? cut] at behind opening
          refine closeStartTag opening behind ?_ rfl
          rw [onward, place, byteSize_cons, Nat.add_assoc]
          rfl

theorem startsWith_iff (stands : cursor.StandsBefore text rest) {lead : List Char} :
    cursor.startsWith (encode lead) = true ↔ lead <+: rest := by
  rw [startsWith, stands.drop_bytes, List.isPrefixOf_iff_prefix, encode_prefix_iff]

/-- A sign is seen where it stands. -/
theorem sign?_iff {passed : List Char} (stands : cursor.StandsBefore text (passed ++ rest))
    {sign : Char} (ascii : sign.toNat < 0x80) :
    cursor.sign? (byteSize passed) = some sign ↔ rest.head? = some sign := by
  have seen : cursor.sign? (byteSize passed) = (bytewise rest).head? := by
    rw [sign?, peek?, ← List.getElem?_drop, stands.drop_bytes, ← List.getElem?_map, ← bytewise,
      bytewise_append, ← length_bytewise, List.getElem?_append_right (Nat.le_refl _),
      Nat.sub_self, List.head?_eq_getElem?]
  rw [seen, head?_bytewise_iff ascii]

theorem readMarkup (stands : cursor.StandsBefore text ('<' :: rest)) :
    ReadsLike text (cursor.readMarkup text) (Lexeme.readMarkup cursor.position '<' rest) := by
  have opening : cursor.StandsBefore text (['<'] ++ rest) := stands
  have sees : ∀ sign : Char, sign.toNat < 0x80 →
      (cursor.sign? 1 = some sign ↔ rest.head? = some sign) := fun _ => opening.sign?_iff
  rw [ByteCursor.readMarkup]
  split
  · rename_i opens
    obtain ⟨after, shape⟩ := stands.startsWith_iff.1 opens
    obtain rfl := (List.cons.inj shape).2
    exact stands.readComment
  · rename_i noComment
    rw [stands.startsWith_iff] at noComment
    split
    · rename_i seen
      obtain ⟨others, rfl⟩ := List.head?_eq_some_iff.1 ((sees '!' (by decide)).1 seen)
      rw [Lexeme.readMarkup_of_sign noComment]
      exact stands.readDeclaration (by decide) (by decide)
    · rename_i seen
      obtain ⟨others, rfl⟩ := List.head?_eq_some_iff.1 ((sees '?' (by decide)).1 seen)
      exact stands.readDeclaration (by decide) (by decide)
    · rename_i seen
      obtain ⟨others, rfl⟩ := List.head?_eq_some_iff.1 ((sees '/' (by decide)).1 seen)
      exact stands.readEndTag
    · rename_i noSign noQuestion noSlash
      have plain : ∀ sign ∈ ['!', '?', '/'], rest.head? ≠ some sign := by
        simp only [List.forall_mem_cons, List.not_mem_nil, false_implies, implies_true, and_true]
        exact ⟨fun head => noSign ((sees '!' (by decide)).2 head),
          fun head => noQuestion ((sees '?' (by decide)).2 head),
          fun head => noSlash ((sees '/' (by decide)).2 head)⟩
      rw [Lexeme.readMarkup_of_head plain]
      exact stands.readStartTag

theorem readNext {first : Char} (stands : cursor.StandsBefore text (first :: rest)) :
    ReadsLike text (cursor.readNext text) (Lexeme.readMarkup cursor.position first rest) := by
  have ahead : cursor.StandsBefore text ([] ++ first :: rest) := stands
  have seen := ahead.sign?_iff (by decide : '<'.toNat < 0x80)
  rw [byteSize_nil] at seen
  simp only [ByteCursor.readNext, seen, List.head?_cons, Option.some.injEq]
  split
  · rename_i bracket
    subst bracket
    exact stands.readMarkup
  · rename_i other
    have reads := stands.readText
    rw [if_neg other] at reads
    unfold Lexeme.readMarkup
    rwa [if_pos other]

theorem takeRawContent {content after : List Char} {stop : Nat}
    (stands : cursor.StandsBefore text (content ++ after))
    (place : stop = cursor.position + byteSize content) (name : List Char)
    (faults : List Fault) :
    ReadsLike text (cursor.takeRawContent text name stop faults)
      ( { start := cursor.position
          source := content
          construct :=
            if content.isEmpty then .dropped
            else if hasVerbatimContent name then .text content
            else .text (Reference.decode content)
          faults },
        after ) := by
  have stays : stop = cursor.position ↔ content.isEmpty = true := by
    rw [place, Nat.add_eq_left, List.isEmpty_iff]
    refine ⟨fun nothing => ?_, fun empty => congrArg byteSize empty⟩
    apply Decidable.byContradiction
    intro filled
    exact absurd nothing (Nat.ne_of_gt (byteSize_pos filled))
  simp only [ByteCursor.takeRawContent, stays]
  split
  · exact stands.finish? place _ _
  · rw [stands.takes place]
    simp only [Option.bind_eq_bind, Option.bind_some]
    split
    · exact stands.finish? place _ _
    · exact stands.finish? place _ _

theorem readRawContent (stands : cursor.StandsBefore text rest) (name : List Char) :
    ReadsLike text (cursor.readRawContent text name)
      (Lexeme.readRawContent cursor.position name rest) := by
  rw [ByteCursor.readRawContent, Lexeme.readRawContent, stands.findClosingTag?]
  cases cut : splitClosingTag? name rest with
  | none =>
      have whole : cursor.StandsBefore text (rest ++ []) := (List.append_nil rest).symm ▸ stands
      exact whole.takeRawContent stands.length_bytes name _
  | some halves =>
      have whole : halves.1 ++ halves.2 = rest := append_of_splitFirst? cut
      rw [← whole] at stands
      exact stands.takeRawContent rfl name _

end StandsBefore

/-- Behind a lexeme, the cursor has come to its end. -/
theorem StandsBefore.position_behind {text rest : List Char} {cursor onward : ByteCursor}
    {read : Lexeme × List Char} (stands : cursor.StandsBefore text rest)
    (behind : onward.StandsBefore text read.2) (whole : read.1.source ++ read.2 = rest)
    (place : read.1.start = cursor.position) : onward.position = read.1.stop := by
  have before := stands.position_add
  have after := behind.position_add
  rw [← whole, byteSize_append] at before
  rw [Lexeme.stop, place]
  omega

/-- The lexemes can be read from the bytes of the text: every part that is taken begins and ends
between characters. -/
theorem lexemes?_eq {text rest : List Char} {cursor : ByteCursor} (count : Nat)
    (mode : ReadingMode) (stands : cursor.StandsBefore text rest) :
    lexemes? text count mode cursor =
      some ((Lexeme.readFrom mode cursor.position rest).take count) := by
  induction count generalizing mode cursor rest with
  | zero => rw [lexemes?, List.take_zero]
  | succ count inductionHypothesis =>
      cases mode with
      | finished =>
          rw [lexemes?, Lexeme.readFrom]
          rfl
      | rawContent name =>
          obtain ⟨onward, read, behind⟩ := stands.readRawContent name
          have place := stands.position_behind behind
            (Lexeme.source_append_readRawContent cursor.position name rest) rfl
          rw [lexemes?, Lexeme.readFrom, read, List.take_succ_cons]
          simp only [Option.bind_eq_bind, Option.bind_some]
          rw [inductionHypothesis .markup behind, place, Option.bind_some]
      | markup =>
          have size := stands.length_bytes
          cases rest with
          | nil =>
              rw [byteSize_nil, Nat.add_zero] at size
              have ended : cursor.isAtEnd = true := decide_eq_true (Nat.le_of_eq size)
              rw [lexemes?, if_pos ended, Lexeme.readFrom, size, List.take_succ_cons,
                List.take_nil]
          | cons first rest =>
              have positive := first.utf8Size_pos
              rw [byteSize_cons] at size
              have unended : ¬ cursor.isAtEnd = true := by
                rw [isAtEnd, decide_eq_true_eq]
                omega
              obtain ⟨onward, read, behind⟩ := stands.readNext
              have place := stands.position_behind behind
                (Lexeme.source_append_readMarkup cursor.position first rest)
                (start_readMarkup cursor.position first rest)
              rw [lexemes?, if_neg unended, read, Lexeme.readFrom, List.take_succ_cons]
              simp only [Option.bind_eq_bind, Option.bind_some]
              rw [inductionHypothesis _ behind, place, Option.bind_some]

/-- The first lexemes of a text are read from its bytes. -/
theorem lexemes?_encode (text : List Char) (count : Nat) :
    lexemes? text count .markup { bytes := encode text } =
      some ((Lexeme.readAll text).take count) :=
  lexemes?_eq count .markup (.start text)

end ByteCursor

end MarkupTemplate
