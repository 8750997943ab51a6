import MarkupTemplate.Proofs.Markup.ByteReading
import MarkupTemplate.Proofs.Markup.FirstFault

/-!
# Reading a text token by token

A reader gives out the lexemes that stand for something, one at each call, then the end of the
text, and then nothing any more.  The tokens account for the whole text: they stand one after the
other, each from one character to another, and what stands between them was dropped.  Strict and
forgiving readers differ in nothing but the fault that they report.  A cursor that moves over the
bytes of the text reads the same.
-/

namespace MarkupTemplate

open MarkupTemplate.Text

/-! ## Readers -/

/-- A reader at some place of a text: how it goes on, what remains, and what it found wrong. -/
structure LexemeReader where
  strict : Bool
  mode : ReadingMode := .markup
  position : Nat := 0
  remaining : List Char
  /-- Every fault up to the place, in the order in which they were found. -/
  detected : List Fault := []
  /-- The fault that is reported. -/
  fault? : Option Fault := none

namespace LexemeReader

/-- A reader at the beginning of a text. -/
def start (strict : Bool) (text : List Char) : LexemeReader :=
  { strict, remaining := text }

/-- The reader behind a lexeme.  A strict reader keeps the first fault that it finds. -/
def past (reader : LexemeReader) (lexeme : Lexeme) (remaining : List Char) : LexemeReader :=
  { strict := reader.strict
    mode := lexeme.construct.nextMode
    position := lexeme.stop
    remaining
    detected := reader.detected ++ lexeme.faults
    fault? := if reader.strict then reader.fault? <|> lexeme.faults.head? else none }

/-- Read one lexeme, unless the end of the text was read already. -/
def step? (reader : LexemeReader) : Option (Lexeme × LexemeReader) :=
  match reader.mode, reader.remaining with
  | .finished, _ => none
  | .rawContent name, text =>
      let read := Lexeme.readRawContent reader.position name text
      some (read.1, reader.past read.1 read.2)
  | .markup, [] =>
      let lexeme := Lexeme.atEnd reader.position
      some (lexeme, reader.past lexeme [])
  | .markup, first :: rest =>
      let read := Lexeme.readMarkup reader.position first rest
      some (read.1, reader.past read.1 read.2)

/-- A step leads behind the lexeme that was read. -/
theorem step?_cases {reader onward : LexemeReader} {lexeme : Lexeme}
    (read : reader.step? = some (lexeme, onward)) :
    ∃ remaining, onward = reader.past lexeme remaining := by
  unfold step? at read
  split at read
  · contradiction
  · obtain ⟨rfl, rfl⟩ := Prod.mk.inj (Option.some.inj read)
    exact ⟨_, rfl⟩
  · obtain ⟨rfl, rfl⟩ := Prod.mk.inj (Option.some.inj read)
    exact ⟨_, rfl⟩
  · obtain ⟨rfl, rfl⟩ := Prod.mk.inj (Option.some.inj read)
    exact ⟨_, rfl⟩

/-- The lexemes that the reader has before it. -/
def lexemes (reader : LexemeReader) : List Lexeme :=
  Lexeme.readFrom reader.mode reader.position reader.remaining

theorem lexemes_eq (reader : LexemeReader) :
    reader.lexemes =
      match reader.step? with
      | none => []
      | some (lexeme, onward) => lexeme :: onward.lexemes := by
  unfold lexemes step?
  cases reader.mode with
  | finished => rw [Lexeme.readFrom]
  | rawContent name =>
      have onward : (Lexeme.readRawContent reader.position name
          reader.remaining).1.construct.nextMode = .markup :=
        Lexeme.nextMode_rawConstruct name _
      rw [Lexeme.readFrom]
      simp only [past, onward]
  | markup =>
      cases reader.remaining with
      | nil =>
          rw [Lexeme.readFrom]
          simp only [past, Lexeme.atEnd, Construct.nextMode]
          rw [Lexeme.readFrom]
      | cons first rest =>
          rw [Lexeme.readFrom]
          rfl

/-- The next lexeme that stands for something, if there is one, and the reader behind it. -/
def next (reader : LexemeReader) : Option Lexeme × LexemeReader :=
  match _read : reader.step? with
  | none => (none, reader)
  | some (lexeme, onward) =>
      if lexeme.construct = .dropped then onward.next else (some lexeme, onward)
  termination_by reader.lexemes.length
  decreasing_by
    rw [reader.lexemes_eq, _read]
    exact Nat.lt_succ_self _

theorem next_of_end {reader : LexemeReader} (ended : reader.step? = none) :
    reader.next = (none, reader) := by
  rw [next]
  split
  · rfl
  · rename_i read
    rw [ended] at read
    contradiction

theorem next_of_step {reader onward : LexemeReader} {lexeme : Lexeme}
    (read : reader.step? = some (lexeme, onward)) :
    reader.next = if lexeme.construct = .dropped then onward.next else (some lexeme, onward) := by
  rw [next]
  split
  · rename_i ended
    rw [read] at ended
    contradiction
  · rename_i readToo
    rw [read, Option.some.injEq, Prod.mk.injEq] at readToo
    rw [readToo.1, readToo.2]

/-- The reader after a number of calls. -/
def after (reader : LexemeReader) : Nat → LexemeReader
  | 0 => reader
  | calls + 1 => (reader.after calls).next.2

/-- What the reader gives out when it is called after a number of calls. -/
def answer (reader : LexemeReader) (calls : Nat) : Option Lexeme :=
  (reader.after calls).next.1

/-! ## What a reader gives out -/

/-- The lexemes before the reader that stand for something. -/
def standing (reader : LexemeReader) : List Lexeme :=
  reader.lexemes.filter fun lexeme => lexeme.construct ≠ .dropped

theorem next_spec (reader : LexemeReader) :
    reader.next.1 = reader.standing.head? ∧ reader.next.2.standing = reader.standing.tail := by
  fun_induction next reader with
  | case1 reader read =>
      rw [standing, lexemes_eq, read]
      exact ⟨rfl, rfl⟩
  | case2 reader lexeme onward read dropped inductionHypothesis =>
      have same : reader.standing = onward.standing := by
        rw [standing, lexemes_eq, read]
        simp only
        rw [List.filter_cons_of_neg (by simpa using dropped), standing]
      rw [same]
      exact inductionHypothesis
  | case3 reader lexeme onward read stands =>
      have same : reader.standing = lexeme :: onward.standing := by
        rw [standing, lexemes_eq, read]
        simp only
        rw [List.filter_cons_of_pos (by simpa using stands), standing]
      rw [same]
      exact ⟨rfl, rfl⟩

theorem standing_after (reader : LexemeReader) (calls : Nat) :
    (reader.after calls).standing = reader.standing.drop calls := by
  induction calls with
  | zero => rfl
  | succ calls inductionHypothesis =>
      rw [after, (next_spec _).2, inductionHypothesis, List.tail_drop]

theorem answer_eq (reader : LexemeReader) (calls : Nat) :
    reader.answer calls = reader.standing[calls]? := by
  rw [answer, (next_spec _).1, standing_after, List.head?_drop]

/-- What reading on gives, with the faults that are reported. -/
def readings (reader : LexemeReader) : List LexemeReading :=
  readLexemesFrom reader.strict reader.fault? reader.lexemes

theorem readings_next (reader : LexemeReader) :
    reader.readings.head? = reader.next.1.map (fun lexeme => ⟨lexeme, reader.next.2.fault?⟩) ∧
      reader.next.2.readings = reader.readings.tail := by
  fun_induction next reader with
  | case1 reader ended =>
      rw [readings, lexemes_eq, ended]
      exact ⟨rfl, rfl⟩
  | case2 reader lexeme onward read dropped inductionHypothesis =>
      obtain ⟨remaining, shape⟩ := step?_cases read
      have same : reader.readings = onward.readings := by
        rw [readings, lexemes_eq, read]
        simp only [readLexemesFrom, dropped, ↓reduceIte]
        rw [readings, shape]
        rfl
      rw [same]
      exact inductionHypothesis
  | case3 reader lexeme onward read stands =>
      obtain ⟨remaining, shape⟩ := step?_cases read
      have same : reader.readings = ⟨lexeme, onward.fault?⟩ :: onward.readings := by
        rw [readings, lexemes_eq, read]
        simp only [readLexemesFrom, stands, ↓reduceIte]
        rw [readings, shape]
        rfl
      rw [same]
      exact ⟨rfl, rfl⟩

theorem readings_after (reader : LexemeReader) (calls : Nat) :
    (reader.after calls).readings = reader.readings.drop calls := by
  induction calls with
  | zero => rfl
  | succ calls inductionHypothesis =>
      rw [after, (readings_next _).2, inductionHypothesis, List.tail_drop]

/-- The calls give out the lexemes that reading the whole text gives, with the same faults. -/
theorem getElem?_readLexemes (strict : Bool) (text : List Char) (calls : Nat) :
    (readLexemes strict text)[calls]? = ((start strict text).answer calls).map fun lexeme =>
      ⟨lexeme, ((start strict text).after (calls + 1)).fault?⟩ := by
  have whole : readLexemes strict text = (start strict text).readings := rfl
  rw [whole, answer, after, ← (readings_next _).1, readings_after, List.head?_drop]

/-! ## Where a reader stands -/

theorem place_of_next {reader : LexemeReader} {lexeme : Lexeme}
    (given : reader.next.1 = some lexeme) :
    reader.next.2.position = lexeme.stop ∧ reader.next.2.mode = lexeme.construct.nextMode := by
  fun_induction next reader with
  | case1 reader ended => contradiction
  | case2 reader dropped onward read isDropped inductionHypothesis =>
      exact inductionHypothesis given
  | case3 reader other onward read stands =>
      obtain ⟨remaining, rfl⟩ := step?_cases read
      rw [← Option.some.inj given]
      exact ⟨rfl, rfl⟩

/-- Two readers stand at the same place and found the same faults. -/
structure Agree (left right : LexemeReader) : Prop where
  mode : left.mode = right.mode
  position : left.position = right.position
  remaining : left.remaining = right.remaining
  detected : left.detected = right.detected

namespace Agree

variable {left right : LexemeReader}

theorem past (agree : Agree left right) (lexeme : Lexeme) (remaining : List Char) :
    Agree (left.past lexeme remaining) (right.past lexeme remaining) :=
  ⟨rfl, rfl, rfl, congrArg (· ++ lexeme.faults) agree.detected⟩

theorem step? (agree : Agree left right) :
    (left.step? = none ∧ right.step? = none) ∨
      ∃ lexeme onward other, left.step? = some (lexeme, onward) ∧
        right.step? = some (lexeme, other) ∧ Agree onward other := by
  unfold LexemeReader.step?
  rw [agree.mode, agree.position, agree.remaining]
  split
  · exact .inl ⟨rfl, rfl⟩
  · exact .inr ⟨_, _, _, rfl, rfl, agree.past _ _⟩
  · exact .inr ⟨_, _, _, rfl, rfl, agree.past _ _⟩
  · exact .inr ⟨_, _, _, rfl, rfl, agree.past _ _⟩

/-- What a reader gives out does not depend on what it reports. -/
theorem next (agree : Agree left right) :
    left.next.1 = right.next.1 ∧ Agree left.next.2 right.next.2 := by
  fun_induction LexemeReader.next left generalizing right with
  | case1 left ended =>
      rcases agree.step? with ⟨_, endedToo⟩ | ⟨_, _, _, read, _⟩
      · rw [next_of_end endedToo]
        exact ⟨rfl, agree⟩
      · rw [ended] at read
        contradiction
  | case2 left lexeme onward read dropped inductionHypothesis =>
      rcases agree.step? with ⟨ended, _⟩ | ⟨_, _, other, readToo, otherRead, onwardAgree⟩
      · rw [read] at ended
        contradiction
      · rw [read, Option.some.injEq, Prod.mk.injEq] at readToo
        obtain ⟨rfl, rfl⟩ := readToo
        rw [next_of_step otherRead, if_pos dropped]
        exact inductionHypothesis onwardAgree
  | case3 left lexeme onward read stands =>
      rcases agree.step? with ⟨ended, _⟩ | ⟨_, _, other, readToo, otherRead, onwardAgree⟩
      · rw [read] at ended
        contradiction
      · rw [read, Option.some.injEq, Prod.mk.injEq] at readToo
        obtain ⟨rfl, rfl⟩ := readToo
        rw [next_of_step otherRead, if_neg stands]
        exact ⟨rfl, onwardAgree⟩

theorem after (agree : Agree left right) (calls : Nat) :
    Agree (left.after calls) (right.after calls) := by
  induction calls with
  | zero => exact agree
  | succ calls inductionHypothesis => exact inductionHypothesis.next.2

end Agree

/-! ## What a reader reports -/

/-- The reader reports a fault of the smallest position that was found, or none if there is none. -/
def ReportsFirst (reader : LexemeReader) : Prop :=
  match reader.fault? with
  | none => reader.detected = []
  | some first =>
      first ∈ reader.detected ∧ ∀ fault ∈ reader.detected, first.position ≤ fault.position

/-- The reader has the faults in the order of their positions, and reports the first. -/
structure Faithful (reader : LexemeReader) : Prop where
  reported : reader.fault? = if reader.strict then reader.detected.head? else none
  ordered : reader.detected.Pairwise fun first second => first.position ≤ second.position
  within : ∀ fault ∈ reader.detected, fault.position ≤ reader.position

namespace Faithful

variable {reader onward : LexemeReader} {lexeme : Lexeme}

theorem start (strict : Bool) (text : List Char) : Faithful (start strict text) :=
  ⟨by cases strict <;> rfl, .nil, fun _ member => absurd member List.not_mem_nil⟩

theorem step? (faithful : Faithful reader) (read : reader.step? = some (lexeme, onward)) :
    Faithful onward := by
  have ordered := inOrder_readFrom reader.mode reader.position reader.remaining
  rw [← lexemes, lexemes_eq, read] at ordered
  obtain ⟨place, own, _⟩ := ordered
  obtain ⟨remaining, rfl⟩ := step?_cases read
  have faults : lexeme.faults.Sublist lexeme.allFaults := List.sublist_append_left _ _
  have within : ∀ fault ∈ lexeme.faults,
      reader.position ≤ fault.position ∧ fault.position ≤ lexeme.stop := fun fault member =>
    place ▸ own.within fault (faults.subset member)
  refine ⟨?_, List.pairwise_append.2 ⟨faithful.ordered, own.pairwise.sublist faults, ?_⟩, ?_⟩
  · rw [past, faithful.reported]
    cases reader.strict with
    | false => rfl
    | true =>
        simp only [↓reduceIte, List.head?_append, Option.orElse_eq_orElse, Option.orElse_eq_or]
  · intro first earlier second later
    exact Nat.le_trans (faithful.within first earlier) (within second later).1
  · intro fault member
    rcases List.mem_append.1 member with before | here
    · exact Nat.le_trans (faithful.within fault before) (place ▸ lexeme.start_le_stop)
    · exact (within fault here).2

theorem next (faithful : Faithful reader) : Faithful reader.next.2 := by
  fun_induction LexemeReader.next reader with
  | case1 reader ended => exact faithful
  | case2 reader lexeme onward read dropped inductionHypothesis =>
      exact inductionHypothesis (faithful.step? read)
  | case3 reader lexeme onward read stands => exact faithful.step? read

theorem after (faithful : Faithful reader) (calls : Nat) : Faithful (reader.after calls) := by
  induction calls with
  | zero => exact faithful
  | succ calls inductionHypothesis => exact inductionHypothesis.next

/-- A strict reader reports one of the smallest position of all faults that were found. -/
theorem reportsFirst (faithful : Faithful reader) (strict : reader.strict = true) :
    reader.ReportsFirst := by
  obtain ⟨reported, ordered, _⟩ := faithful
  rw [strict, if_pos rfl] at reported
  rw [ReportsFirst, reported]
  cases detected : reader.detected with
  | nil => rfl
  | cons first others =>
      rw [detected] at ordered
      refine ⟨List.mem_cons_self, fun fault found => ?_⟩
      rcases List.mem_cons.1 found with rfl | later
      · exact Nat.le_refl _
      · exact List.rel_of_pairwise_cons ordered later

end Faithful

theorem strict_next (reader : LexemeReader) : reader.next.2.strict = reader.strict := by
  fun_induction next reader with
  | case1 reader ended => rfl
  | case2 reader lexeme onward read dropped inductionHypothesis =>
      obtain ⟨remaining, rfl⟩ := step?_cases read
      exact inductionHypothesis
  | case3 reader lexeme onward read stands =>
      obtain ⟨remaining, rfl⟩ := step?_cases read
      rfl

theorem strict_after (reader : LexemeReader) (calls : Nat) :
    (reader.after calls).strict = reader.strict := by
  induction calls with
  | zero => rfl
  | succ calls inductionHypothesis => exact (strict_next _).trans inductionHypothesis

end LexemeReader

/-! ## The tokens of a text -/

/-- The lexemes of a text that stand for something, without the end of the text. -/
def tokens (text : List Char) : List Lexeme :=
  (Lexeme.readAll text).filter fun lexeme =>
    lexeme.construct ≠ .dropped ∧ lexeme.construct ≠ .endOfText

/-- The tokens are those lexemes before the end that were not dropped. -/
theorem exists_lexemes (text : List Char) :
    ∃ lexemes, Lexeme.readAll text = lexemes ++ [Lexeme.atEnd (byteSize text)] ∧
      (∀ lexeme ∈ lexemes, lexeme.construct ≠ .endOfText) ∧
      tokens text = lexemes.filter (fun lexeme => lexeme.construct ≠ .dropped) ∧
      lexemes.flatMap Lexeme.source = text ∧ InOrder 0 lexemes := by
  have unfinished : ReadingMode.markup ≠ .finished := by simp
  obtain ⟨lexemes, whole, unended⟩ := exists_readFrom_eq unfinished 0 text
  have ordered := inOrder_readFrom .markup 0 text
  rw [Nat.zero_add, ← Lexeme.readAll] at whole
  rw [← Lexeme.readAll, whole] at ordered
  refine ⟨lexemes, whole, unended, ?_, ?_, ordered.left_of_append⟩
  · rw [tokens, whole, List.filter_append]
    have noEnd : [Lexeme.atEnd (byteSize text)].filter (fun lexeme =>
        lexeme.construct ≠ .dropped ∧ lexeme.construct ≠ .endOfText) = [] := by
      simp [Lexeme.atEnd]
    rw [noEnd, List.append_nil]
    refine List.filter_congr fun lexeme member => ?_
    simp [unended lexeme member]
  · have source := Lexeme.flatMap_source_readAll text
    rw [whole, List.flatMap_append] at source
    simpa [Lexeme.atEnd] using source

theorem mem_tokens {text : List Char} {lexeme : Lexeme} :
    lexeme ∈ tokens text ↔ lexeme ∈ Lexeme.readAll text ∧
      lexeme.construct ≠ .dropped ∧ lexeme.construct ≠ .endOfText := by
  rw [tokens, List.mem_filter, decide_eq_true_iff]

theorem source_ne_nil_of_mem_tokens {text : List Char} {token : Lexeme}
    (member : token ∈ tokens text) : token.source ≠ [] := by
  obtain ⟨read, standing, unended⟩ := mem_tokens.1 member
  exact Lexeme.source_ne_nil_of_standing read standing unended

/-- A token stands in the text from one character to a later one. -/
theorem span_of_mem_tokens {text : List Char} {token : Lexeme} (member : token ∈ tokens text) :
    token.start < token.stop ∧ token.stop ≤ byteSize text ∧
      between? token.start token.stop text = some token.source := by
  have positive := byteSize_pos (source_ne_nil_of_mem_tokens member)
  obtain ⟨before, rest, behind, whole, split, place, _⟩ :=
    Lexeme.exists_place (mem_tokens.1 member).1
  rw [Nat.zero_add] at place
  rw [split] at whole
  refine ⟨?_, ?_, ?_⟩
  · rw [Lexeme.stop]
    omega
  · rw [Lexeme.stop, place, whole, byteSize_append, byteSize_append]
    omega
  · rw [Lexeme.stop, place, whole]
    exact between?_append before token.source behind

theorem apart_tokens (text : List Char) :
    (tokens text).Pairwise fun token later => token.stop ≤ later.start := by
  obtain ⟨lexemes, _, _, same, _, ordered⟩ := exists_lexemes text
  rw [same]
  exact ordered.pairwise.2.sublist List.filter_sublist

theorem length_tokens_le (text : List Char) : (tokens text).length ≤ byteSize text := by
  obtain ⟨lexemes, _, _, same, sources, _⟩ := exists_lexemes text
  have filled : ∀ lexeme ∈ lexemes, decide (lexeme.construct ≠ .dropped) = true →
      lexeme.source ≠ [] := fun lexeme member standing =>
    source_ne_nil_of_mem_tokens (same ▸ List.mem_filter.2 ⟨member, standing⟩)
  have bound := length_le_byteSize filled
  rwa [sources, ← same] at bound

/-- A position that lies in no token lies in a lexeme that was dropped. -/
theorem skipped_of_outside {text : List Char} {position : Nat} (within : position < byteSize text)
    (outside : ∀ token ∈ tokens text, ¬ (token.start ≤ position ∧ position < token.stop)) :
    Skipped text position := by
  obtain ⟨lexemes, whole, _, same, sources, ordered⟩ := exists_lexemes text
  obtain ⟨lexeme, member, inside⟩ := ordered.exists_around (Nat.zero_le position) (by
    rwa [sources, Nat.zero_add])
  have read : lexeme ∈ Lexeme.readAll text := whole ▸ List.mem_append_left _ member
  by_cases dropped : lexeme.construct = .dropped
  · exact Lexeme.skipped_of_dropped read dropped inside
  · have token : lexeme ∈ tokens text :=
      same ▸ List.mem_filter.2 ⟨member, decide_eq_true dropped⟩
    exact absurd inside (outside lexeme token)

theorem texts_apart_tokens (text : List Char) :
    (tokens text).Pairwise fun token later => token.IsText → later.IsText →
      token.stop < later.start := by
  obtain ⟨lexemes, whole, unended, same, _, ordered⟩ := exists_lexemes text
  have chain := Lexeme.isChain_readFrom .markup 0 text
  rw [← Lexeme.readAll, whole] at chain
  rw [same]
  exact (ordered.texts_apart chain.left_of_append unended).sublist List.filter_sublist

/-- No text begins where another one ends. -/
theorem start_ne_stop_of_texts {text : List Char} {token later : Lexeme}
    (member : token ∈ tokens text) (laterMember : later ∈ tokens text) (isText : token.IsText)
    (laterText : later.IsText) : later.start ≠ token.stop := by
  intro meets
  obtain ⟨earlier, others, split⟩ := List.append_of_mem member
  have apart := texts_apart_tokens text
  have spans := apart_tokens text
  have filled := (span_of_mem_tokens member).1
  have laterFilled := (span_of_mem_tokens laterMember).1
  rw [split] at apart spans laterMember
  rw [List.pairwise_append, List.pairwise_cons] at apart spans
  rcases List.mem_append.1 laterMember with before | behind
  · have bound := spans.2.2 later before token List.mem_cons_self
    omega
  · rcases List.mem_cons.1 behind with rfl | beyond
    · omega
    · have bound := apart.2.1.1 later beyond isText laterText
      omega

namespace LexemeReader

/-- What a reader gives out, and what its tokens tell about the text. -/
structure AccountsFor (strict : Bool) (text : List Char) : Prop where
  /-- The tokens come one at each call, then the end of the text, and then nothing any more. -/
  answers : ∀ calls, (start strict text).answer calls =
    (tokens text ++ [Lexeme.atEnd (byteSize text)])[calls]?
  /-- These are the lexemes that reading the whole text gives, with the faults reported there. -/
  readings : ∀ calls, (readLexemes strict text)[calls]? =
    ((start strict text).answer calls).map fun lexeme =>
      ⟨lexeme, ((start strict text).after (calls + 1)).fault?⟩
  /-- Behind a token, the reader has come to its end, and goes on as the token says. -/
  places : ∀ calls lexeme, (start strict text).answer calls = some lexeme →
    ((start strict text).after (calls + 1)).position = lexeme.stop ∧
      ((start strict text).after (calls + 1)).mode = lexeme.construct.nextMode
  length_le : (tokens text).length ≤ byteSize text
  spans : ∀ token ∈ tokens text, token.start < token.stop ∧ token.stop ≤ byteSize text ∧
    between? token.start token.stop text = some token.source
  apart : (tokens text).Pairwise fun token later => token.stop ≤ later.start
  slices : ∀ token ∈ tokens text, ∀ slice ∈ token.slices,
    token.start ≤ slice.1 ∧ slice.1 + byteSize slice.2 ≤ token.stop ∧
      between? slice.1 (slice.1 + byteSize slice.2) text = some slice.2
  /-- A cursor over the bytes, which takes parts of the text only from one character to another,
  reads these lexemes too. -/
  bytes : ∀ count, ByteCursor.lexemes? text count .markup { bytes := encode text } =
    some ((Lexeme.readAll text).take count)
  /-- What lies in no token was dropped. -/
  skipped : ∀ position < byteSize text,
    (∀ token ∈ tokens text, ¬ (token.start ≤ position ∧ position < token.stop)) →
      Skipped text position
  texts : ∀ token ∈ tokens text, ∀ later ∈ tokens text, token.IsText → later.IsText →
    later.start ≠ token.stop
  /-- It makes no difference for this whether the reader is strict. -/
  agrees : ∀ other calls, (start strict text).answer calls = (start other text).answer calls ∧
    Agree ((start strict text).after calls) ((start other text).after calls)
  forgiving : strict = false → ∀ calls, ((start strict text).after calls).fault? = none
  reported : strict = true → ∀ calls, ((start strict text).after calls).ReportsFirst

theorem standing_start (strict : Bool) (text : List Char) :
    (start strict text).standing = tokens text ++ [Lexeme.atEnd (byteSize text)] := by
  obtain ⟨lexemes, whole, _, same, _⟩ := exists_lexemes text
  have all : (start strict text).lexemes = Lexeme.readAll text := rfl
  rw [standing, all, whole, List.filter_append, same]
  rfl

/-- The tokens of a text account for all of it. -/
theorem accounts_for (strict : Bool) (text : List Char) : AccountsFor strict text where
  answers calls := by rw [answer_eq, standing_start]
  readings := getElem?_readLexemes strict text
  places calls lexeme given := place_of_next given
  length_le := length_tokens_le text
  spans token := span_of_mem_tokens
  apart := apart_tokens text
  slices token member slice := Lexeme.between?_of_mem_slices (mem_tokens.1 member).1
  bytes := ByteCursor.lexemes?_encode text
  skipped position := skipped_of_outside
  texts token member later laterMember := start_ne_stop_of_texts member laterMember
  agrees other calls := by
    have agree : Agree (start strict text) (start other text) := ⟨rfl, rfl, rfl, rfl⟩
    exact ⟨(agree.after calls).next.1, agree.after calls⟩
  forgiving isForgiving calls := by
    have strictness : ((start strict text).after calls).strict = false :=
      (strict_after _ calls).trans isForgiving
    rw [((Faithful.start strict text).after calls).reported, strictness]
    rfl
  reported isStrict calls :=
    ((Faithful.start strict text).after calls).reportsFirst
      ((strict_after _ calls).trans isStrict)

/-- An end tag without a name lies between two texts, and so they are two tokens. -/
example : (tokens "a</ >b<i".toList).map (fun token => (token.start, token.stop)) =
    [(0, 1), (5, 6)] := by
  cbv

end LexemeReader

end MarkupTemplate
