import Mathlib.Order.Bounds.Defs
import MarkupTemplate.Proofs.Markup.Parsed
import MarkupTemplate.Proofs.Markup.Tokens

/-!
# Content that is not markup

Behind the start tag of an element whose content is not markup, everything up to the first closing
tag of the element is one text, whatever it looks like; without such a tag it goes on to the end of
everything.  The closing tag itself is markup again, and has the name that was looked for.
-/

namespace MarkupTemplate

open MarkupTemplate.Text

namespace Text

/-! ## Places in a text -/

/-- Of two cuts of a text, the one with fewer bytes before it comes first. -/
theorem exists_between_of_byteSize_le {before after lead rest : List Char}
    (same : before ++ after = lead ++ rest) (le : byteSize before ≤ byteSize lead) :
    ∃ middle, lead = before ++ middle ∧ after = middle ++ rest := by
  rcases List.append_eq_append_iff.1 same with found | ⟨middle, front, behind⟩
  · exact found
  · rw [front, byteSize_append] at le
    cases middle with
    | nil => exact ⟨[], by simpa using front.symm, by simpa using behind.symm⟩
    | cons first others =>
        have positive := byteSize_pos (List.cons_ne_nil first others)
        omega

/-- What remains of the text at the byte position has the property. -/
def HoldsAt (holds : List Char → Bool) (text : List Char) (position : Nat) : Prop :=
  ∃ before after, text = before ++ after ∧ byteSize before = position ∧ holds after = true

/-- A search finds the least position. -/
theorem isLeast_of_splitFirst? {holds : List Char → Bool} {text before after : List Char}
    (cut : splitFirst? holds text = some (before, after)) :
    IsLeast {position | HoldsAt holds text position} (byteSize before) := by
  obtain ⟨whole, found, earliest⟩ := splitFirst?_eq_some_iff.1 cut
  refine ⟨⟨before, after, whole, rfl, found⟩, ?_⟩
  rintro _ ⟨lead, rest, split, rfl, foundHere⟩
  by_contra less
  obtain ⟨middle, front, _⟩ := exists_between_of_byteSize_le (split.symm.trans whole) (by omega)
  have short : lead.length < before.length := by
    rw [front, List.length_append]
    have filled : middle ≠ [] := by
      rintro rfl
      rw [front, List.append_nil] at less
      exact less (Nat.le_refl _)
    have positive := List.length_pos_iff.2 filled
    omega
  have nowhere := earliest lead.length short
  rw [split, List.drop_left, foundHere] at nowhere
  contradiction

theorem not_holdsAt_of_splitFirst? {holds : List Char → Bool} {text : List Char}
    (uncut : splitFirst? holds text = none) (position : Nat) : ¬ HoldsAt holds text position := by
  rintro ⟨before, after, whole, rfl, found⟩
  have nowhere := splitFirst?_eq_none_iff.1 uncut before.length (by simp [whole])
  rw [whole, List.drop_left, found] at nowhere
  contradiction

theorem holdsAt_append_iff {holds : List Char → Bool} {lead text : List Char} {position : Nat} :
    HoldsAt holds (lead ++ text) (byteSize lead + position) ↔ HoldsAt holds text position := by
  constructor
  · rintro ⟨before, after, whole, size, found⟩
    obtain ⟨middle, rfl, rfl⟩ := exists_between_of_byteSize_le whole (by omega)
    rw [byteSize_append] at size
    exact ⟨middle, after, rfl, by omega, found⟩
  · rintro ⟨before, after, rfl, rfl, found⟩
    exact ⟨lead ++ before, after, by rw [List.append_assoc], byteSize_append lead before, found⟩

/-! ## Closing tags -/

/-- A closing tag of the name, in any ASCII case, begins at the byte position. -/
def ClosesAt (name text : List Char) (position : Nat) : Prop :=
  ∃ before spelled after, text = before ++ '<' :: '/' :: (spelled ++ after) ∧
    byteSize before = position ∧ agreeIgnoringCase name spelled = true ∧ ClosesName after

theorem closesAt_iff {name text : List Char} {position : Nat} :
    ClosesAt name text position ↔ HoldsAt (startsClosingTag name) text position := by
  constructor
  · rintro ⟨before, spelled, after, whole, size, agree, ends⟩
    exact ⟨before, _, whole, size, startsClosingTag_iff_exists.2 ⟨spelled, after, rfl, agree, ends⟩⟩
  · rintro ⟨before, rest, whole, size, starts⟩
    obtain ⟨spelled, after, rfl, agree, ends⟩ := startsClosingTag_iff_exists.1 starts
    exact ⟨before, spelled, after, whole, size, agree, ends⟩

/-- Raw content that begins at one byte position ends at another: there the first closing tag of
its element begins, or nothing is left and there is no such tag. -/
inductive EndsContent (name text : List Char) (start stop : Nat) : Prop
  | closed (least : IsLeast {position | start ≤ position ∧ ClosesAt name text position} stop)
  | unclosed (isEnd : stop = byteSize text)
      (none : ∀ position, start ≤ position → ¬ ClosesAt name text position)

section Ends

variable {name rest : List Char}

theorem endsContent_of_cut (before : List Char) {content closing : List Char}
    (cut : splitClosingTag? name rest = some (content, closing)) :
    EndsContent name (before ++ rest) (byteSize before) (byteSize before + byteSize content) ∧
      ClosesAt name (before ++ rest) (byteSize before + byteSize content) := by
  obtain ⟨found, least⟩ := isLeast_of_splitFirst? cut
  have closes : ClosesAt name (before ++ rest) (byteSize before + byteSize content) :=
    closesAt_iff.2 (holdsAt_append_iff.2 found)
  refine ⟨.closed ⟨⟨Nat.le_add_right _ _, closes⟩, ?_⟩, closes⟩
  rintro position ⟨reached, closesHere⟩
  obtain ⟨offset, rfl⟩ := Nat.exists_eq_add_of_le reached
  exact Nat.add_le_add_left (least (holdsAt_append_iff.1 (closesAt_iff.1 closesHere))) _

theorem endsContent_of_uncut (before : List Char)
    (uncut : splitClosingTag? name rest = none) :
    EndsContent name (before ++ rest) (byteSize before) (byteSize before + byteSize rest) ∧
      ¬ ClosesAt name (before ++ rest) (byteSize before + byteSize rest) := by
  have nowhere : ∀ position, byteSize before ≤ position →
      ¬ ClosesAt name (before ++ rest) position := by
    intro position reached closes
    obtain ⟨offset, rfl⟩ := Nat.exists_eq_add_of_le reached
    exact not_holdsAt_of_splitFirst? uncut offset (holdsAt_append_iff.1 (closesAt_iff.1 closes))
  exact ⟨.unclosed (byteSize_append before rest).symm nowhere,
    nowhere _ (Nat.le_add_right _ _)⟩

end Ends

end Text

/-- The name of a raw element can stand in a tag. -/
theorem isName_of_hasRawContent {name : List Char} (raw : hasRawContent name = true) :
    IsName name := by
  unfold hasRawContent isOneOfIgnoringCase at raw
  rw [List.any_eq_true] at raw
  obtain ⟨listed, member, agree⟩ := raw
  have table : ∀ listed ∈ rawContentElements,
      splitName? listed.toList = some (listed.toList, []) := by decide
  exact (isName_of_splitName? (table listed member)).of_agree agree

/-! ## Readers within a text -/

namespace LexemeReader

variable {reader onward : LexemeReader} {lexeme : Lexeme} {name text : List Char}

/-- The reader stands in the text: what remains of the text begins at its position. -/
def StandsIn (reader : LexemeReader) (text : List Char) : Prop :=
  ∃ before, text = before ++ reader.remaining ∧ byteSize before = reader.position

theorem step?_spec (read : reader.step? = some (lexeme, onward)) :
    reader.remaining = lexeme.source ++ onward.remaining ∧ lexeme.start = reader.position ∧
      onward.position = lexeme.stop := by
  unfold step? at read
  split at read
  · contradiction
  · obtain ⟨rfl, rfl⟩ := Prod.mk.inj (Option.some.inj read)
    exact ⟨(Lexeme.source_append_readRawContent _ _ _).symm, rfl, rfl⟩
  · rename_i empty
    obtain ⟨rfl, rfl⟩ := Prod.mk.inj (Option.some.inj read)
    exact ⟨empty, rfl, rfl⟩
  · rename_i first rest shape
    obtain ⟨rfl, rfl⟩ := Prod.mk.inj (Option.some.inj read)
    exact ⟨shape.trans (Lexeme.source_append_readMarkup _ _ _).symm, start_readMarkup _ _ _, rfl⟩

theorem StandsIn.step? (stands : reader.StandsIn text)
    (read : reader.step? = some (lexeme, onward)) : onward.StandsIn text := by
  obtain ⟨before, whole, size⟩ := stands
  obtain ⟨remaining, start, stop⟩ := step?_spec read
  refine ⟨before ++ lexeme.source, ?_, ?_⟩
  · rw [whole, remaining, List.append_assoc]
  · rw [byteSize_append, stop, Lexeme.stop, start, size]

theorem StandsIn.next (stands : reader.StandsIn text) : reader.next.2.StandsIn text := by
  fun_induction LexemeReader.next reader with
  | case1 reader ended => exact stands
  | case2 reader lexeme onward read dropped inductionHypothesis =>
      exact inductionHypothesis (stands.step? read)
  | case3 reader lexeme onward read standing => exact stands.step? read

theorem standsIn_after (strict : Bool) (text : List Char) (calls : Nat) :
    ((start strict text).after calls).StandsIn text := by
  induction calls with
  | zero => exact ⟨[], rfl, rfl⟩
  | succ calls inductionHypothesis => exact inductionHypothesis.next

/-- What is given out first stands first. -/
theorem stop_le_start_of_answers {strict : Bool} {earlier later : Nat} {token next : Lexeme}
    (before : earlier < later) (given : (start strict text).answer earlier = some token)
    (givenNext : (start strict text).answer later = some next) : token.stop ≤ next.start := by
  have ordered := (inOrder_readFrom .markup 0 text).pairwise.2
  have sublist : (start strict text).standing.Sublist (Lexeme.readFrom .markup 0 text) :=
    List.filter_sublist
  have pairwise := List.pairwise_iff_getElem.1 (ordered.sublist sublist)
  rw [answer_eq, List.getElem?_eq_some_iff] at given givenNext
  obtain ⟨within, rfl⟩ := given
  obtain ⟨withinNext, rfl⟩ := givenNext
  exact pairwise earlier later within withinNext before

/-! ## Readers at raw content -/

/-- Raw content is given out as one token, unless there is nothing. -/
theorem next_of_rawContent {rest : List Char} (mode : reader.mode = .rawContent name)
    (read : Lexeme.readRawContent reader.position name reader.remaining = (lexeme, rest)) :
    reader.next = if lexeme.source = [] then (reader.past lexeme rest).next
      else (some lexeme, reader.past lexeme rest) := by
  have step : reader.step? = some (lexeme, reader.past lexeme rest) := by
    rw [LexemeReader.step?, mode]
    simp only [read]
  have construct := Lexeme.construct_readRawContent reader.position name reader.remaining
  rw [read] at construct
  rw [next_of_step step, construct]
  simp only [Lexeme.rawConstruct_eq_dropped_iff]

theorem next_of_closingTag (mode : reader.mode = .markup) (isName : IsName name)
    (starts : startsClosingTag name reader.remaining = true) :
    ∃ token closing, reader.next.1 = some token ∧ token.start = reader.position ∧
      token.construct = .endTag closing ∧ agreeIgnoringCase name closing = true := by
  obtain ⟨spelled, after, shape, _⟩ := startsClosingTag_iff_exists.1 starts
  rw [shape] at starts
  obtain ⟨closing, agree, construct⟩ :=
    Lexeme.readMarkup_of_startsClosingTag isName starts reader.position
  let read := Lexeme.readMarkup reader.position '<' ('/' :: (spelled ++ after))
  have step : reader.step? = some (read.1, reader.past read.1 read.2) := by
    rw [LexemeReader.step?, mode, shape]
  rw [next_of_step step, construct, if_neg (by simp)]
  exact ⟨read.1, closing, rfl, start_readMarkup _ _ _, construct, agree⟩

theorem next_of_nothing (mode : reader.mode = .markup) (nothing : reader.remaining = []) :
    reader.next =
      (some (Lexeme.atEnd reader.position), reader.past (Lexeme.atEnd reader.position) []) := by
  have step : reader.step? = some (Lexeme.atEnd reader.position,
      reader.past (Lexeme.atEnd reader.position) []) := by
    rw [LexemeReader.step?, mode, nothing]
  rw [next_of_step step, Lexeme.atEnd, if_neg (by simp)]

/-- A strict reader reports a fault as soon as there is one. -/
theorem isSome_fault?_past (strict : reader.strict = true) (lexeme : Lexeme) (rest : List Char) :
    (reader.past lexeme rest).fault?.isSome =
      (reader.fault?.isSome || lexeme.faults.head?.isSome) := by
  rw [past, strict, if_pos rfl]
  cases reader.fault? <;> rfl

/-- The reader gives out the content between two byte positions as one token.  It is read as it
stands for some elements, and its references are decoded for the others. -/
def GivesContent (reader : LexemeReader) (name text : List Char) (start stop : Nat) : Prop :=
  ∃ token, reader.next.1 = some token ∧ token.start = start ∧ token.stop = stop ∧
    between? start stop text = some token.source ∧
    token.construct = .text
      (if hasVerbatimContent name then token.source else Reference.decode token.source)

/-- The reader gives out the closing tag at the byte position, or else the end of the text, and then
has a fault to report if it is strict. -/
structure LeavesContent (reader : LexemeReader) (strict : Bool) (name text : List Char)
    (stop : Nat) : Prop where
  closed : ClosesAt name text stop → ∃ token closing, reader.next.1 = some token ∧
    token.start = stop ∧ token.construct = .endTag closing ∧
    agreeIgnoringCase name closing = true
  unclosed : ¬ ClosesAt name text stop →
    reader.next.1 = some (Lexeme.atEnd (byteSize text)) ∧
      (strict = true → reader.next.2.fault?.isSome = true)

theorem leavesContent_of_end {strict : Bool} {stop : Nat} (mode : reader.mode = .markup)
    (nothing : reader.remaining = []) (isEnd : reader.position = byteSize text)
    (isOpen : ¬ ClosesAt name text stop) (isStrict : reader.strict = strict)
    (faulty : strict = true → reader.fault?.isSome = true) :
    reader.LeavesContent strict name text stop := by
  refine ⟨fun closes => absurd closes isOpen, fun _ => ?_⟩
  rw [next_of_nothing mode nothing, isEnd]
  refine ⟨rfl, fun strictly => ?_⟩
  rw [isSome_fault?_past (isStrict.trans strictly), faulty strictly, Bool.true_or]

/-- What a reader in front of raw content gives out, if it is known what follows the content. -/
theorem gives_of_readRawContent {strict : Bool} {rest : List Char} (stands : reader.StandsIn text)
    (mode : reader.mode = .rawContent name)
    (read : Lexeme.readRawContent reader.position name reader.remaining = (lexeme, rest))
    (leaves : (reader.past lexeme rest).LeavesContent strict name text lexeme.stop) :
    (reader.position < lexeme.stop → reader.GivesContent name text reader.position lexeme.stop) ∧
      LeavesContent (if reader.position < lexeme.stop then reader.next.2 else reader) strict name
        text lexeme.stop := by
  have next := next_of_rawContent mode read
  have whole := Lexeme.source_append_readRawContent reader.position name reader.remaining
  have construct := Lexeme.construct_readRawContent reader.position name reader.remaining
  have start : (Lexeme.readRawContent reader.position name reader.remaining).1.start =
      reader.position := rfl
  rw [read] at whole construct start
  by_cases empty : lexeme.source = []
  · have here : ¬ reader.position < lexeme.stop := by
      rw [Lexeme.stop, start, empty, byteSize_nil]
      omega
    rw [if_pos empty] at next
    rw [if_neg here]
    refine ⟨fun onward => absurd onward here, ?_⟩
    constructor
    · rw [next]
      exact leaves.closed
    · rw [next]
      exact leaves.unclosed
  · have positive := byteSize_pos empty
    have onward : reader.position < lexeme.stop := by
      rw [Lexeme.stop, start]
      omega
    rw [if_neg empty] at next
    rw [if_pos onward, next]
    refine ⟨fun _ => ⟨lexeme, by rw [next], start, rfl, ?_, ?_⟩, leaves⟩
    · obtain ⟨before, split, size⟩ := stands
      rw [split, ← whole, Lexeme.stop, start, ← size]
      exact between?_append before lexeme.source rest
    · rw [construct, Lexeme.rawConstruct_of_ne_nil empty]

/-- In front of raw content, a reader gives out the content up to its end, and then what ends it. -/
theorem gives_content (stands : reader.StandsIn text) (mode : reader.mode = .rawContent name)
    (raw : hasRawContent name = true) :
    ∃ stop, EndsContent name text reader.position stop ∧
      (reader.position < stop → reader.GivesContent name text reader.position stop) ∧
      LeavesContent (if reader.position < stop then reader.next.2 else reader) reader.strict name
        text stop := by
  obtain ⟨before, whole, size⟩ := stands
  cases cut : splitClosingTag? name reader.remaining with
  | some halves =>
      obtain ⟨content, closing⟩ := halves
      obtain ⟨ends, closes⟩ := endsContent_of_cut before cut
      rw [← whole, size] at ends closes
      refine ⟨_, ends, gives_of_readRawContent ⟨before, whole, size⟩ mode
        (Lexeme.readRawContent_of_cut cut reader.position) ?_⟩
      refine ⟨fun _ => ?_, fun isOpen => absurd closes isOpen⟩
      exact next_of_closingTag (Lexeme.nextMode_rawConstruct name content)
        (isName_of_hasRawContent raw) (holds_of_splitFirst? cut)
  | none =>
      obtain ⟨ends, isOpen⟩ := endsContent_of_uncut before cut
      rw [← whole, size] at ends isOpen
      refine ⟨_, ends, gives_of_readRawContent ⟨before, whole, size⟩ mode
        (Lexeme.readRawContent_of_uncut cut reader.position) ?_⟩
      have isEnd : reader.position + byteSize reader.remaining = byteSize text := by
        rw [whole, byteSize_append, size]
      refine leavesContent_of_end (Lexeme.nextMode_rawConstruct name reader.remaining) rfl isEnd
        isOpen rfl fun strictly => ?_
      rw [isSome_fault?_past strictly, List.head?_cons, Option.isSome_some, Bool.or_true]

/-- Behind a start tag that was given out after some calls, the content between two byte positions
hides all markup that stands in it. -/
structure HidesMarkup (strict : Bool) (text : List Char) (calls : Nat) (name : List Char)
    (tagStop stop : Nat) : Prop where
  ends : EndsContent name text tagStop stop
  content : tagStop < stop →
    ((start strict text).after (calls + 1)).GivesContent name text tagStop stop
  leaves : ((start strict text).after
    (if tagStop < stop then calls + 2 else calls + 1)).LeavesContent strict name text stop
  /-- Nothing but the content is given out for what stands before its end. -/
  only : ∀ later token, calls < later → (start strict text).answer later = some token →
    token.start < stop → tagStop < stop ∧ later = calls + 1

/-- Content that is not markup hides all markup up to the first closing tag of its element. -/
theorem hides_markup (strict : Bool) (text : List Char) (calls : Nat) {tag : Lexeme}
    {name attributes : List Char} (given : (start strict text).answer calls = some tag)
    (isTag : tag.construct = .startTag name attributes) (raw : hasRawContent name = true) :
    ∃ stop, HidesMarkup strict text calls name tag.stop stop := by
  have place := place_of_next given
  have mode : ((start strict text).after (calls + 1)).mode = .rawContent name := by
    rw [after, place.2, isTag, Construct.nextMode, if_pos raw]
  have position : ((start strict text).after (calls + 1)).position = tag.stop := place.1
  obtain ⟨stop, ends, content, leaves⟩ :=
    gives_content (standsIn_after strict text (calls + 1)) mode raw
  rw [position] at ends content leaves
  rw [strict_after, start] at leaves
  refine ⟨stop, ends, content, ?_, ?_⟩
  · by_cases onward : tag.stop < stop
    · rw [if_pos onward] at leaves ⊢
      exact leaves
    · rw [if_neg onward] at leaves ⊢
      exact leaves
  · intro later token behind answers inside
    have apart := stop_le_start_of_answers behind given answers
    have onward : tag.stop < stop := by omega
    obtain ⟨piece, answersToo, _, pieceStop, _⟩ := content onward
    refine ⟨onward, ?_⟩
    by_contra other
    have beyond : calls + 1 < later := by omega
    have pieceApart := stop_le_start_of_answers beyond answersToo answers
    omega

/-- A longer name and a slash behind a bracket do not close the element. -/
theorem hides_markup_almost_closing :
    ∃ tag, (start true "<p/><Title>1 &lt; 2</titles></</tITLE >".toList).answer 1 = some tag ∧
      tag.construct = .startTag "Title".toList [] ∧ hasRawContent "Title".toList = true ∧
      ∃ stop, HidesMarkup true "<p/><Title>1 &lt; 2</titles></</tITLE >".toList 1
        "Title".toList tag.stop stop := by
  have given : (start true "<p/><Title>1 &lt; 2</titles></</tITLE >".toList).answer 1 =
      some ⟨4, "<Title>".toList, .startTag "Title".toList [], []⟩ := by
    rw [answer_eq]
    decide +kernel
  have raw : hasRawContent "Title".toList = true := by decide
  exact ⟨_, given, rfl, raw, hides_markup true _ 1 given rfl raw⟩

end LexemeReader

end MarkupTemplate
