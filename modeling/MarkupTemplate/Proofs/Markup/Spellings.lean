import Mathlib.Data.List.DropRight
import MarkupTemplate.Attribute.Source
import MarkupTemplate.Proofs.Markup.Scanning

/-!
# Spellings of attributes

An attribute may be spelled in several ways: its value stands between quotes, or without them, or
is missing, and blanks may stand around the equals sign.  Every spelling is passed over when the end
of its tag is looked for, and is read as one item with its name and its value.
-/

namespace MarkupTemplate

open MarkupTemplate.Text

/-! ## What may be spelled -/

/-- A text of blanks. -/
structure Blanks where
  text : List Char
  allBlank : ∀ character ∈ text, isBlank character = true

def Blanks.absent : Blanks :=
  ⟨[], List.forall_mem_nil _⟩

def Blanks.space : Blanks :=
  ⟨[' '], List.forall_mem_singleton.2 rfl⟩

@[simp]
theorem Blanks.text_absent : absent.text = [] :=
  rfl

@[simp]
theorem Blanks.text_space : space.text = [' '] :=
  rfl

/-- A value as it is spelled behind an equals sign. -/
inductive ValueSpelling where
  | quoted (quote : Char) (value : List Char) (isQuote : isQuote quote = true)
      (free : quote ∉ value)
  | unquoted (value : List Char) (nonempty : value ≠ [])
      (plain : ∀ character ∈ value,
        isBlank character = false ∧ Text.isQuote character = false ∧ character ≠ '>')
      (noSlash : value.getLast? ≠ some '/')

namespace ValueSpelling

def value : ValueSpelling → List Char
  | .quoted _ value _ _ => value
  | .unquoted value _ _ _ => value

def source : ValueSpelling → List Char
  | .quoted quote value _ _ => quote :: (value ++ [quote])
  | .unquoted value _ _ _ => value

end ValueSpelling

/-- An equals sign with blanks around it, and a value. -/
structure GivenValue where
  before : Blanks
  after : Blanks
  spelling : ValueSpelling

def GivenValue.source (given : GivenValue) : List Char :=
  given.before.text ++ '=' :: (given.after.text ++ given.spelling.source)

/-- An attribute as it is spelled in a tag, with the blanks before it. -/
structure SpelledAttribute where
  lead : Blanks
  leads : lead.text ≠ []
  name : List Char
  named : name ≠ []
  isName : ∀ character ∈ name, isAttributeNameCharacter character = true
  given? : Option GivenValue

namespace SpelledAttribute

/-- The value as it is written, which is empty if it is missing. -/
def value (spelled : SpelledAttribute) : List Char :=
  spelled.given?.elim [] fun given => given.spelling.value

def source (spelled : SpelledAttribute) : List Char :=
  spelled.lead.text ++ (spelled.name ++ spelled.given?.elim [] GivenValue.source)

/-- What the spelling is read as. -/
def item (spelled : SpelledAttribute) : AttributeItem :=
  .written spelled.name spelled.value true

end SpelledAttribute

/-! ## Characters -/

theorem of_isAttributeNameCharacter {character : Char}
    (continues : isAttributeNameCharacter character = true) :
    isBlank character = false ∧ isQuote character = false ∧ character ≠ '=' ∧
      character ≠ '/' ∧ character ≠ '>' ∧ character ≠ '<' := by
  simpa only [isAttributeNameCharacter, Bool.and_eq_true, Bool.not_eq_true', bne_iff_ne,
    and_assoc] using continues

theorem of_isBlank {character : Char} (blank : isBlank character = true) :
    isAttributeNameCharacter character = false ∧ isNameCharacter character = false ∧
      isQuote character = false ∧ character ≠ '=' ∧ character ≠ '/' ∧ character ≠ '>' := by
  unfold isAttributeNameCharacter isNameCharacter
  rw [blank]
  simp only [isBlank, Bool.or_eq_true, beq_iff_eq] at blank
  rcases blank with (((rfl | rfl) | rfl) | rfl) | rfl <;> decide

namespace Blanks

theorem dropWhile_append (blanks : Blanks) (rest : List Char) :
    (blanks.text ++ rest).dropWhile isBlank = rest.dropWhile isBlank :=
  List.dropWhile_append_of_pos blanks.allBlank

theorem dropWhile_append_cons (blanks : Blanks) {first : Char} (filled : isBlank first = false)
    (rest : List Char) : (blanks.text ++ first :: rest).dropWhile isBlank = first :: rest := by
  rw [dropWhile_append, List.dropWhile_cons_of_neg (by simp [filled])]

end Blanks

/-! ## Passing over spellings -/

/-- Where no quote is open, scanning passes over everything but quotes and the closing bracket. -/
theorem Text.passesTo_of_unquoted {text : List Char}
    (plain : ∀ character ∈ text, isQuote character = false ∧ character ≠ '>') :
    PassesTo none text none := by
  apply passesTo_of_all
  intro character member
  obtain ⟨noQuote, noEnd⟩ := plain character member
  simp [nextQuote, noQuote, noEnd]

theorem Blanks.passesTo (blanks : Blanks) : PassesTo none blanks.text none := by
  apply passesTo_of_unquoted
  intro character member
  obtain ⟨_, _, noQuote, _, _, noEnd⟩ := of_isBlank (blanks.allBlank character member)
  exact ⟨noQuote, noEnd⟩

theorem ValueSpelling.passesTo (spelling : ValueSpelling) : PassesTo none spelling.source none := by
  cases spelling with
  | quoted quote value isQuote free =>
      have opening : PassesTo none [quote] (some quote) := by
        have noEnd : quote ≠ '>' := by
          rintro rfl
          revert isQuote
          decide
        have open_ : nextQuote none quote = some quote := by simp [nextQuote, isQuote]
        rw [← open_]
        exact passesTo_singleton (by simp [noEnd])
      have inside : PassesTo (some quote) value (some quote) := by
        apply passesTo_of_all
        intro character member
        have different : character ≠ quote := by
          rintro rfl
          exact free member
        simp [nextQuote, different]
      have closing : PassesTo (some quote) [quote] none := by
        have closes : nextQuote (some quote) quote = none := by simp [nextQuote]
        rw [← closes]
        exact passesTo_singleton (by simp)
      have whole := (opening.append inside).append closing
      rwa [List.append_assoc] at whole
  | unquoted value nonempty plain noSlash =>
      exact passesTo_of_unquoted fun character member => (plain character member).2

theorem GivenValue.passesTo (given : GivenValue) : PassesTo none given.source none :=
  given.before.passesTo.append
    ((passesTo_singleton (by decide) : PassesTo none ['='] none).append
      (given.after.passesTo.append given.spelling.passesTo))

namespace SpelledAttribute

theorem passesTo (spelled : SpelledAttribute) : PassesTo none spelled.source none := by
  have name : PassesTo none spelled.name none := by
    apply passesTo_of_unquoted
    intro character member
    obtain ⟨_, noQuote, _, _, noEnd, _⟩ :=
      of_isAttributeNameCharacter (spelled.isName character member)
    exact ⟨noQuote, noEnd⟩
  have value : PassesTo none (spelled.given?.elim [] GivenValue.source) none := by
    cases spelled.given? with
    | none => exact passesTo_nil
    | some given => exact given.passesTo
  exact spelled.lead.passesTo.append (name.append value)

theorem passesTo_flatMap (items : List SpelledAttribute) :
    PassesTo none (items.flatMap source) none := by
  induction items with
  | nil => exact passesTo_nil
  | cons spelled rest inductionHypothesis =>
      rw [List.flatMap_cons]
      exact spelled.passesTo.append inductionHypothesis

end SpelledAttribute

/-! ## Reading spellings -/

namespace AttributeItem

theorem readAll_of_blanks {text : List Char} (ends : text.dropWhile isBlank = []) :
    readAll text = [] := by
  rw [readAll]
  split
  · rfl
  · rename_i shape
    rw [ends] at shape
    contradiction

theorem readAll_of_cons {text rest : List Char} {character : Char}
    (first : text.dropWhile isBlank = character :: rest) :
    readAll text =
      if character = '/' then readAll rest
      else if isAttributeNameCharacter character then
        .written (character :: rest.takeWhile isAttributeNameCharacter)
          (readAfterName (rest.dropWhile isAttributeNameCharacter)).1
          (readAfterName (rest.dropWhile isAttributeNameCharacter)).2.1 ::
        readAll (readAfterName (rest.dropWhile isAttributeNameCharacter)).2.2
      else .stray character :: readAll rest := by
  rw [readAll]
  split
  · rename_i ends
    rw [first] at ends
    contradiction
  · rename_i shape
    rw [first, List.cons.injEq] at shape
    obtain ⟨rfl, rfl⟩ := shape
    rfl

theorem readAll_of_name {text rest : List Char} {character : Char}
    (first : text.dropWhile isBlank = character :: rest)
    (continues : isAttributeNameCharacter character = true) :
    readAll text =
      .written (character :: rest.takeWhile isAttributeNameCharacter)
        (readAfterName (rest.dropWhile isAttributeNameCharacter)).1
        (readAfterName (rest.dropWhile isAttributeNameCharacter)).2.1 ::
      readAll (readAfterName (rest.dropWhile isAttributeNameCharacter)).2.2 := by
  have noSlash := (of_isAttributeNameCharacter continues).2.2.2.1
  rw [readAll_of_cons first, if_neg noSlash, if_pos continues]

/-- Only what stands behind the blanks at its start counts for the items of a text. -/
theorem readAll_congr {left right : List Char}
    (same : left.dropWhile isBlank = right.dropWhile isBlank) : readAll left = readAll right := by
  cases shape : right.dropWhile isBlank with
  | nil => rw [readAll_of_blanks (same.trans shape), readAll_of_blanks shape]
  | cons character rest => rw [readAll_of_cons (same.trans shape), readAll_of_cons shape]

/-- No value goes on with this text, and neither does a name without a value. -/
structure EndsItem (rest : List Char) : Prop where
  blank : ∀ character ∈ rest.head?, isBlank character = true
  unequal : ∀ character ∈ (rest.dropWhile isBlank).head?, character ≠ '='

theorem readValue_source (spelling : ValueSpelling) {rest : List Char} (ends : EndsItem rest) :
    readValue (spelling.source ++ rest) = (spelling.value, true, rest) := by
  cases spelling with
  | quoted quote value isQuote free =>
      have within : ∀ character ∈ value, (character != quote) = true := by
        intro character member
        rw [bne_iff_ne]
        rintro rfl
        exact free member
      obtain ⟨taken, left⟩ := takeWhile_append_of_all (quote :: rest) within (by simp)
      unfold readValue ValueSpelling.source
      simp only [List.cons_append, List.append_assoc, List.nil_append, isQuote, ↓reduceIte, left,
        taken]
      rfl
  | unquoted value nonempty plain noSlash =>
      obtain ⟨first, others, rfl⟩ := List.exists_cons_of_ne_nil nonempty
      have noQuote := (plain first List.mem_cons_self).2.1
      have within : ∀ character ∈ first :: others, (!isBlank character) = true := by
        intro character member
        rw [(plain character member).1]
        rfl
      obtain ⟨taken, left⟩ := takeWhile_append_of_all rest within (by simpa using ends.blank)
      unfold readValue ValueSpelling.source
      rw [List.cons_append] at taken left ⊢
      simp only [noQuote, Bool.false_eq_true, ↓reduceIte, left, taken]
      rfl

theorem exists_cons_source (spelling : ValueSpelling) :
    ∃ first others, spelling.source = first :: others ∧ isBlank first = false := by
  cases spelling with
  | quoted quote value isQuote free =>
      refine ⟨quote, value ++ [quote], rfl, ?_⟩
      rw [← Bool.not_eq_true]
      intro blank
      rw [(of_isBlank blank).2.2.1] at isQuote
      contradiction
  | unquoted value nonempty plain noSlash =>
      obtain ⟨first, others, rfl⟩ := List.exists_cons_of_ne_nil nonempty
      exact ⟨first, others, rfl, (plain first List.mem_cons_self).1⟩

theorem readAfterName_given (given : GivenValue) {rest : List Char} (ends : EndsItem rest) :
    readAfterName (given.source ++ rest) = (given.spelling.value, true, rest) := by
  obtain ⟨first, others, shape, filled⟩ := exists_cons_source given.spelling
  have sign : isBlank '=' = false := by decide
  have read := readValue_source given.spelling ends
  rw [shape, List.cons_append] at read
  unfold readAfterName GivenValue.source
  rw [List.append_assoc, List.cons_append, given.before.dropWhile_append_cons sign]
  simp only [shape, List.append_assoc, List.cons_append,
    given.after.dropWhile_append_cons filled, read]

theorem readAfterName_missing {rest : List Char} (ends : EndsItem rest) :
    readAfterName rest = ([], true, rest.dropWhile isBlank) := by
  unfold readAfterName
  split
  · rename_i shape
    exact absurd rfl (ends.unequal '=' (by rw [shape]; rfl))
  · rfl

end AttributeItem

namespace SpelledAttribute

open AttributeItem

/-- Behind its name, a spelling is read up to its end or to the blanks behind it. -/
theorem readAfterName_given? (spelled : SpelledAttribute) {rest : List Char}
    (ends : EndsItem rest) :
    ∃ remaining, readAfterName (spelled.given?.elim [] GivenValue.source ++ rest) =
        (spelled.value, true, remaining) ∧
      remaining.dropWhile isBlank = rest.dropWhile isBlank := by
  unfold value
  cases spelled.given? with
  | none => exact ⟨_, readAfterName_missing ends, List.dropWhile_idempotent isBlank rest⟩
  | some given => exact ⟨rest, readAfterName_given given ends, rfl⟩

/-- No name goes on with a spelled value, or with what may follow an item. -/
theorem isAttributeNameCharacter_head? (spelled : SpelledAttribute) {rest : List Char}
    (ends : EndsItem rest) :
    ∀ character ∈ (spelled.given?.elim [] GivenValue.source ++ rest).head?,
      isAttributeNameCharacter character = false := by
  intro character isFirst
  cases value : spelled.given? with
  | none =>
      rw [value] at isFirst
      exact (of_isBlank (ends.blank character isFirst)).1
  | some given =>
      rw [value] at isFirst
      simp only [Option.elim_some, GivenValue.source] at isFirst
      cases blanks : given.before.text with
      | nil =>
          rw [blanks] at isFirst
          rw [← Option.some.inj isFirst]
          decide
      | cons first others =>
          rw [blanks] at isFirst
          rw [← Option.some.inj isFirst]
          exact (of_isBlank (given.before.allBlank first (by simp [blanks]))).1

theorem readAll_source_append (spelled : SpelledAttribute) {rest : List Char}
    (ends : EndsItem rest) :
    readAll (spelled.source ++ rest) = spelled.item :: readAll rest := by
  obtain ⟨first, others, shape⟩ := List.exists_cons_of_ne_nil spelled.named
  have characters := spelled.isName
  rw [shape, List.forall_mem_cons] at characters
  have filled := (of_isAttributeNameCharacter characters.1).1
  obtain ⟨remaining, read, same⟩ := spelled.readAfterName_given? ends
  obtain ⟨taken, left⟩ := takeWhile_append_of_all _ characters.2
    (spelled.isAttributeNameCharacter_head? ends)
  have start : (spelled.source ++ rest).dropWhile isBlank =
      first :: (others ++ (spelled.given?.elim [] GivenValue.source ++ rest)) := by
    unfold source
    rw [List.append_assoc, List.append_assoc, shape, List.cons_append,
      spelled.lead.dropWhile_append_cons filled]
  rw [readAll_of_name start characters.1, taken, left, read, item, shape, readAll_congr same]

/-- Blanks and further items end an item. -/
theorem endsItem_flatMap (items : List SpelledAttribute) (trailing : Blanks) :
    EndsItem (items.flatMap source ++ trailing.text) := by
  cases items with
  | nil =>
      constructor
      · intro character isFirst
        exact trailing.allBlank character (List.mem_of_mem_head? isFirst)
      · have none : ([] ++ trailing.text).dropWhile isBlank = [] :=
          List.dropWhile_eq_nil_iff.2 trailing.allBlank
        intro character isFirst
        rw [List.flatMap_nil, none] at isFirst
        contradiction
  | cons spelled others =>
      obtain ⟨blank, blanks, lead⟩ := List.exists_cons_of_ne_nil spelled.leads
      obtain ⟨first, rest, shape⟩ := List.exists_cons_of_ne_nil spelled.named
      have isName := of_isAttributeNameCharacter
        (spelled.isName first (shape ▸ List.mem_cons_self))
      constructor
      · intro character isFirst
        refine spelled.lead.allBlank character ?_
        rw [List.flatMap_cons, source, lead] at isFirst
        rw [← Option.some.inj isFirst, lead]
        exact List.mem_cons_self
      · intro character isFirst
        rw [List.flatMap_cons, source, shape, List.append_assoc, List.append_assoc,
          List.append_assoc, List.cons_append, spelled.lead.dropWhile_append_cons isName.1]
          at isFirst
        rw [← Option.some.inj isFirst]
        exact isName.2.2.1

/-- The items of a tag are read as they are spelled. -/
theorem readAll_flatMap_source (items : List SpelledAttribute) (trailing : Blanks) :
    readAll (items.flatMap source ++ trailing.text) = items.map item := by
  induction items with
  | nil => exact readAll_of_blanks (List.dropWhile_eq_nil_iff.2 trailing.allBlank)
  | cons spelled rest inductionHypothesis =>
      rw [List.flatMap_cons, List.append_assoc,
        spelled.readAll_source_append (endsItem_flatMap rest trailing), inductionHypothesis,
        List.map_cons]

end SpelledAttribute

/-- Spelled items are faulty only if a name comes twice, or was there before. -/
theorem AttributeItem.faultAfter?_map_item (items : List SpelledAttribute)
    (seen : List (List Char)) :
    faultAfter? seen (items.map SpelledAttribute.item) =
      if (items.map SpelledAttribute.name).Nodup ∧
          ∀ name ∈ items.map SpelledAttribute.name, name ∉ seen then none
      else some .duplicate := by
  induction items generalizing seen with
  | nil => simp [faultAfter?]
  | cons spelled rest inductionHypothesis =>
      simp only [List.map_cons, SpelledAttribute.item, faultAfter?, Bool.not_true,
        Bool.false_eq_true, ↓reduceIte, List.contains_iff_mem, List.nodup_cons,
        List.forall_mem_cons]
      by_cases again : spelled.name ∈ seen
      · rw [if_pos again, if_neg fun distinct => distinct.2.1 again]
      · have onward := inductionHypothesis (spelled.name :: seen)
        rw [if_neg again]
        refine onward.trans (if_congr ?_ rfl rfl)
        constructor
        · rintro ⟨distinct, fresh⟩
          simp only [List.mem_cons, not_or] at fresh
          exact ⟨⟨fun member => (fresh _ member).1 rfl, distinct⟩, again,
            fun name member => (fresh name member).2⟩
        · rintro ⟨⟨unnamed, distinct⟩, _, fresh⟩
          simp only [List.mem_cons, not_or]
          refine ⟨distinct, fun name member => ⟨?_, fresh name member⟩⟩
          rintro rfl
          exact unnamed member

/-! ## Spellings do not end with a slash -/

section Slashes

variable {text more : List Char}

theorem getLast?_ne_of_not_mem {sign : Char} (free : sign ∉ text) : text.getLast? ≠ some sign :=
  fun isLast => free (List.mem_of_getLast? isLast)

theorem getLast?_append_ne {sign : Char} (first : text.getLast? ≠ some sign)
    (second : more.getLast? ≠ some sign) : (text ++ more).getLast? ≠ some sign := by
  rw [List.getLast?_append]
  cases isLast : more.getLast? with
  | none => exact first
  | some last =>
      rw [isLast] at second
      exact second

theorem Blanks.getLast?_ne (blanks : Blanks) : blanks.text.getLast? ≠ some '/' := by
  apply getLast?_ne_of_not_mem
  intro member
  exact (of_isBlank (blanks.allBlank _ member)).2.2.2.2.1 rfl

theorem ValueSpelling.getLast?_ne (spelling : ValueSpelling) :
    spelling.source.getLast? ≠ some '/' := by
  cases spelling with
  | quoted quote value isQuote free =>
      rw [source, ← List.cons_append, List.getLast?_concat]
      rintro same
      rw [Option.some.inj same] at isQuote
      revert isQuote
      decide
  | unquoted value nonempty plain noSlash => exact noSlash

theorem GivenValue.getLast?_ne (given : GivenValue) : given.source.getLast? ≠ some '/' := by
  have sign : ['='].getLast? ≠ some '/' := by decide
  have value : (given.after.text ++ given.spelling.source).getLast? ≠ some '/' :=
    getLast?_append_ne given.after.getLast?_ne given.spelling.getLast?_ne
  exact getLast?_append_ne given.before.getLast?_ne (getLast?_append_ne sign value)

theorem SpelledAttribute.getLast?_ne (spelled : SpelledAttribute) :
    spelled.source.getLast? ≠ some '/' := by
  have name : spelled.name.getLast? ≠ some '/' := by
    apply getLast?_ne_of_not_mem
    intro member
    exact (of_isAttributeNameCharacter (spelled.isName _ member)).2.2.2.1 rfl
  have value : (spelled.given?.elim [] GivenValue.source).getLast? ≠ some '/' := by
    cases spelled.given? with
    | none => exact getLast?_ne_of_not_mem List.not_mem_nil
    | some given => exact given.getLast?_ne
  exact getLast?_append_ne spelled.lead.getLast?_ne (getLast?_append_ne name value)

theorem SpelledAttribute.getLast?_flatMap_ne (items : List SpelledAttribute) :
    (items.flatMap source).getLast? ≠ some '/' := by
  induction items with
  | nil => exact getLast?_ne_of_not_mem List.not_mem_nil
  | cons spelled rest inductionHypothesis =>
      rw [List.flatMap_cons]
      exact getLast?_append_ne spelled.getLast?_ne inductionHypothesis

end Slashes

end MarkupTemplate
