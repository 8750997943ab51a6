import MarkupTemplate.Text.Ascii
import MarkupTemplate.Text.Search

/-!
# Scanning for the signs of markup

The few shapes that tell where a construct of markup begins and ends: what turns an angle bracket
into markup, the name after it, the closing bracket outside of quotes, and the tag that closes an
element whose content is not markup.  Every scan returns the text it passed over and the text
that remains.
-/

namespace MarkupTemplate.Text

/-! ## Names -/

/-- The name at the start of the text, and what follows it. -/
def splitName? : List Char → Option (List Char × List Char)
  | [] => none
  | character :: rest =>
      if isNameStart character then
        some (character :: rest.takeWhile isNameCharacter, rest.dropWhile isNameCharacter)
      else
        none

theorem append_of_splitName? {text name rest : List Char}
    (read : splitName? text = some (name, rest)) :
    name ++ rest = text := by
  cases text with
  | nil => simp [splitName?] at read
  | cons character others =>
    simp only [splitName?] at read
    split at read
    · simp only [Option.some.injEq, Prod.mk.injEq] at read
      obtain ⟨rfl, rfl⟩ := read
      simp [List.takeWhile_append_dropWhile]
    · contradiction

/-! ## Where markup begins -/

/-- What follows an angle bracket makes it markup: a declaration sign, a slash or a name. -/
def opensMarkup : List Char → Bool
  | [] => false
  | character :: _ =>
      character == '!' || character == '?' || character == '/' || isNameStart character

def startsMarkup : List Char → Bool
  | [] => false
  | character :: rest => character == '<' && opensMarkup rest

/-- Cut the text before the first angle bracket that opens markup, or at its end. -/
def splitBeforeMarkup (text : List Char) : List Char × List Char :=
  (splitFirst? startsMarkup text).getD (text, [])

@[simp]
theorem append_splitBeforeMarkup (text : List Char) :
    (splitBeforeMarkup text).1 ++ (splitBeforeMarkup text).2 = text := by
  unfold splitBeforeMarkup
  cases cut : splitFirst? startsMarkup text with
  | none => simp
  | some halves => simpa using append_of_splitFirst? cut

/-! ## Where a tag ends -/

/-- The open quote after one more character, given the quote that was open before it. -/
def nextQuote (openQuote : Option Char) (character : Char) : Option Char :=
  match openQuote with
  | none => if isQuote character then some character else none
  | some quote => if character == quote then none else some quote

/-- Cut the text around the first closing bracket that stands outside of quotes, when the given
quote is open at its start.  The bracket itself belongs to neither half. -/
def splitTagEndWithin? (openQuote : Option Char) : List Char → Option (List Char × List Char)
  | [] => none
  | character :: rest =>
      if openQuote.isNone && character == '>' then
        some ([], rest)
      else
        (splitTagEndWithin? (nextQuote openQuote character) rest).map fun (before, after) =>
          (character :: before, after)

def splitTagEnd? (text : List Char) : Option (List Char × List Char) :=
  splitTagEndWithin? none text

theorem append_of_splitTagEndWithin? {openQuote : Option Char} {text before after : List Char}
    (cut : splitTagEndWithin? openQuote text = some (before, after)) :
    before ++ '>' :: after = text := by
  induction text generalizing openQuote before with
  | nil => simp [splitTagEndWithin?] at cut
  | cons character rest inductionHypothesis =>
    simp only [splitTagEndWithin?] at cut
    split at cut
    · rename_i closes
      simp only [Bool.and_eq_true, beq_iff_eq] at closes
      simp only [Option.some.injEq, Prod.mk.injEq] at cut
      obtain ⟨rfl, rfl⟩ := cut
      simp [closes.2]
    · simp only [Option.map_eq_some_iff, Prod.mk.injEq, Prod.exists] at cut
      obtain ⟨others, remaining, found, rfl, rfl⟩ := cut
      simp [inductionHypothesis found]

theorem splitTagEnd?_cons {character : Char} (plain : isQuote character = false)
    (unended : character ≠ '>') (rest : List Char) :
    splitTagEnd? (character :: rest) =
      (splitTagEnd? rest).map fun (before, after) => (character :: before, after) := by
  rw [splitTagEnd?, splitTagEndWithin?, if_neg (by simp [unended]), nextQuote, plain]
  rfl

theorem append_of_splitTagEnd? {text before after : List Char}
    (cut : splitTagEnd? text = some (before, after)) :
    before ++ '>' :: after = text :=
  append_of_splitTagEndWithin? cut

/-! ## The tag that closes raw content -/

/-- The name of a closing tag ends here: at a blank, a closing bracket, a slash or the end. -/
def endsClosingName : List Char → Bool
  | [] => true
  | character :: _ => isBlank character || character == '>' || character == '/'

/-- The text begins with a closing tag of that name, in any ASCII case. -/
def startsClosingTag (name : List Char) : List Char → Bool
  | '<' :: '/' :: rest =>
      agreeIgnoringCase name (rest.take name.length) && endsClosingName (rest.drop name.length)
  | _ => false

def splitClosingTag? (name text : List Char) : Option (List Char × List Char) :=
  splitFirst? (startsClosingTag name) text

end MarkupTemplate.Text
