import MarkupTemplate.Attribute.Basic
import MarkupTemplate.Fault
import MarkupTemplate.Reference

/-!
# Attributes as they are written in a tag

The text of a tag after its name is a row of items: names, each with or without a value, and stray
characters that belong to no name.  A value stands between quotes or reaches to the next blank.
Forgiving reading skips what is stray and lets the first value of a name win; strict reading
reports the first thing that is wrong.
-/

namespace MarkupTemplate

open MarkupTemplate.Text

/-- An attribute's name goes on until a blank, a quote, a slash, an equals sign or an angle
bracket. -/
def isAttributeNameCharacter (character : Char) : Bool :=
  !isBlank character && !isQuote character && character != '=' && character != '/' &&
    character != '>' && character != '<'

inductive AttributeItem where
  /-- A name with its value as written; a quoted value may lack its closing quote. -/
  | written (name value : List Char) (terminated : Bool)
  /-- A character that belongs to no name. -/
  | stray (character : Char)
  deriving DecidableEq, Repr

namespace AttributeItem

/-! ## Reading items -/

/-- A value at the start of the text: the value as written, whether it is terminated, and what
follows it. -/
def readValue (text : List Char) : List Char × Bool × List Char :=
  match text with
  | [] => ([], true, [])
  | first :: rest =>
      if isQuote first then
        match rest.dropWhile (· != first) with
        | [] => (rest, false, [])
        | _ :: after => (rest.takeWhile (· != first), true, after)
      else
        (text.takeWhile (!isBlank ·), true, text.dropWhile (!isBlank ·))

private theorem length_dropWhile_le (skips : Char → Bool) (text : List Char) :
    (text.dropWhile skips).length ≤ text.length :=
  (List.dropWhile_sublist skips).length_le

theorem length_readValue_le (text : List Char) :
    (readValue text).2.2.length ≤ text.length := by
  unfold readValue
  split
  · simp
  · rename_i first rest
    split
    · have shorter := length_dropWhile_le (· != first) rest
      split
      · simp
      · rename_i found
        rw [found] at shorter
        simp only [List.length_cons] at shorter ⊢
        omega
    · exact length_dropWhile_le _ _

/-- What follows a name: its value, if an equals sign comes next, and the remaining text.  A name
alone has the empty value. -/
def readAfterName (text : List Char) : List Char × Bool × List Char :=
  match text.dropWhile isBlank with
  | '=' :: rest => readValue (rest.dropWhile isBlank)
  | rest => ([], true, rest)

theorem length_readAfterName_le (text : List Char) :
    (readAfterName text).2.2.length ≤ text.length := by
  have blanks := length_dropWhile_le isBlank text
  unfold readAfterName
  split
  · rename_i rest found
    have value := length_readValue_le (rest.dropWhile isBlank)
    have spaces := length_dropWhile_le isBlank rest
    rw [found] at blanks
    simp only [List.length_cons] at blanks
    omega
  · exact blanks

/-- The items of the text of a tag.  Blanks and slashes between items mean nothing. -/
def readAll (text : List Char) : List AttributeItem :=
  match _first : text.dropWhile isBlank with
  | [] => []
  | character :: rest =>
      if character = '/' then
        readAll rest
      else if isAttributeNameCharacter character then
        let found := readAfterName (rest.dropWhile isAttributeNameCharacter)
        .written (character :: rest.takeWhile isAttributeNameCharacter) found.1 found.2.1 ::
          readAll found.2.2
      else
        .stray character :: readAll rest
  termination_by text.length
  decreasing_by
    all_goals
      have blanks := length_dropWhile_le isBlank text
      have value := length_readAfterName_le (rest.dropWhile isAttributeNameCharacter)
      have name := length_dropWhile_le isAttributeNameCharacter rest
      rw [_first] at blanks
      simp only [List.length_cons] at blanks
      omega

/-! ## What the items say -/

/-- The attribute that an item gives, with the references in its value decoded. -/
def attribute? : AttributeItem → Option Attribute
  | .written name value _ => some ⟨String.ofList name, String.ofList (Reference.decode value)⟩
  | .stray _ => none

/-- The attributes that the items give; the first item of a name wins. -/
def attributes (items : List AttributeItem) : List Attribute :=
  (items.filterMap attribute?).foldl Attribute.addNew []

/-- The first thing that is wrong with the items, when the given names came before them. -/
def faultAfter? (seen : List (List Char)) : List AttributeItem → Option AttributeFault
  | [] => none
  | .stray _ :: _ => some .invalidCharacter
  | .written name _ terminated :: rest =>
      if !terminated then some .unterminatedValue
      else if seen.contains name then some .duplicate
      else faultAfter? (name :: seen) rest

end AttributeItem

namespace Attribute

/-- Forgiving reading of the text of a tag. -/
def readAll (text : List Char) : List Attribute :=
  AttributeItem.attributes (AttributeItem.readAll text)

def fault? (text : List Char) : Option AttributeFault :=
  AttributeItem.faultAfter? [] (AttributeItem.readAll text)

def readStrictly (text : List Char) : Except AttributeFault (List Attribute) :=
  match fault? text with
  | some fault => .error fault
  | none => .ok (readAll text)

end Attribute

end MarkupTemplate
