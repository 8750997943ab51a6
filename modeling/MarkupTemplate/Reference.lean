import MarkupTemplate.Text.Ascii
import MarkupTemplate.Text.Bytes

/-!
# Character references

A reference stands for one character: an ampersand, a body of 1 to 31 bytes and a semicolon.  The
body is one of sixteen names, or a number sign with a decimal code point, or a number sign and an
`x` with a hexadecimal one.  Decoding replaces every reference that denotes a character and keeps
everything else as it stands; escaping writes references for the few characters that would end
a text or an attribute value.
-/

namespace MarkupTemplate.Reference

open MarkupTemplate.Text

/-! ## What a body denotes -/

def named : List (String × Char) :=
  [ ("lt", '<'), ("gt", '>'), ("amp", '&'), ("quot", quotationMark), ("apos", apostrophe),
    ("nbsp", '\u00a0'), ("copy", '\u00a9'), ("reg", '\u00ae'), ("trade", '\u2122'),
    ("mdash", '\u2014'), ("ndash", '\u2013'), ("lsquo", '\u2018'), ("rsquo", '\u2019'),
    ("ldquo", '\u201c'), ("rdquo", '\u201d'), ("hellip", '\u2026') ]

def decimalDigit? (character : Char) : Option Nat :=
  if character.isDigit then some (character.toNat - '0'.toNat) else none

/-- The value of a hexadecimal digit, in either case. -/
def hexadecimalDigit? (character : Char) : Option Nat :=
  if character.isDigit then some (character.toNat - '0'.toNat)
  else if 'a' ≤ character ∧ character ≤ 'f' then some (character.toNat - 'a'.toNat + 10)
  else if 'A' ≤ character ∧ character ≤ 'F' then some (character.toNat - 'A'.toNat + 10)
  else none

/-- The number that the digits write in the base, most significant first, continuing from the
number written before them. -/
def digitsValue? (base : Nat) (digit? : Char → Option Nat) : Nat → List Char → Option Nat
  | written, [] => some written
  | written, character :: rest =>
      match digit? character with
      | some value => digitsValue? base digit? (written * base + value) rest
      | none => none

/-- The number written by one or more digits, which a plus sign may precede. -/
def numeral? (base : Nat) (digit? : Char → Option Nat) (text : List Char) : Option Nat :=
  let digits :=
    match text with
    | '+' :: rest => rest
    | _ => text
  if digits.isEmpty then none else digitsValue? base digit? 0 digits

/-- The character with that code point; a surrogate, zero and a number past the last code point
denote none. -/
def scalar? (code : Nat) : Option Char :=
  if code.isValidChar ∧ code ≠ 0 then some (Char.ofNat code) else none

/-- The character that a numeric body denotes, after its number sign. -/
def numeric? : List Char → Option Char
  | 'x' :: digits => (numeral? 16 hexadecimalDigit? digits).bind scalar?
  | 'X' :: digits => (numeral? 16 hexadecimalDigit? digits).bind scalar?
  | digits => (numeral? 10 decimalDigit? digits).bind scalar?

def denoted? : List Char → Option Char
  | '#' :: rest => numeric? rest
  | body => (named.find? fun (name, _) => name.toList == body).map Prod.snd

/-! ## Decoding -/

/-- The longest body of a reference, in bytes. -/
def longestBody : Nat := 31

/-- The text before the first semicolon, if it takes no more bytes than there is room for, and
what follows the semicolon. -/
def splitBody? : Nat → List Char → Option (List Char × List Char)
  | _, [] => none
  | room, character :: rest =>
      if character = ';' then
        some ([], rest)
      else if character.utf8Size ≤ room then
        (splitBody? (room - character.utf8Size) rest).map fun (body, after) =>
          (character :: body, after)
      else
        none

/-- A body ends at the first semicolon and fits into its room. -/
theorem splitBody?_eq_some_iff {room : Nat} {text body after : List Char} :
    splitBody? room text = some (body, after) ↔
      text = body ++ ';' :: after ∧ ';' ∉ body ∧ byteSize body ≤ room := by
  induction text generalizing room body with
  | nil => simp [splitBody?]
  | cons character rest inductionHypothesis =>
    simp only [splitBody?]
    by_cases semicolon : character = ';'
    · cases body with
      | nil => simp [semicolon]
      | cons first others =>
        simp only [semicolon, ↓reduceIte, Option.some.injEq, Prod.mk.injEq, List.nil_eq,
          reduceCtorEq, false_and, List.cons_append, List.cons.injEq, List.mem_cons, not_or,
          false_iff, not_and]
        intro same fresh
        exact absurd same.1 fresh.1
    · cases body with
      | nil =>
        simp only [semicolon, ↓reduceIte, List.nil_append, List.cons.injEq, false_and, iff_false]
        split <;> simp
      | cons first others =>
        by_cases fits : character.utf8Size ≤ room
        · simp only [semicolon, ↓reduceIte, fits, Option.map_eq_some_iff, Prod.mk.injEq,
            List.cons.injEq, Prod.exists, List.cons_append, List.mem_cons, not_or, byteSize_cons]
          constructor
          · intro found
            obtain ⟨remaining, following, cut, ⟨rfl, rfl⟩, rfl⟩ := found
            obtain ⟨rfl, fresh, size⟩ := inductionHypothesis.1 cut
            exact ⟨⟨rfl, rfl⟩, ⟨Ne.symm semicolon, fresh⟩, by omega⟩
          · intro described
            obtain ⟨⟨rfl, rfl⟩, ⟨_, fresh⟩, size⟩ := described
            exact ⟨others, after, inductionHypothesis.2 ⟨rfl, fresh, by omega⟩, ⟨rfl, rfl⟩, rfl⟩
        · simp only [semicolon, ↓reduceIte, fits, reduceCtorEq, List.cons_append, List.cons.injEq,
            List.mem_cons, not_or, byteSize_cons, false_iff, not_and]
          intro same _
          obtain ⟨rfl, _⟩ := same
          omega

/-- The reference at the start of a text whose ampersand has just been read: the character it
denotes, and what follows its semicolon. -/
def read? (text : List Char) : Option (Char × List Char) :=
  match splitBody? longestBody text with
  | some (body, after) => (denoted? body).map fun character => (character, after)
  | none => none

theorem length_lt_of_read? {text after : List Char} {character : Char}
    (read : read? text = some (character, after)) :
    after.length < text.length := by
  simp only [read?] at read
  split at read
  · rename_i body remaining cut
    obtain ⟨rfl, _⟩ := splitBody?_eq_some_iff.1 cut
    simp only [Option.map_eq_some_iff, Prod.mk.injEq] at read
    obtain ⟨_, _, _, rfl⟩ := read
    simp only [List.length_append, List.length_cons]
    omega
  · contradiction

/-- Replace every reference by the character it denotes, from left to right.  An ampersand that
begins no reference stays. -/
def decode : List Char → List Char
  | [] => []
  | character :: rest =>
      if character = '&' then
        match _reference : read? rest with
        | some (denoted, after) => denoted :: decode after
        | none => '&' :: decode rest
      else
        character :: decode rest
  termination_by text => text.length
  decreasing_by
    · have shorter := length_lt_of_read? _reference
      simp only [List.length_cons]
      omega
    · simp
    · simp

/-- A text without an ampersand holds no reference. -/
theorem decode_eq_self {text : List Char} (free : '&' ∉ text) : decode text = text := by
  induction text with
  | nil => simp [decode]
  | cons character rest inductionHypothesis =>
    simp only [List.mem_cons, not_or] at free
    rw [decode, if_neg (Ne.symm free.1), inductionHypothesis free.2]

/-! ## Escaping -/

/-- A character of a text as markup: both angle brackets and the ampersand are references. -/
def escapedInText (character : Char) : List Char :=
  if character = '<' then ['&', 'l', 't', ';']
  else if character = '>' then ['&', 'g', 't', ';']
  else if character = '&' then ['&', 'a', 'm', 'p', ';']
  else [character]

/-- A character of an attribute value as markup: the opening angle bracket, the ampersand and the
quotation mark are references. -/
def escapedInAttribute (character : Char) : List Char :=
  if character = '<' then ['&', 'l', 't', ';']
  else if character = '&' then ['&', 'a', 'm', 'p', ';']
  else if character = quotationMark then ['&', 'q', 'u', 'o', 't', ';']
  else [character]

def escapeText (text : List Char) : List Char :=
  text.flatMap escapedInText

/-- The value of an attribute as markup, to stand between quotation marks. -/
def escapeAttribute (value : List Char) : List Char :=
  value.flatMap escapedInAttribute

@[simp]
theorem escapeText_append (left right : List Char) :
    escapeText (left ++ right) = escapeText left ++ escapeText right := by
  simp [escapeText]

@[simp]
theorem escapeAttribute_append (left right : List Char) :
    escapeAttribute (left ++ right) = escapeAttribute left ++ escapeAttribute right := by
  simp [escapeAttribute]

end MarkupTemplate.Reference
