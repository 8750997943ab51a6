/-!
# Character classes of markup

Markup is delimited by ASCII characters alone: the blanks, the signs around tags, and the letters
that open a name.  Every character outside ASCII may open and continue a name, and letters are
compared without regard to ASCII case only.
-/

namespace MarkupTemplate.Text

def quotationMark : Char := '\x22'

def apostrophe : Char := '\x27'

/-- A character is a quote if it may open a quoted attribute value. -/
def isQuote (character : Char) : Bool :=
  character == quotationMark || character == apostrophe

/-- The blanks of markup: space, tab, line feed, carriage return and form feed. -/
def isBlank (character : Char) : Bool :=
  character == ' ' || character == '\t' || character == '\n' || character == '\r' ||
    character == '\x0c'

/-- A name opens with an ASCII letter, an underscore, a colon or a character outside ASCII. -/
def isNameStart (character : Char) : Bool :=
  character.isAlpha || character == '_' || character == ':' || 0x80 ≤ character.toNat

/-- A name goes on until a blank, a slash or an angle bracket. -/
def isNameCharacter (character : Char) : Bool :=
  !isBlank character && character != '/' && character != '>' && character != '<'

def agreeIgnoringCase (left right : List Char) : Bool :=
  left.map Char.toLower == right.map Char.toLower

def isOneOfIgnoringCase (names : List String) (name : List Char) : Bool :=
  names.any fun listed => agreeIgnoringCase listed.toList name

/-! ## What the classes have to do with one another -/

theorem isNameCharacter_of_isNameStart {character : Char}
    (opens : isNameStart character = true) :
    isNameCharacter character = true := by
  unfold isNameStart Char.isAlpha Char.isUpper Char.isLower at opens
  simp only [Bool.or_eq_true, Bool.and_eq_true, decide_eq_true_eq, beq_iff_eq] at opens
  simp only [isNameCharacter, isBlank, Bool.and_eq_true, Bool.not_eq_true', Bool.or_eq_false_iff,
    beq_eq_false_iff_ne, bne_iff_ne]
  refine ⟨⟨⟨⟨⟨⟨⟨?_, ?_⟩, ?_⟩, ?_⟩, ?_⟩, ?_⟩, ?_⟩, ?_⟩ <;>
    (rintro rfl; revert opens; decide)

theorem isAlpha_of_toLower_ne {character : Char} (changed : character.toLower ≠ character) :
    character.isAlpha = true ∧ character.toLower.isAlpha = true := by
  unfold Char.toLower at changed ⊢
  split
  · rename_i upper
    have low : 65 ≤ character.val.toNat := upper.1
    have high : character.val.toNat ≤ 90 := upper.2
    have shift : 'a'.val - 'A'.val = 32 := by decide
    constructor
    · unfold Char.isAlpha Char.isUpper
      rw [Bool.or_eq_true, decide_eq_true_eq]
      exact Or.inl upper
    · unfold Char.isAlpha Char.isLower
      rw [Bool.or_eq_true]
      right
      simp only [Bool.and_eq_true, decide_eq_true_eq, shift, ge_iff_le, UInt32.le_iff_toNat_le,
        UInt32.toNat_add]
      change 97 ≤ (character.val.toNat + 32) % 4294967296 ∧
        (character.val.toNat + 32) % 4294967296 ≤ 122
      omega
  · rename_i same
    rw [dif_neg same] at changed
    contradiction

theorem agreeIgnoringCase_iff {left right : List Char} :
    agreeIgnoringCase left right = true ↔ left.map Char.toLower = right.map Char.toLower := by
  simp [agreeIgnoringCase]

end MarkupTemplate.Text
