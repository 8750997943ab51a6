import Mathlib.Data.List.Forall2
import Mathlib.Data.Nat.Digits.Defs
import MarkupTemplate.Reference

/-!
# Well-formed references

What a reference may be, told apart from how it is read: a listed name, or a number sign and digits
that write the code point of a character.  Decoding is the rewriting of a text from left to right in
which every such reference becomes its character, and every other character stays as it is.
-/

namespace MarkupTemplate.Reference

open MarkupTemplate.Text

/-! ## The grammar -/

/-- The character is the digit of that value in the base, in either case. -/
def IsDigit (base : Nat) (character : Char) (value : Nat) : Prop :=
  value < base ∧ (character = Nat.digitChar value ∨ character = (Nat.digitChar value).toUpper)

/-- The digits write the number in the base, most significant first. -/
def WritesNumber (base : Nat) (digits : List Char) (number : Nat) : Prop :=
  ∃ values, List.Forall₂ (IsDigit base) digits values ∧ Nat.ofDigits base values.reverse = number

/-- What may stand between the number sign and the digits, with the base of the digits. -/
def bases : List (List Char × Nat) :=
  [([], 10), (['x'], 16), (['X'], 16)]

/-- The body denotes the character, if one of the signs stands before the digits of a number. -/
inductive Denotes (signs : List (List Char)) : List Char → Char → Prop
  | named {name : String} {character : Char} (listed : (name, character) ∈ named) :
      Denotes signs name.toList character
  | numeric (mark : List Char) {sign digits : List Char} {base : Nat} {character : Char}
      (marked : (mark, base) ∈ bases) (signed : sign ∈ signs) (nonempty : digits ≠ [])
      (writes : WritesNumber base digits character.toNat) (nonzero : character ≠ '\x00') :
      Denotes signs ('#' :: (mark ++ sign ++ digits)) character

/-- The text behind an ampersand begins with a body that the first semicolon ends, and that denotes
the character. -/
def Begins (signs : List (List Char)) (text : List Char) (character : Char)
    (after : List Char) : Prop :=
  ∃ body, text = body ++ ';' :: after ∧ ';' ∉ body ∧ 1 ≤ byteSize body ∧ byteSize body ≤ 31 ∧
    Denotes signs body character

/-- One text is rewritten to the other from left to right: references become their characters, and
everything else stays. -/
inductive Rewrites (signs : List (List Char)) : List Char → List Char → Prop
  | nil : Rewrites signs [] []
  | keep {character : Char} {rest result : List Char} (plain : character ≠ '&')
      (onward : Rewrites signs rest result) :
      Rewrites signs (character :: rest) (character :: result)
  | replace {character : Char} {rest after result : List Char}
      (begins : Begins signs rest character after) (onward : Rewrites signs after result) :
      Rewrites signs ('&' :: rest) (character :: result)
  | keepAmpersand {rest result : List Char}
      (none : ∀ character after, ¬ Begins signs rest character after)
      (onward : Rewrites signs rest result) : Rewrites signs ('&' :: rest) ('&' :: result)

/-- Digits without a sign. -/
def unsigned : List (List Char) := [[]]

/-- Digits with or without a plus sign. -/
def optionalPlus : List (List Char) := [[], ['+']]

/-! ## Digits -/

instance (base : Nat) (character : Char) (value : Nat) :
    Decidable (IsDigit base character value) :=
  inferInstanceAs (Decidable (_ ∧ _))

section Digits

variable {character : Char} {value : Nat}

theorem IsDigit.mono {base larger : Nat} (isDigit : IsDigit base character value)
    (le : base ≤ larger) : IsDigit larger character value :=
  ⟨Nat.lt_of_lt_of_le isDigit.1 le, isDigit.2⟩

/-- The characters from one code to another are the digits from a value on. -/
theorem isDigit_of_range (lowest : Nat) {base first last : Nat}
    (table : ∀ code ≤ last, first ≤ code → IsDigit base (Char.ofNat code) (code - first + lowest))
    (above : first ≤ character.toNat) (below : character.toNat ≤ last) :
    IsDigit base character (character.toNat - first + lowest) := by
  have digit := table character.toNat below above
  rwa [Char.ofNat_toNat] at digit

theorem isDigit_of_isDigit (isDigit : character.isDigit = true) :
    IsDigit 10 character (character.toNat - '0'.toNat) := by
  unfold Char.isDigit at isDigit
  rw [Bool.and_eq_true, decide_eq_true_iff, decide_eq_true_iff] at isDigit
  exact isDigit_of_range 0 (by decide) isDigit.1 isDigit.2

theorem decimalDigit?_eq_some_iff :
    decimalDigit? character = some value ↔ IsDigit 10 character value := by
  unfold decimalDigit?
  constructor
  · intro found
    split at found
    · rename_i isDigit
      rw [← Option.some.inj found]
      exact isDigit_of_isDigit isDigit
    · contradiction
  · rintro ⟨small, rfl | rfl⟩ <;> decide +revert

theorem hexadecimalDigit?_eq_some_iff :
    hexadecimalDigit? character = some value ↔ IsDigit 16 character value := by
  unfold hexadecimalDigit?
  constructor
  · intro found
    split at found
    · rename_i isDigit
      rw [← Option.some.inj found]
      exact (isDigit_of_isDigit isDigit).mono (by decide)
    · split at found
      · rename_i range
        rw [← Option.some.inj found]
        exact isDigit_of_range 10 (by decide) range.1 range.2
      · split at found
        · rename_i range
          rw [← Option.some.inj found]
          exact isDigit_of_range 10 (by decide) range.1 range.2
        · contradiction
  · rintro ⟨small, rfl | rfl⟩ <;> decide +revert

end Digits

/-! ## Numbers -/

theorem ofDigits_continue (base value written : Nat) (values : List Nat) :
    Nat.ofDigits base (values ++ [value, written]) =
      Nat.ofDigits base (values ++ [written * base + value]) := by
  rw [Nat.ofDigits_append, Nat.ofDigits_append, Nat.ofDigits_cons, Nat.ofDigits_singleton,
    Nat.ofDigits_singleton, Nat.mul_comm written base, Nat.add_comm value]

section Numbers

variable {base : Nat} {digit? : Char → Option Nat}

/-- Digits are read from the most significant on, behind the number that was read before them. -/
theorem digitsValue?_eq_some_iff
    (reads : ∀ {character value}, digit? character = some value ↔ IsDigit base character value)
    {written number : Nat} {digits : List Char} :
    digitsValue? base digit? written digits = some number ↔
      ∃ values, List.Forall₂ (IsDigit base) digits values ∧
        Nat.ofDigits base (values.reverse ++ [written]) = number := by
  induction digits generalizing written with
  | nil => simp [digitsValue?]
  | cons character rest inductionHypothesis =>
      rw [digitsValue?]
      simp only [List.forall₂_cons_left_iff]
      cases digit : digit? character with
      | none =>
          simp only [reduceCtorEq, false_iff]
          rintro ⟨_, ⟨value, values, isDigit, _⟩, _⟩
          rw [reads.2 isDigit] at digit
          contradiction
      | some value =>
          simp only [inductionHypothesis]
          constructor
          · rintro ⟨values, areDigits, total⟩
            refine ⟨value :: values, ⟨value, values, reads.1 digit, areDigits, rfl⟩, ?_⟩
            rw [List.reverse_cons, List.append_assoc, List.singleton_append, ofDigits_continue,
              total]
          · rintro ⟨_, ⟨other, values, isDigit, areDigits, rfl⟩, total⟩
            obtain rfl := Option.some.inj (digit.symm.trans (reads.2 isDigit))
            rw [List.reverse_cons, List.append_assoc, List.singleton_append,
              ofDigits_continue] at total
            exact ⟨values, areDigits, total⟩

theorem digitsValue?_zero_eq_some_iff
    (reads : ∀ {character value}, digit? character = some value ↔ IsDigit base character value)
    {number : Nat} {digits : List Char} :
    digitsValue? base digit? 0 digits = some number ↔ WritesNumber base digits number := by
  rw [digitsValue?_eq_some_iff reads]
  simp only [Nat.ofDigits_append, Nat.ofDigits_singleton, Nat.mul_zero, Nat.add_zero,
    WritesNumber]

theorem not_isDigit_of_sign {character : Char} (sign : character ∈ ['+', 'x', 'X'])
    {value : Nat} (small : value < 16) :
    character ≠ Nat.digitChar value ∧ character ≠ (Nat.digitChar value).toUpper := by
  simp only [List.mem_cons, List.not_mem_nil, or_false] at sign
  rcases sign with rfl | rfl | rfl <;> revert value <;> decide

theorem WritesNumber.head_ne {digits : List Char} {number : Nat}
    (writes : WritesNumber base digits number) (small : base ≤ 16) :
    ∀ first ∈ digits.head?, first ∉ ['+', 'x', 'X'] := by
  obtain ⟨values, areDigits, _⟩ := writes
  intro first isFirst sign
  cases areDigits with
  | nil => contradiction
  | cons isDigit others =>
      obtain rfl := Option.some.inj isFirst
      obtain ⟨noDigit, noLetter⟩ := not_isDigit_of_sign sign (isDigit.mono small).1
      rcases isDigit.2 with same | same
      · exact noDigit same
      · exact noLetter same

/-- A number is one or more digits, behind a plus sign or not. -/
theorem numeral?_eq_some_iff
    (reads : ∀ {character value}, digit? character = some value ↔ IsDigit base character value)
    (small : base ≤ 16) {text : List Char} {number : Nat} :
    numeral? base digit? text = some number ↔
      ∃ sign ∈ optionalPlus, ∃ digits, text = sign ++ digits ∧ digits ≠ [] ∧
        WritesNumber base digits number := by
  have filled : ∀ digits : List Char,
      (if digits.isEmpty then none else digitsValue? base digit? 0 digits) = some number ↔
        digits ≠ [] ∧ WritesNumber base digits number := by
    intro digits
    rw [← digitsValue?_zero_eq_some_iff reads]
    cases digits <;> simp
  unfold numeral?
  simp only [filled, optionalPlus, List.mem_cons, List.not_mem_nil, or_false, exists_eq_or_imp,
    exists_eq_left, List.nil_append, List.singleton_append]
  split
  · rename_i rest
    constructor
    · rintro ⟨nonempty, writes⟩
      exact .inr ⟨rest, rfl, nonempty, writes⟩
    · rintro (⟨digits, rfl, _, writes⟩ | ⟨digits, same, nonempty, writes⟩)
      · exact absurd (by simp) (writes.head_ne small '+' rfl)
      · rw [(List.cons.inj same).2]
        exact ⟨nonempty, writes⟩
  · rename_i noPlus
    constructor
    · rintro ⟨nonempty, writes⟩
      exact .inl ⟨text, rfl, nonempty, writes⟩
    · rintro (⟨digits, rfl, nonempty, writes⟩ | ⟨digits, same, _⟩)
      · exact ⟨nonempty, writes⟩
      · exact absurd same (noPlus digits)

end Numbers

/-! ## Bodies -/

section Bodies

variable {signs : List (List Char)} {body text after : List Char} {character : Char}

theorem toNat_ofNat_of_isValidChar {code : Nat} (valid : code.isValidChar) :
    (Char.ofNat code).toNat = code := by
  rw [Char.ofNat, dif_pos valid]
  rfl

theorem scalar?_eq_some_iff {code : Nat} :
    scalar? code = some character ↔ code = character.toNat ∧ character ≠ '\x00' := by
  unfold scalar?
  constructor
  · intro found
    split at found
    · rename_i valid
      obtain rfl := Option.some.inj found
      have same := toNat_ofNat_of_isValidChar valid.1
      refine ⟨same.symm, fun zero => valid.2 ?_⟩
      rw [← same, zero]
      rfl
    · contradiction
  · rintro ⟨rfl, nonzero⟩
    have valid : character.toNat.isValidChar := character.valid
    rw [if_pos ⟨valid, fun zero => nonzero (by rw [← Char.ofNat_toNat character, zero])⟩,
      Char.ofNat_toNat]

/-- What digits in a base denote, behind a plus sign or not. -/
theorem bind_scalar?_eq_some_iff {base : Nat} {digit? : Char → Option Nat}
    (reads : ∀ {character value}, digit? character = some value ↔ IsDigit base character value)
    (small : base ≤ 16) :
    (numeral? base digit? text).bind scalar? = some character ↔
      ∃ sign ∈ optionalPlus, ∃ digits, text = sign ++ digits ∧ digits ≠ [] ∧
        WritesNumber base digits character.toNat ∧ character ≠ '\x00' := by
  simp only [Option.bind_eq_some_iff, scalar?_eq_some_iff, numeral?_eq_some_iff reads small]
  constructor
  · rintro ⟨_, ⟨sign, signed, digits, rfl, nonempty, writes⟩, rfl, nonzero⟩
    exact ⟨sign, signed, digits, rfl, nonempty, writes, nonzero⟩
  · rintro ⟨sign, signed, digits, rfl, nonempty, writes, nonzero⟩
    exact ⟨_, ⟨sign, signed, digits, rfl, nonempty, writes⟩, rfl, nonzero⟩

theorem numeric?_of_head_ne (plain : ∀ first ∈ text.head?, first ∉ ['x', 'X']) :
    numeric? text = (numeral? 10 decimalDigit? text).bind scalar? := by
  unfold numeric?
  split
  · exact absurd (by simp) (plain 'x' rfl)
  · exact absurd (by simp) (plain 'X' rfl)
  · rfl

theorem denotes_of_numeric? (found : numeric? text = some character) :
    Denotes optionalPlus ('#' :: text) character := by
  unfold numeric? at found
  split at found
  · obtain ⟨sign, signed, digits, rfl, nonempty, writes, nonzero⟩ :=
      (bind_scalar?_eq_some_iff hexadecimalDigit?_eq_some_iff (by decide)).1 found
    exact .numeric ['x'] (by decide) signed nonempty writes nonzero
  · obtain ⟨sign, signed, digits, rfl, nonempty, writes, nonzero⟩ :=
      (bind_scalar?_eq_some_iff hexadecimalDigit?_eq_some_iff (by decide)).1 found
    exact .numeric ['X'] (by decide) signed nonempty writes nonzero
  · obtain ⟨sign, signed, digits, rfl, nonempty, writes, nonzero⟩ :=
      (bind_scalar?_eq_some_iff decimalDigit?_eq_some_iff (by decide)).1 found
    exact .numeric [] (by decide) signed nonempty writes nonzero

theorem denoted?_eq_some_iff :
    denoted? body = some character ↔ Denotes optionalPlus body character := by
  constructor
  · intro found
    unfold denoted? at found
    split at found
    · exact denotes_of_numeric? found
    · obtain ⟨⟨name, other⟩, entry, rfl⟩ := Option.map_eq_some_iff.1 found
      have spelled : name.toList = body := by simpa using List.find?_some entry
      rw [← spelled]
      exact .named (List.mem_of_find?_eq_some entry)
  · rintro (listed | @⟨mark, sign, digits, base, _, marked, signed, nonempty, writes, nonzero⟩)
    · have table : ∀ entry ∈ named, denoted? entry.1.toList = some entry.2 := by decide
      exact table _ listed
    · simp only [bases, List.mem_cons, Prod.mk.injEq, List.not_mem_nil, or_false] at marked
      have read {digit? : Char → Option Nat} (reads : ∀ {character value},
          digit? character = some value ↔ IsDigit base character value) (small : base ≤ 16) :
          (numeral? base digit? (sign ++ digits)).bind scalar? = some character :=
        (bind_scalar?_eq_some_iff reads small).2
          ⟨sign, signed, digits, rfl, nonempty, writes, nonzero⟩
      rcases marked with ⟨rfl, rfl⟩ | ⟨rfl, rfl⟩ | ⟨rfl, rfl⟩
      · refine (numeric?_of_head_ne ?_).trans (read decimalDigit?_eq_some_iff (by decide))
        intro first isFirst
        simp only [optionalPlus, List.mem_cons, List.not_mem_nil, or_false] at signed
        rcases signed with rfl | rfl
        · exact fun mark => writes.head_ne (by decide) first isFirst (List.mem_cons_of_mem _ mark)
        · rw [← Option.some.inj isFirst]
          decide
      · exact read hexadecimalDigit?_eq_some_iff (by decide)
      · exact read hexadecimalDigit?_eq_some_iff (by decide)

theorem Denotes.ne_nil (denotes : Denotes signs body character) : body ≠ [] := by
  cases denotes with
  | named listed =>
      have table : ∀ entry ∈ Reference.named, entry.1.toList ≠ [] := by decide
      exact table _ listed
  | numeric => exact List.cons_ne_nil _ _

theorem Denotes.byteSize_pos (denotes : Denotes signs body character) : 1 ≤ byteSize body := by
  obtain ⟨first, rest, rfl⟩ := List.exists_cons_of_ne_nil denotes.ne_nil
  exact Nat.le_trans first.utf8Size_pos (Nat.le_add_right _ _)

/-- A reference is read where one begins. -/
theorem read?_eq_some_iff :
    read? text = some (character, after) ↔ Begins optionalPlus text character after := by
  unfold read? Begins
  constructor
  · intro read
    split at read
    · rename_i body remaining cut
      obtain ⟨whole, free, short⟩ := splitBody?_eq_some_iff.1 cut
      simp only [Option.map_eq_some_iff, denoted?_eq_some_iff, Prod.mk.injEq] at read
      obtain ⟨_, denotes, rfl, rfl⟩ := read
      exact ⟨body, whole, free, denotes.byteSize_pos, short, denotes⟩
    · contradiction
  · rintro ⟨body, whole, free, _, short, denotes⟩
    have cut : splitBody? longestBody text = some (body, after) :=
      splitBody?_eq_some_iff.2 ⟨whole, free, short⟩
    simp only [cut, denoted?_eq_some_iff.2 denotes, Option.map_some]

end Bodies

/-! ## Rewriting -/

section Rewriting

variable {signs : List (List Char)} {text rest after : List Char} {character : Char}

theorem decode_cons_of_ne (plain : character ≠ '&') (rest : List Char) :
    decode (character :: rest) = character :: decode rest := by
  rw [decode, if_neg plain]

/-- A reference in front of a text is decoded on its own. -/
theorem decode_of_begins (begins : Begins optionalPlus rest character after) :
    decode ('&' :: rest) = character :: decode after := by
  have found := read?_eq_some_iff.2 begins
  rw [decode, if_pos rfl]
  split
  · rename_i read
    rw [found, Option.some.injEq, Prod.mk.injEq] at read
    rw [read.1, read.2]
  · rename_i read
    rw [found] at read
    contradiction

theorem decode_of_forall_not_begins
    (none : ∀ character after, ¬ Begins optionalPlus rest character after) :
    decode ('&' :: rest) = '&' :: decode rest := by
  rw [decode, if_pos rfl]
  split
  · rename_i read
    exact absurd (read?_eq_some_iff.1 read) (none _ _)
  · rfl

theorem decode_eq_iff {result : List Char} :
    decode text = result ↔ Rewrites optionalPlus text result := by
  constructor
  · rintro rfl
    fun_induction decode text with
    | case1 => exact .nil
    | case2 rest character after read inductionHypothesis =>
        exact .replace (read?_eq_some_iff.1 read) inductionHypothesis
    | case3 rest read inductionHypothesis =>
        refine .keepAmpersand (fun character after begins => ?_) inductionHypothesis
        rw [read?_eq_some_iff.2 begins] at read
        contradiction
    | case4 character rest plain inductionHypothesis => exact .keep plain inductionHypothesis
  · intro rewrites
    induction rewrites with
    | nil => rw [decode]
    | keep plain _ inductionHypothesis => rw [decode_cons_of_ne plain, inductionHypothesis]
    | replace begins _ inductionHypothesis => rw [decode_of_begins begins, inductionHypothesis]
    | keepAmpersand none _ inductionHypothesis =>
        rw [decode_of_forall_not_begins none, inductionHypothesis]

/-! ## Signs -/

/-- Some number in the text has a plus sign. -/
def HasPlus (text : List Char) : Prop :=
  ∃ mark ∈ bases.map Prod.fst, '&' :: '#' :: (mark ++ ['+']) <:+: text

instance (text : List Char) : Decidable (HasPlus text) :=
  inferInstanceAs (Decidable (∃ mark ∈ bases.map Prod.fst, _))

theorem Denotes.withPlus {body : List Char} (denotes : Denotes unsigned body character) :
    Denotes optionalPlus body character := by
  cases denotes with
  | named listed => exact .named listed
  | numeric mark marked signed nonempty writes nonzero =>
      have within : unsigned ⊆ optionalPlus := by decide
      exact .numeric mark marked (within signed) nonempty writes nonzero

theorem Begins.withPlus (begins : Begins unsigned rest character after) :
    Begins optionalPlus rest character after := by
  obtain ⟨body, whole, free, filled, short, denotes⟩ := begins
  exact ⟨body, whole, free, filled, short, denotes.withPlus⟩

/-- Where no number has a plus sign, none needs to be allowed. -/
theorem Begins.withoutPlus (begins : Begins optionalPlus rest character after)
    (noPlus : ¬ HasPlus ('&' :: rest)) : Begins unsigned rest character after := by
  obtain ⟨body, whole, free, filled, short, denotes⟩ := begins
  refine ⟨body, whole, free, filled, short, ?_⟩
  cases denotes with
  | named listed => exact .named listed
  | @numeric mark sign digits base _ marked signed nonempty writes nonzero =>
      simp only [optionalPlus, List.mem_cons, List.not_mem_nil, or_false] at signed
      rcases signed with rfl | rfl
      · exact .numeric mark marked (List.mem_singleton_self []) nonempty writes nonzero
      · refine absurd ⟨mark, List.mem_map_of_mem marked, ?_⟩ noPlus
        rw [whole]
        exact ⟨[], digits ++ ';' :: after, by simp⟩

theorem rewrites_self (free : '&' ∉ text) : Rewrites signs text text := by
  induction text with
  | nil => exact .nil
  | cons character rest inductionHypothesis =>
      rw [List.mem_cons, not_or] at free
      exact .keep (Ne.symm free.1) (inductionHypothesis free.2)

theorem Begins.isSuffix (begins : Begins signs rest character after) : after <:+ rest := by
  obtain ⟨body, whole, _⟩ := begins
  exact ⟨body ++ [';'], by rw [whole]; simp⟩

theorem Rewrites.congr {others : List (List Char)} {result : List Char}
    (rewrites : Rewrites signs text result)
    (same : ∀ rest, '&' :: rest <:+ text → ∀ character after,
      Begins signs rest character after ↔ Begins others rest character after) :
    Rewrites others text result := by
  induction rewrites with
  | nil => exact .nil
  | keep plain _ inductionHypothesis =>
      exact .keep plain (inductionHypothesis fun rest within =>
        same rest (within.trans (List.suffix_cons _ _)))
  | replace begins _ inductionHypothesis =>
      refine .replace ((same _ (List.suffix_refl _) _ _).1 begins)
        (inductionHypothesis fun rest within => same rest ?_)
      exact (within.trans begins.isSuffix).trans (List.suffix_cons _ _)
  | keepAmpersand none _ inductionHypothesis =>
      refine .keepAmpersand (fun character after begins => ?_)
        (inductionHypothesis fun rest within => same rest (within.trans (List.suffix_cons _ _)))
      exact none _ _ ((same _ (List.suffix_refl _) _ _).2 begins)

/-- Decoding replaces the references of a text and nothing else.  A number in a reference may have a
plus sign; in a text without one, the references are the well-formed ones. -/
theorem decode_rewrites (text result : List Char) :
    (decode text = result ↔ Rewrites optionalPlus text result) ∧
      (¬ HasPlus text → (decode text = result ↔ Rewrites unsigned text result)) := by
  refine ⟨decode_eq_iff, fun noPlus => decode_eq_iff.trans ?_⟩
  have same : ∀ rest, '&' :: rest <:+ text → ∀ character after,
      Begins optionalPlus rest character after ↔ Begins unsigned rest character after := by
    intro rest within character after
    refine ⟨fun begins => begins.withoutPlus ?_, Begins.withPlus⟩
    rintro ⟨mark, marked, occurs⟩
    exact noPlus ⟨mark, marked, occurs.trans within.isInfix⟩
  exact ⟨fun rewrites => rewrites.congr same,
    fun rewrites => rewrites.congr fun rest within character after =>
      (same rest within character after).symm⟩

theorem decode_rewrites_nested :
    ¬ HasPlus "&a&lt;&#x2014;&#0;".toList ∧
      decode "&a&lt;&#x2014;&#0;".toList = "&a<\u2014&#0;".toList ∧
      Rewrites unsigned "&a&lt;&#x2014;&#0;".toList "&a<\u2014&#0;".toList := by
  have noPlus : ¬ HasPlus "&a&lt;&#x2014;&#0;".toList := by decide +kernel
  have decoded : decode "&a&lt;&#x2014;&#0;".toList = "&a<\u2014&#0;".toList := by
    decide +kernel
  exact ⟨noPlus, decoded, ((decode_rewrites _ _).2 noPlus).1 decoded⟩

/-- No well-formed reference has a plus sign before its digits. -/
theorem not_begins_plus (rest : List Char) (character : Char) (after : List Char) :
    ¬ Begins unsigned ('#' :: '+' :: rest) character after := by
  rintro ⟨body, whole, _, _, _, denotes⟩
  have spelled := denotes.ne_nil
  cases denotes with
  | named listed =>
      -- No name begins with a number sign.
      have table : ∀ entry ∈ Reference.named, entry.1.toList.head? ≠ some '#' := by decide
      apply table _ listed
      rw [← List.head?_append_of_ne_nil _ spelled, ← whole]
      rfl
  | numeric mark marked signed nonempty writes _ =>
      obtain rfl := List.mem_singleton.1 signed
      obtain ⟨first, others, rfl⟩ := List.exists_cons_of_ne_nil nonempty
      simp only [bases, List.mem_cons, Prod.mk.injEq, List.not_mem_nil, or_false] at marked
      rcases marked with ⟨rfl, rfl⟩ | ⟨rfl, rfl⟩ | ⟨rfl, rfl⟩
      · obtain ⟨rfl, _⟩ := List.cons.inj (List.cons.inj whole).2
        exact writes.head_ne (by decide) '+' rfl List.mem_cons_self
      · exact absurd (List.cons.inj (List.cons.inj whole).2).1 (by decide)
      · exact absurd (List.cons.inj (List.cons.inj whole).2).1 (by decide)

/-- A number with a plus sign is decoded, though no well-formed reference begins there and the text
should stay as it is. -/
theorem not_rewrites_plus :
    ¬ Rewrites unsigned "&#+65;".toList (decode "&#+65;".toList) ∧
      Rewrites unsigned "&#+65;".toList "&#+65;".toList := by
  have text : "&#+65;".toList = ['&', '#', '+', '6', '5', ';'] := by decide
  have decoded : decode ['&', '#', '+', '6', '5', ';'] = ['A'] := by decide +kernel
  rw [text, decoded]
  constructor
  · intro rewrites
    cases rewrites with
    | replace begins _ => exact not_begins_plus _ _ _ begins
  · refine .keepAmpersand (not_begins_plus _) ?_
    exact rewrites_self (by decide)

end Rewriting

end MarkupTemplate.Reference
