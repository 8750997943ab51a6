/-!
# Byte positions in a text

Positions in markup are counted in bytes of the UTF-8 encoding.  A text itself is a list of
characters; this module measures such a list and cuts it at a byte position, which succeeds only
between two characters.
-/

namespace MarkupTemplate.Text

/-- The number of bytes that the text takes in UTF-8. -/
def byteSize : List Char → Nat
  | [] => 0
  | character :: rest => character.utf8Size + byteSize rest

@[simp]
theorem byteSize_nil : byteSize [] = 0 := rfl

@[simp]
theorem byteSize_cons (character : Char) (rest : List Char) :
    byteSize (character :: rest) = character.utf8Size + byteSize rest := rfl

@[simp]
theorem byteSize_append (left right : List Char) :
    byteSize (left ++ right) = byteSize left + byteSize right := by
  induction left with
  | nil => simp
  | cons character rest inductionHypothesis => simp [inductionHypothesis, Nat.add_assoc]

/-- Cut the text before the character that begins at the byte position; there is no such cut
inside a character or past the end. -/
def splitAtByte? : Nat → List Char → Option (List Char × List Char)
  | 0, text => some ([], text)
  | _ + 1, [] => none
  | position + 1, character :: rest =>
      if character.utf8Size ≤ position + 1 then
        (splitAtByte? (position + 1 - character.utf8Size) rest).map fun (before, after) =>
          (character :: before, after)
      else
        none

/-- A cut loses nothing and leaves exactly the given number of bytes before it. -/
theorem splitAtByte?_eq_some_iff {position : Nat} {text before after : List Char} :
    splitAtByte? position text = some (before, after) ↔
      text = before ++ after ∧ byteSize before = position := by
  induction text generalizing position before with
  | nil =>
    cases position with
    | zero => cases before <;> simp [splitAtByte?, eq_comm]
    | succ position => cases before <;> simp [splitAtByte?]
  | cons character rest inductionHypothesis =>
    have positive := character.utf8Size_pos
    cases position with
    | zero =>
      cases before with
      | nil => simp [splitAtByte?, eq_comm]
      | cons first others =>
        simp only [splitAtByte?, Option.some.injEq, Prod.mk.injEq, List.nil_eq, reduceCtorEq,
          false_and, byteSize_cons, false_iff, not_and]
        have := first.utf8Size_pos
        omega
    | succ position =>
      simp only [splitAtByte?]
      split
      · rename_i fits
        simp only [Option.map_eq_some_iff, Prod.mk.injEq, Prod.exists]
        constructor
        · rintro ⟨others, remaining, found, rfl, rfl⟩
          obtain ⟨rfl, size⟩ := inductionHypothesis.1 found
          simp [size]
          omega
        · rintro ⟨whole, size⟩
          cases before with
          | nil => simp at size
          | cons first others =>
            simp only [List.cons_append, List.cons.injEq] at whole
            obtain ⟨rfl, rfl⟩ := whole
            refine ⟨others, after, inductionHypothesis.2 ⟨rfl, ?_⟩, rfl, rfl⟩
            simp only [byteSize_cons] at size
            omega
      · rename_i tooLarge
        simp only [reduceCtorEq, false_iff, not_and]
        intro whole size
        cases before with
        | nil => simp at size
        | cons first others =>
          simp only [List.cons_append, List.cons.injEq] at whole
          obtain ⟨rfl, _⟩ := whole
          simp only [byteSize_cons] at size
          omega

end MarkupTemplate.Text
