import MarkupTemplate.Text.Bytes

/-!
# Searching a text

A search looks for the first place where what is still to be read has some property, and returns
the text before that place together with the text from it on.  Repeating the search for a fixed
separator cuts a text into the pieces between the separator's occurrences, leftmost first and
without overlaps; joining the pieces with the separator gives the text back.
-/

namespace MarkupTemplate.Text

/-! ## The first place with a property -/

/-- Cut the text at the first place from which the remaining text has the property. -/
def splitFirst? (holds : List Char → Bool) : List Char → Option (List Char × List Char)
  | [] => if holds [] then some ([], []) else none
  | character :: rest =>
      if holds (character :: rest) then
        some ([], character :: rest)
      else
        (splitFirst? holds rest).map fun (before, after) => (character :: before, after)

/-- The cut found loses nothing, has the property, and no earlier place has it. -/
theorem splitFirst?_eq_some_iff {holds : List Char → Bool} {text before after : List Char} :
    splitFirst? holds text = some (before, after) ↔
      text = before ++ after ∧ holds after = true ∧
        ∀ skipped < before.length, holds (text.drop skipped) = false := by
  induction text generalizing before with
  | nil =>
    cases before with
    | nil =>
      cases found : holds [] with
      | true =>
        simp only [splitFirst?, found, ↓reduceIte, Option.some.injEq, Prod.mk.injEq, true_and,
          List.nil_append, List.length_nil, Nat.not_lt_zero, false_implies, implies_true, and_true]
        constructor
        · rintro rfl
          exact ⟨rfl, found⟩
        · exact fun whole => whole.1
      | false =>
        simp only [splitFirst?, found, Bool.false_eq_true, ↓reduceIte, reduceCtorEq,
          List.nil_append, false_iff, not_and]
        rintro rfl foundAfter
        rw [found] at foundAfter
        contradiction
    | cons first others =>
      simp only [splitFirst?, List.cons_append, reduceCtorEq, false_and, iff_false]
      split <;> simp
  | cons character rest inductionHypothesis =>
    simp only [splitFirst?]
    cases found : holds (character :: rest) with
    | true =>
      simp only [↓reduceIte, Option.some.injEq, Prod.mk.injEq]
      constructor
      · rintro ⟨rfl, rfl⟩
        simp [found]
      · rintro ⟨whole, _, earliest⟩
        cases before with
        | nil => simpa using whole
        | cons first others =>
          have contradiction := earliest 0 (by simp)
          simp [found] at contradiction
    | false =>
      simp only [Bool.false_eq_true, ↓reduceIte, Option.map_eq_some_iff, Prod.mk.injEq,
        Prod.exists]
      constructor
      · rintro ⟨others, remaining, cut, rfl, rfl⟩
        obtain ⟨rfl, foundAfter, earliest⟩ := inductionHypothesis.1 cut
        refine ⟨rfl, foundAfter, ?_⟩
        intro skipped within
        cases skipped with
        | zero => simpa using found
        | succ skipped =>
          simpa using earliest skipped (by simpa using within)
      · rintro ⟨whole, foundAfter, earliest⟩
        cases before with
        | nil =>
          simp only [List.nil_append] at whole
          rw [← whole, found] at foundAfter
          contradiction
        | cons first others =>
          simp only [List.cons_append, List.cons.injEq] at whole
          obtain ⟨rfl, rfl⟩ := whole
          refine ⟨others, after, inductionHypothesis.2 ⟨rfl, foundAfter, ?_⟩, rfl, rfl⟩
          intro skipped within
          simpa using earliest (skipped + 1) (by simpa using within)

theorem splitFirst?_eq_none_iff {holds : List Char → Bool} {text : List Char} :
    splitFirst? holds text = none ↔
      ∀ skipped ≤ text.length, holds (text.drop skipped) = false := by
  induction text with
  | nil => simp [splitFirst?]
  | cons character rest inductionHypothesis =>
    simp only [splitFirst?]
    cases found : holds (character :: rest) with
    | true =>
      simp only [↓reduceIte, reduceCtorEq, false_iff]
      intro nowhere
      have contradiction := nowhere 0 (Nat.zero_le _)
      simp [found] at contradiction
    | false =>
      simp only [Bool.false_eq_true, ↓reduceIte, Option.map_eq_none_iff, inductionHypothesis]
      constructor
      · intro later skipped within
        cases skipped with
        | zero => exact found
        | succ skipped => exact later skipped (Nat.le_of_succ_le_succ within)
      · intro nowhere skipped within
        exact nowhere (skipped + 1) (Nat.succ_le_succ within)

theorem append_of_splitFirst? {holds : List Char → Bool} {text before after : List Char}
    (cut : splitFirst? holds text = some (before, after)) :
    before ++ after = text :=
  (splitFirst?_eq_some_iff.1 cut).1.symm

theorem holds_of_splitFirst? {holds : List Char → Bool} {text before after : List Char}
    (cut : splitFirst? holds text = some (before, after)) :
    holds after = true :=
  (splitFirst?_eq_some_iff.1 cut).2.1

/-- A search goes over a lead if it stops nowhere inside of it. -/
theorem splitFirst?_append_of_passed {holds : List Char → Bool} {lead text : List Char}
    (passed : ∀ skipped < lead.length, holds ((lead ++ text).drop skipped) = false) :
    splitFirst? holds (lead ++ text) =
      (splitFirst? holds text).map fun (before, after) => (lead ++ before, after) := by
  induction lead with
  | nil => simp
  | cons first others inductionHypothesis =>
      have here : holds (first :: (others ++ text)) = false := passed 0 (Nat.succ_pos _)
      have behind : ∀ skipped < others.length, holds ((others ++ text).drop skipped) = false :=
        fun skipped within => passed (skipped + 1) (Nat.succ_lt_succ within)
      rw [List.cons_append, splitFirst?, here, inductionHypothesis behind]
      simp only [Bool.false_eq_true, ↓reduceIte, Option.map_map]
      rfl

/-- A search goes over characters that it never stops before. -/
theorem splitFirst?_append {holds : List Char → Bool} {lead : List Char}
    (passes : ∀ first ∈ lead, ∀ rest, holds (first :: rest) = false) (text : List Char) :
    splitFirst? holds (lead ++ text) =
      (splitFirst? holds text).map fun (before, after) => (lead ++ before, after) := by
  refine splitFirst?_append_of_passed fun skipped within => ?_
  rw [List.drop_append_of_le_length (Nat.le_of_lt within), List.drop_eq_getElem_cons within]
  exact passes _ (List.getElem_mem within) _

/-! ## Pieces between separators -/

theorem length_drop_separator_lt {separator text before after : List Char}
    (nonempty : separator ≠ [])
    (cut : splitFirst? separator.isPrefixOf text = some (before, after)) :
    (after.drop separator.length).length < text.length := by
  have whole := append_of_splitFirst? cut
  have leads := List.isPrefixOf_iff_prefix.1 (holds_of_splitFirst? cut)
  have short := leads.length_le
  have positive : 0 < separator.length := List.length_pos_iff.2 nonempty
  rw [← whole]
  simp only [List.length_drop, List.length_append]
  omega

/-- The pieces of the text between the leftmost occurrences of the separator that do not overlap.
There is one piece more than there are occurrences, and an empty separator occurs nowhere. -/
def pieces (separator text : List Char) : List (List Char) :=
  if _nonempty : separator = [] then
    [text]
  else
    match _cut : splitFirst? separator.isPrefixOf text with
    | none => [text]
    | some (before, after) => before :: pieces separator (after.drop separator.length)
  termination_by text.length
  decreasing_by exact length_drop_separator_lt _nonempty _cut

theorem pieces_ne_nil (separator text : List Char) : pieces separator text ≠ [] := by
  unfold pieces
  split
  · simp
  · split <;> simp

/-- Joining the pieces with the separator restores the text. -/
theorem intercalate_pieces (separator text : List Char) :
    separator.intercalate (pieces separator text) = text := by
  fun_induction pieces separator text with
  | case1 => simp [List.intercalate]
  | case2 => simp [List.intercalate]
  | case3 text nonempty before after cut inductionHypothesis =>
    obtain ⟨rest, leads⟩ := List.isPrefixOf_iff_prefix.1 (holds_of_splitFirst? cut)
    have whole := append_of_splitFirst? cut
    obtain ⟨first, others, shape⟩ :=
      List.exists_cons_of_ne_nil (pieces_ne_nil separator (after.drop separator.length))
    rw [shape] at inductionHypothesis ⊢
    rw [List.intercalate_cons_cons, inductionHypothesis, ← whole, ← leads]
    simp

/-- Byte positions of the separators that stand between the pieces. -/
def separatorPositions (width : Nat) : Nat → List (List Char) → List Nat
  | start, piece :: next :: rest =>
      let position := start + byteSize piece
      position :: separatorPositions width (position + width) (next :: rest)
  | _, _ => []

/-- Byte positions of the leftmost occurrences of the separator that do not overlap. -/
def occurrences (separator text : List Char) : List Nat :=
  separatorPositions (byteSize separator) 0 (pieces separator text)

end MarkupTemplate.Text
