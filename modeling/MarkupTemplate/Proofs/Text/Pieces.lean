import Mathlib.Data.List.Basic
import MarkupTemplate.Text.Search

/-!
# Pieces around a separator

A separator whose first character does not occur in it again cannot overlap itself.  Then wherever
it stands in a text the text is cut there, whatever is around it; and a text that consists of as
many parts as it has pieces, with the separator between them, has just these parts as its pieces.
-/

namespace MarkupTemplate.Text

/-- The first character of the separator does not occur in it again. -/
def StartsUniquely (separator : List Char) : Prop :=
  ∃ first rest, separator = first :: rest ∧ first ∉ rest

variable {separator : List Char}

theorem StartsUniquely.ne_nil (unique : StartsUniquely separator) : separator ≠ [] := by
  obtain ⟨first, rest, rfl, _⟩ := unique
  exact List.cons_ne_nil first rest

/-- A separator that begins before the place where another one stands does not reach into it. -/
theorem StartsUniquely.prefix_of_append (unique : StartsUniquely separator)
    {text after : List Char} (nonempty : text ≠ [])
    (leads : separator <+: text ++ (separator ++ after)) : separator <+: text := by
  obtain ⟨first, rest, shape, fresh⟩ := unique
  obtain ⟨remaining, whole⟩ := leads
  rcases List.append_eq_append_iff.1 whole with ⟨between, within, _⟩ | ⟨overlap, split, meets⟩
  · exact ⟨between, within.symm⟩
  · cases overlap with
    | nil =>
        rw [List.append_nil] at split
        exact ⟨[], by rw [split, List.append_nil]⟩
    | cons character others =>
        obtain ⟨head, tail, rfl⟩ := List.exists_cons_of_ne_nil nonempty
        rw [shape, List.cons_append, List.cons.injEq] at split
        rw [shape, List.cons_append, List.cons_append, List.cons.injEq] at meets
        refine absurd ?_ fresh
        rw [split.2, meets.1]
        exact List.mem_append_right _ List.mem_cons_self

/-! ## Texts without the separator -/

/-- Before the first place of the separator there is none. -/
theorem not_infix_of_splitFirst? (nonempty : separator ≠ []) {text before after : List Char}
    (cut : splitFirst? separator.isPrefixOf text = some (before, after)) :
    ¬ separator <:+: before := by
  rintro ⟨ahead, behind, shape⟩
  obtain ⟨whole, _, earliest⟩ := splitFirst?_eq_some_iff.1 cut
  have positive := List.length_pos_iff.2 nonempty
  have within : ahead.length < before.length := by
    rw [← shape, List.length_append, List.length_append]
    omega
  have found := earliest ahead.length within
  rw [whole, ← shape, List.append_assoc, List.append_assoc, List.drop_left,
    List.isPrefixOf_iff_prefix.2 (List.prefix_append _ _)] at found
  contradiction

theorem not_infix_of_splitFirst?_eq_none {text : List Char}
    (uncut : splitFirst? separator.isPrefixOf text = none) : ¬ separator <:+: text := by
  rintro ⟨ahead, behind, shape⟩
  have within : ahead.length ≤ text.length := by
    rw [← shape, List.length_append, List.length_append]
    omega
  have found := splitFirst?_eq_none_iff.1 uncut ahead.length within
  rw [← shape, List.append_assoc, List.drop_left,
    List.isPrefixOf_iff_prefix.2 (List.prefix_append _ _)] at found
  contradiction

/-- The separator stands in none of the pieces. -/
theorem not_infix_of_mem_pieces (nonempty : separator ≠ []) {text piece : List Char}
    (member : piece ∈ pieces separator text) : ¬ separator <:+: piece := by
  fun_induction pieces separator text with
  | case1 text empty => exact absurd empty nonempty
  | case2 text _ uncut =>
      rw [List.mem_singleton] at member
      exact member ▸ not_infix_of_splitFirst?_eq_none uncut
  | case3 text _ before after cut inductionHypothesis =>
      rcases List.mem_cons.1 member with rfl | later
      · exact not_infix_of_splitFirst? nonempty cut
      · exact inductionHypothesis later

/-! ## Cutting at a separator -/

theorem pieces_of_splitFirst?_eq_none {text : List Char}
    (uncut : splitFirst? separator.isPrefixOf text = none) : pieces separator text = [text] := by
  rw [pieces]
  split
  · rfl
  · split
    · rfl
    · rename_i found
      rw [found] at uncut
      contradiction

theorem pieces_of_splitFirst?_eq_some (nonempty : separator ≠ [])
    {text before after : List Char}
    (cut : splitFirst? separator.isPrefixOf text = some (before, after)) :
    pieces separator text = before :: pieces separator (after.drop separator.length) := by
  rw [pieces, dif_neg nonempty]
  split
  · rename_i uncut
    rw [uncut] at cut
    contradiction
  · rename_i earlier remaining found
    rw [found, Option.some.injEq, Prod.mk.injEq] at cut
    rw [cut.1, cut.2]

/-- The first cut of a text is the same when a separator and more text follow. -/
theorem StartsUniquely.splitFirst?_append (unique : StartsUniquely separator)
    {before after : List Char} (more : List Char)
    (leads : separator <+: after ++ (separator ++ more))
    (earliest : ∀ skipped < before.length,
      separator.isPrefixOf ((before ++ after).drop skipped) = false) :
    splitFirst? separator.isPrefixOf (before ++ after ++ (separator ++ more)) =
      some (before, after ++ (separator ++ more)) := by
  refine splitFirst?_eq_some_iff.2
    ⟨List.append_assoc _ _ _, List.isPrefixOf_iff_prefix.2 leads, ?_⟩
  intro skipped within
  have long : skipped < (before ++ after).length := by
    rw [List.length_append]
    omega
  rw [List.drop_append_of_le_length (Nat.le_of_lt long), Bool.eq_false_iff]
  intro found
  have nonempty : (before ++ after).drop skipped ≠ [] := by
    rw [ne_eq, List.drop_eq_nil_iff]
    omega
  have inside := unique.prefix_of_append nonempty (List.isPrefixOf_iff_prefix.1 found)
  rw [← List.isPrefixOf_iff_prefix, earliest skipped within] at inside
  contradiction

/-- A text is cut wherever the separator stands in it. -/
theorem StartsUniquely.pieces_append (unique : StartsUniquely separator)
    (text more : List Char) :
    pieces separator (text ++ (separator ++ more)) =
      pieces separator text ++ pieces separator more := by
  fun_induction pieces separator text with
  | case1 text empty => exact absurd empty unique.ne_nil
  | case2 text nonempty uncut =>
      have nowhere : ∀ skipped < text.length,
          separator.isPrefixOf ((text ++ []).drop skipped) = false := by
        intro skipped within
        rw [List.append_nil]
        exact splitFirst?_eq_none_iff.1 uncut skipped (Nat.le_of_lt within)
      have cut := unique.splitFirst?_append more (List.prefix_append separator more) nowhere
      rw [List.append_nil, List.nil_append] at cut
      rw [pieces_of_splitFirst?_eq_some nonempty cut, List.drop_left]
      rfl
  | case3 text nonempty before after cut inductionHypothesis =>
      obtain ⟨rfl, holds, earliest⟩ := splitFirst?_eq_some_iff.1 cut
      have leads := List.isPrefixOf_iff_prefix.1 holds
      have found := unique.splitFirst?_append more
        (List.prefix_append_of_prefix leads) earliest
      rw [pieces_of_splitFirst?_eq_some nonempty found,
        List.drop_append_of_le_length leads.length_le, inductionHypothesis]
      rfl

/-! ## Parts of a text -/

theorem pieces_intercalate (unique : StartsUniquely separator) {parts : List (List Char)}
    (nonempty : parts ≠ []) :
    pieces separator (separator.intercalate parts) = parts.flatMap (pieces separator) := by
  induction parts with
  | nil => exact absurd rfl nonempty
  | cons part others inductionHypothesis =>
      cases others with
      | nil => simp
      | cons next rest =>
          rw [List.intercalate_cons_cons, List.append_assoc, unique.pieces_append,
            inductionHypothesis (List.cons_ne_nil _ _)]
          rfl

theorem pieces_eq_singleton {text : List Char} (single : (pieces separator text).length = 1) :
    pieces separator text = [text] := by
  obtain ⟨piece, shape⟩ := List.length_eq_one_iff.1 single
  have whole := intercalate_pieces separator text
  rw [shape, List.intercalate_singleton] at whole
  rw [shape, whole]

theorem length_le_length_flatMap_pieces (separator : List Char) (parts : List (List Char)) :
    parts.length ≤ (parts.flatMap (pieces separator)).length := by
  induction parts with
  | nil => exact Nat.le_refl 0
  | cons part others inductionHypothesis =>
      have positive := List.length_pos_iff.2 (pieces_ne_nil separator part)
      rw [List.flatMap_cons, List.length_append, List.length_cons]
      omega

theorem flatMap_pieces_eq {parts : List (List Char)}
    (length : (parts.flatMap (pieces separator)).length = parts.length) :
    parts.flatMap (pieces separator) = parts := by
  induction parts with
  | nil => rfl
  | cons part others inductionHypothesis =>
      have positive := List.length_pos_iff.2 (pieces_ne_nil separator part)
      have least := length_le_length_flatMap_pieces separator others
      rw [List.flatMap_cons, List.length_append, List.length_cons] at length
      rw [List.flatMap_cons, pieces_eq_singleton (by omega),
        inductionHypothesis (by omega), List.singleton_append]

/-- If a text has as many pieces as there are parts that make it up, the parts are the pieces. -/
theorem pieces_eq_of_intercalate (unique : StartsUniquely separator) {text : List Char}
    {parts : List (List Char)} (nonempty : parts ≠ [])
    (whole : separator.intercalate parts = text)
    (length : (pieces separator text).length = parts.length) : pieces separator text = parts := by
  rw [← whole, pieces_intercalate unique nonempty] at length ⊢
  exact flatMap_pieces_eq length

/-! ## How many pieces there are -/

theorem intercalate_append_cons (separator ahead part : List Char) (rest : List (List Char)) :
    separator.intercalate ((ahead ++ part) :: rest) =
      ahead ++ separator.intercalate (part :: rest) := by
  cases rest with
  | nil => simp
  | cons next others => simp [List.intercalate_cons_cons]

/-- Where the separator stands in a part, the part can be taken for two. -/
theorem intercalate_split (separator ahead behind : List Char) (earlier later : List (List Char)) :
    separator.intercalate (earlier ++ ahead :: behind :: later) =
      separator.intercalate (earlier ++ (ahead ++ separator ++ behind) :: later) := by
  induction earlier with
  | nil =>
      rw [List.nil_append, List.nil_append, List.intercalate_cons_cons, ← intercalate_append_cons]
  | cons first others inductionHypothesis =>
      rw [List.cons_append, List.cons_append, List.intercalate_cons_of_ne_nil (by simp),
        List.intercalate_cons_of_ne_nil (by simp), inductionHypothesis]

/-- Wherever the separator stands, the first cut is not behind it. -/
theorem exists_between_of_splitFirst? {text before after first rest : List Char}
    (cut : splitFirst? separator.isPrefixOf text = some (before, after))
    (whole : first ++ (separator ++ rest) = text) :
    ∃ between, first = before ++ between ∧ after = between ++ (separator ++ rest) := by
  obtain ⟨split, _, earliest⟩ := splitFirst?_eq_some_iff.1 cut
  rw [split] at whole
  rcases List.append_eq_append_iff.1 whole with
    ⟨skipped, longer, meets⟩ | ⟨between, shape, meets⟩
  · cases skipped with
    | nil =>
        rw [List.append_nil] at longer
        exact ⟨[], by rw [longer, List.append_nil], meets.symm⟩
    | cons character others =>
        have found := earliest first.length (by rw [longer]; simp)
        rw [split, ← whole, List.drop_left,
          List.isPrefixOf_iff_prefix.2 (List.prefix_append _ _)] at found
        contradiction
  · exact ⟨between, shape, meets⟩

/-- Cutting at the leftmost separators makes at least as many pieces as any other way to write the
text as parts with the separator between them. -/
theorem length_le_length_pieces (nonempty : separator ≠ []) {text : List Char}
    {parts : List (List Char)} (whole : separator.intercalate parts = text) :
    parts.length ≤ (pieces separator text).length := by
  fun_induction pieces separator text generalizing parts with
  | case1 text empty => exact absurd empty nonempty
  | case2 text _ uncut =>
      rcases parts with _ | ⟨first, _ | ⟨next, rest⟩⟩
      · exact Nat.zero_le _
      · exact Nat.le_refl _
      · rw [List.intercalate_cons_cons] at whole
        exact absurd ⟨first, _, whole⟩ (not_infix_of_splitFirst?_eq_none uncut)
  | case3 text _ before after cut inductionHypothesis =>
      rcases parts with _ | ⟨first, _ | ⟨next, rest⟩⟩
      · exact Nat.zero_le _
      · exact Nat.succ_le_succ (Nat.zero_le _)
      · rw [List.intercalate_cons_cons, List.append_assoc] at whole
        obtain ⟨between, _, remaining⟩ := exists_between_of_splitFirst? cut whole
        -- what the first cut leaves of the first two parts goes into one part
        have onward : after.drop separator.length =
            separator.intercalate
              (((between ++ separator).drop separator.length ++ next) :: rest) := by
          rw [intercalate_append_cons, remaining, ← List.append_assoc,
            List.drop_append_of_le_length (by simp)]
        have least := inductionHypothesis onward.symm
        rw [List.length_cons] at least
        simp only [List.length_cons]
        exact Nat.succ_le_succ least

/-- A part that the separator stands in makes one more piece. -/
theorem length_lt_length_pieces (nonempty : separator ≠ []) {parts : List (List Char)}
    {part : List Char} (member : part ∈ parts) (inside : separator <:+: part) :
    parts.length < (pieces separator (separator.intercalate parts)).length := by
  obtain ⟨earlier, later, rfl⟩ := List.append_of_mem member
  obtain ⟨ahead, behind, rfl⟩ := inside
  have least := length_le_length_pieces nonempty
    (intercalate_split separator ahead behind earlier later)
  simp only [List.length_append, List.length_cons] at least ⊢
  omega

theorem length_separatorPositions (width start : Nat) (pieces : List (List Char)) :
    (separatorPositions width start pieces).length = pieces.length - 1 := by
  induction pieces generalizing start with
  | nil => rfl
  | cons piece others inductionHypothesis =>
      cases others with
      | nil => rfl
      | cons next rest =>
          rw [separatorPositions, List.length_cons, inductionHypothesis]
          rfl

theorem length_pieces (separator text : List Char) :
    (pieces separator text).length = (occurrences separator text).length + 1 := by
  have positive := List.length_pos_iff.2 (pieces_ne_nil separator text)
  rw [occurrences, length_separatorPositions]
  omega

theorem length_occurrences_le (nonempty : separator ≠ []) (text : List Char) :
    (occurrences separator text).length ≤ text.length := by
  have few : (pieces separator text).length ≤ text.length + 1 := by
    fun_induction pieces separator text with
    | case1 => simp
    | case2 => simp
    | case3 text _ before after cut inductionHypothesis =>
        have shorter := length_drop_separator_lt nonempty cut
        rw [List.length_cons]
        omega
  rw [length_pieces] at few
  exact Nat.le_of_succ_le_succ few

end MarkupTemplate.Text
