import Mathlib.Data.List.Infix
import Mathlib.Data.List.TakeWhile
import MarkupTemplate.Proofs.Markup.Writable
import MarkupTemplate.Proofs.Text.Pieces
import MarkupTemplate.Text.Scan

/-!
# Scans of written markup

The scans find in written markup what was written: a name ends where its tag goes on, a closing
bracket between quotes is passed over, a comment ends at its end, and the content of a raw element
reaches to the closing tag that was written for it.
-/

namespace MarkupTemplate.Text

/-! ## Names -/

/-- No name goes on with this text. -/
def EndsName (rest : List Char) : Prop :=
  ∀ character ∈ rest.head?, isNameCharacter character = false

theorem takeWhile_append_of_all {accepts : Char → Bool} {text : List Char} (rest : List Char)
    (all : ∀ character ∈ text, accepts character = true)
    (stops : ∀ character ∈ rest.head?, accepts character = false) :
    (text ++ rest).takeWhile accepts = text ∧ (text ++ rest).dropWhile accepts = rest := by
  induction text with
  | nil =>
      cases rest with
      | nil => exact ⟨rfl, rfl⟩
      | cons character others =>
          have refused := stops character rfl
          simp [refused]
  | cons character others inductionHypothesis =>
      rw [List.forall_mem_cons] at all
      obtain ⟨taken, left⟩ := inductionHypothesis all.2
      rw [List.cons_append, List.takeWhile_cons_of_pos all.1, List.dropWhile_cons_of_pos all.1,
        taken, left]
      exact ⟨rfl, rfl⟩

theorem splitName?_append {name rest : List Char} (isName : IsName name)
    (ends : EndsName rest) : splitName? (name ++ rest) = some (name, rest) := by
  cases name with
  | nil => exact isName.elim
  | cons first others =>
      obtain ⟨taken, left⟩ := takeWhile_append_of_all rest isName.2 ends
      rw [List.cons_append, splitName?, if_pos isName.1, taken, left]

theorem isName_of_splitName? {text name rest : List Char}
    (read : splitName? text = some (name, rest)) : IsName name := by
  cases text with
  | nil => simp [splitName?] at read
  | cons character others =>
      rw [splitName?] at read
      split at read
      · rename_i opens
        simp only [Option.some.injEq, Prod.mk.injEq] at read
        rw [← read.1]
        exact ⟨opens, fun other member => List.mem_takeWhile_imp member⟩
      · contradiction

theorem IsName.isEmpty {name : List Char} (isName : IsName name) : name.isEmpty = false := by
  cases name with
  | nil => exact isName.elim
  | cons first others => rfl

theorem IsName.lessThan_not_mem {name : List Char} (isName : IsName name) : '<' ∉ name := by
  cases name with
  | nil => exact isName.elim
  | cons first others =>
      intro member
      have continues : isNameCharacter '<' = true := by
        rcases List.mem_cons.1 member with same | later
        · rw [same]
          exact isNameCharacter_of_isNameStart isName.1
        · exact isName.2 _ later
      revert continues
      decide

/-! ## Where tags end -/

/-- Scanning passes over the text, from one state of quotes to another. -/
def PassesTo (openQuote : Option Char) (text : List Char) (closing : Option Char) : Prop :=
  ∀ rest, splitTagEndWithin? openQuote (text ++ rest) =
    (splitTagEndWithin? closing rest).map fun (before, after) => (text ++ before, after)

variable {openQuote middle closing : Option Char} {text : List Char}

theorem passesTo_nil : PassesTo openQuote [] openQuote := by
  intro rest
  simp

theorem PassesTo.append {more : List Char} (first : PassesTo openQuote text middle)
    (second : PassesTo middle more closing) : PassesTo openQuote (text ++ more) closing := by
  intro rest
  rw [List.append_assoc, first, second, Option.map_map]
  congr 1
  funext halves
  simp

theorem passesTo_singleton {character : Char}
    (noEnd : (openQuote.isNone && character == '>') = false) :
    PassesTo openQuote [character] (nextQuote openQuote character) := by
  intro rest
  rw [List.singleton_append, splitTagEndWithin?, noEnd]
  rfl

theorem passesTo_of_all (steps : ∀ character ∈ text,
    (openQuote.isNone && character == '>') = false ∧ nextQuote openQuote character = openQuote) :
    PassesTo openQuote text openQuote := by
  induction text with
  | nil => exact passesTo_nil
  | cons character rest inductionHypothesis =>
      rw [List.forall_mem_cons] at steps
      have first := passesTo_singleton steps.1.1
      rw [steps.1.2] at first
      exact first.append (inductionHypothesis steps.2)

theorem splitTagEnd?_of_passesTo (passes : PassesTo none text none) (rest : List Char) :
    splitTagEnd? (text ++ '>' :: rest) = some (text, rest) := by
  unfold splitTagEnd?
  rw [passes]
  simp [splitTagEndWithin?]

/-! ## Where comments end -/

theorem splitFirst?_commentEnd {content : List Char}
    (closed : ¬ ['-', '-', '>'] <:+: content) (rest : List Char) :
    splitFirst? ['-', '-', '>'].isPrefixOf (content ++ ['-', '-', '>'] ++ rest) =
      some (content, ['-', '-', '>'] ++ rest) := by
  refine splitFirst?_eq_some_iff.2 ⟨by simp, by simp, ?_⟩
  intro skipped within
  rw [← Bool.not_eq_true, List.isPrefixOf_iff_prefix]
  rintro ⟨following, leads⟩
  rw [List.append_assoc, List.drop_append_of_le_length (Nat.le_of_lt within)] at leads
  have split : content = content.take skipped ++ content.drop skipped :=
    (List.take_append_drop skipped content).symm
  have positive : 0 < (content.drop skipped).length := by
    rw [List.length_drop]
    omega
  match tail : content.drop skipped with
  | [] => simp [tail] at positive
  | [only] => simp [tail] at leads
  | [first, second] => simp [tail] at leads
  | first :: second :: third :: others =>
      rw [tail] at leads split
      simp only [List.cons_append, List.nil_append, List.cons.injEq] at leads
      obtain ⟨rfl, rfl, rfl, _⟩ := leads
      exact closed ⟨content.take skipped, others, by simpa using split.symm⟩

/-! ## Closing tags -/

/-- The name of a closing tag ends in front of the text: a blank, a closing bracket, a slash or
nothing follows. -/
def ClosesName (rest : List Char) : Prop :=
  ∀ character ∈ rest.head?, isBlank character = true ∨ character = '>' ∨ character = '/'

theorem endsClosingName_iff {rest : List Char} :
    endsClosingName rest = true ↔ ClosesName rest := by
  cases rest with
  | nil => simp [endsClosingName, ClosesName]
  | cons first others => simp [endsClosingName, ClosesName, or_assoc]

theorem ClosesName.endsName {rest : List Char} (closes : ClosesName rest) : EndsName rest := by
  intro character isFirst
  rcases closes character isFirst with blank | rfl | rfl
  · simp [isNameCharacter, blank]
  · decide
  · decide

theorem length_eq_of_agree {left right : List Char} (agree : agreeIgnoringCase left right = true) :
    left.length = right.length := by
  have same := congrArg List.length (agreeIgnoringCase_iff.1 agree)
  rwa [List.length_map, List.length_map] at same

theorem startsClosingTag_iff_exists {name text : List Char} :
    startsClosingTag name text = true ↔
      ∃ spelled after, text = '<' :: '/' :: (spelled ++ after) ∧
        agreeIgnoringCase name spelled = true ∧ ClosesName after := by
  constructor
  · intro starts
    unfold startsClosingTag at starts
    split at starts
    · rename_i rest
      rw [Bool.and_eq_true, endsClosingName_iff] at starts
      exact ⟨rest.take name.length, rest.drop name.length, by rw [List.take_append_drop],
        starts.1, starts.2⟩
    · contradiction
  · rintro ⟨spelled, after, rfl, agree, closes⟩
    rw [startsClosingTag, length_eq_of_agree agree, List.take_left, List.drop_left, agree,
      endsClosingName_iff.2 closes]
    rfl

/-! ## Where raw content ends -/

theorem eq_lessThan_of_toLower {character : Char} (lower : character.toLower = '<') :
    character = '<' := by
  unfold Char.toLower at lower
  split at lower
  · rename_i upper
    have code : character.val + ('a'.val - 'A'.val) = '<'.val := congrArg Char.val lower
    have bracket : '<'.val = 60 := by decide
    have shift : 'a'.val - 'A'.val = 32 := by decide
    rw [shift, bracket] at code
    have same : character.val = 28 := by grind
    rw [same] at upper
    exact absurd upper (by decide)
  · exact lower

theorem lessThan_mem_of_agree {name text : List Char} (agree : agreeIgnoringCase name text = true)
    (member : '<' ∈ text) : '<' ∈ name := by
  rw [agreeIgnoringCase_iff] at agree
  have lower : '<' ∈ name.map Char.toLower := by
    rw [agree]
    exact List.mem_map.2 ⟨'<', member, by decide⟩
  obtain ⟨character, inName, same⟩ := List.mem_map.1 lower
  rwa [eq_lessThan_of_toLower same] at inName

/-- A closing tag that begins before an angle bracket ends before it. -/
theorem startsClosingTag_append {name text more : List Char} (free : '<' ∉ name)
    (nonempty : text ≠ []) : startsClosingTag name (text ++ '<' :: more) =
      (startsClosingTag name text && decide (name.length + 2 < text.length)) := by
  match text with
  | [] => contradiction
  | [only] =>
      by_cases bracket : only = '<' <;> simp [startsClosingTag, bracket]
  | first :: second :: rest =>
      by_cases opens : first = '<' ∧ second = '/'
      · obtain ⟨rfl, rfl⟩ := opens
        simp only [List.cons_append, startsClosingTag, List.length_cons]
        by_cases long : name.length < rest.length
        · have sameName : (rest ++ '<' :: more).take name.length = rest.take name.length :=
            List.take_append_of_le_length (Nat.le_of_lt long)
          have sameEnd : endsClosingName ((rest ++ '<' :: more).drop name.length) =
              endsClosingName (rest.drop name.length) := by
            rw [List.drop_append_of_le_length (Nat.le_of_lt long)]
            cases tail : rest.drop name.length with
            | nil =>
                have short := List.drop_eq_nil_iff.1 tail
                omega
            | cons character others => rfl
          rw [sameName, sameEnd]
          simp [long]
        · have short : rest.length ≤ name.length := Nat.le_of_not_lt long
          simp only [Nat.add_lt_add_iff_right, long, decide_false, Bool.and_false]
          rw [← Bool.not_eq_true, Bool.and_eq_true]
          rintro ⟨agree, ends⟩
          rcases Nat.eq_or_lt_of_le short with same | shorter
          · rw [← same, List.drop_left] at ends
            exact absurd ends Bool.false_ne_true
          · apply free
            refine lessThan_mem_of_agree agree ?_
            rw [List.take_append, List.take_of_length_le short]
            obtain ⟨room, enough⟩ := Nat.exists_eq_succ_of_ne_zero (Nat.sub_ne_zero_of_lt shorter)
            rw [enough, List.take_succ_cons]
            simp
      · have closed : ∀ others : List Char,
            startsClosingTag name (first :: second :: others) = false := by
          intro others
          unfold startsClosingTag
          split
          · rename_i same
            simp only [List.cons.injEq] at same
            exact absurd ⟨same.1, same.2.1⟩ opens
          · rfl
        rw [List.cons_append, List.cons_append, closed, closed]
        rfl

theorem startsClosingTag_cons_of_ne {first : Char} (other : first ≠ '<')
    (name rest : List Char) : startsClosingTag name (first :: rest) = false := by
  unfold startsClosingTag
  split
  · rename_i same
    exact absurd (List.cons.inj same).1 other
  · rfl

theorem keepsOpen_of_free {name content : List Char} (free : '<' ∉ content) :
    KeepsOpen name content := by
  intro skipped within
  obtain ⟨first, rest, shape⟩ := List.exists_cons_of_ne_nil
    (List.ne_nil_of_length_pos (l := content.drop skipped) (by rw [List.length_drop]; omega))
  rw [shape, List.cons_append]
  apply startsClosingTag_cons_of_ne
  rintro rfl
  have member : '<' ∈ content.drop skipped := by
    rw [shape]
    exact List.mem_cons_self
  exact free (List.mem_of_mem_drop member)

theorem startsClosingTag_endTag {name : List Char} (rest : List Char) :
    startsClosingTag name ('<' :: '/' :: (name ++ '>' :: rest)) = true := by
  simp [startsClosingTag, endsClosingName, agreeIgnoringCase]

/-- Raw content that keeps its element open reaches to the closing tag after it. -/
theorem splitClosingTag?_append {name content : List Char} (free : '<' ∉ name)
    (keeps : KeepsOpen name content) (rest : List Char) :
    splitClosingTag? name (content ++ '<' :: '/' :: (name ++ '>' :: rest)) =
      some (content, '<' :: '/' :: (name ++ '>' :: rest)) := by
  refine splitFirst?_eq_some_iff.2 ⟨rfl, startsClosingTag_endTag rest, ?_⟩
  intro skipped within
  have nonempty : content.drop skipped ≠ [] :=
    List.ne_nil_of_length_pos (by rw [List.length_drop]; omega)
  have closed := keeps skipped within
  rw [startsClosingTag_append free nonempty] at closed
  rw [List.drop_append_of_le_length (Nat.le_of_lt within),
    startsClosingTag_append free nonempty, closed]

/-- Raw content that was read keeps its element open. -/
theorem keepsOpen_of_splitClosingTag? {name text content after : List Char} (free : '<' ∉ name)
    (cut : splitClosingTag? name text = some (content, after)) : KeepsOpen name content := by
  obtain ⟨whole, starts, earliest⟩ := splitFirst?_eq_some_iff.1 cut
  intro skipped within
  have nonempty : content.drop skipped ≠ [] :=
    List.ne_nil_of_length_pos (by rw [List.length_drop]; omega)
  have closed := earliest skipped within
  rw [whole, List.drop_append_of_le_length (Nat.le_of_lt within)] at closed
  cases after with
  | nil => simp [startsClosingTag] at starts
  | cons first rest =>
      by_cases bracket : first = '<'
      · subst bracket
        rw [startsClosingTag_append free nonempty] at closed ⊢
        exact closed
      · rw [startsClosingTag_cons_of_ne bracket] at starts
        contradiction

theorem keepsOpen_of_splitClosingTag?_eq_none {name text : List Char} (free : '<' ∉ name)
    (uncut : splitClosingTag? name text = none) : KeepsOpen name text := by
  intro skipped within
  have closed := splitFirst?_eq_none_iff.1 uncut skipped (Nat.le_of_lt within)
  rw [startsClosingTag_append free
    (List.ne_nil_of_length_pos (by rw [List.length_drop]; omega)), closed, Bool.false_and]

/-! ## From one candidate to the next -/

/-- Cut the text before the first closing tag of that name: look for a slash behind an angle
bracket, and unless they begin such a tag, go on behind both of them. -/
def skipToClosingTag? (name text : List Char) : Option (List Char × List Char) :=
  match _cut : splitFirst? ['<', '/'].isPrefixOf text with
  | none => none
  | some (before, after) =>
      if startsClosingTag name after then
        some (before, after)
      else
        (skipToClosingTag? name (after.drop 2)).map fun (skipped, rest) =>
          (before ++ after.take 2 ++ skipped, rest)
  termination_by text.length
  decreasing_by exact length_drop_separator_lt (List.cons_ne_nil '<' ['/']) _cut

theorem startsClosingTag_of_not_prefix {text : List Char}
    (other : ['<', '/'].isPrefixOf text = false) (name : List Char) :
    startsClosingTag name text = false := by
  unfold startsClosingTag
  split
  · simp at other
  · rfl

/-- No closing tag is missed on the way, because none begins at the slash of a candidate. -/
theorem skipToClosingTag?_eq (name text : List Char) :
    skipToClosingTag? name text = splitClosingTag? name text := by
  fun_induction skipToClosingTag? name text with
  | case1 text uncut =>
      symm
      refine splitFirst?_eq_none_iff.2 fun skipped within => ?_
      exact startsClosingTag_of_not_prefix (splitFirst?_eq_none_iff.1 uncut skipped within) name
  | case2 text before after cut starts =>
      obtain ⟨whole, _, earliest⟩ := splitFirst?_eq_some_iff.1 cut
      symm
      refine splitFirst?_eq_some_iff.2 ⟨whole, starts, fun skipped within => ?_⟩
      exact startsClosingTag_of_not_prefix (earliest skipped within) name
  | case3 text before after cut closed inductionHypothesis =>
      obtain ⟨rfl, leads, earliest⟩ := splitFirst?_eq_some_iff.1 cut
      obtain ⟨rest, rfl⟩ := List.isPrefixOf_iff_prefix.1 leads
      have passed : ∀ skipped < (before ++ ['<', '/']).length,
          startsClosingTag name (((before ++ ['<', '/']) ++ rest).drop skipped) = false := by
        intro skipped within
        rw [List.append_assoc]
        by_cases inside : skipped < before.length
        · exact startsClosingTag_of_not_prefix (earliest skipped inside) name
        · obtain ⟨further, rfl⟩ := Nat.exists_eq_add_of_le (Nat.le_of_not_lt inside)
          rw [List.drop_length_add_append]
          have few : further = 0 ∨ further = 1 := by
            rw [List.length_append, List.length_cons, List.length_singleton] at within
            omega
          rcases few with rfl | rfl
          · exact Bool.eq_false_iff.2 closed
          · exact startsClosingTag_cons_of_ne (by decide) name rest
      rw [inductionHypothesis, ← List.append_assoc, splitClosingTag?, splitClosingTag?,
        splitFirst?_append_of_passed passed]
      rfl

end MarkupTemplate.Text
