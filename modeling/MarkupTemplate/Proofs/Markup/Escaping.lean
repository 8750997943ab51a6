import MarkupTemplate.Attribute.Basic
import MarkupTemplate.Proofs.Markup.References

/-!
# Escaped texts read back

Decoding undoes escaping, whatever the text and whatever follows it: the ampersands that escaping
writes begin references to the characters they replaced, and no other ampersand is left.  What would
end a text or an attribute value does not occur in an escaped one.
-/

namespace MarkupTemplate.Reference

open MarkupTemplate.Text

/-! ## One character -/

/-- The markup stands for the character: it is the character itself, or a named reference to it. -/
inductive StandsFor (character : Char) : List Char → Prop
  | itself (plain : character ≠ '&') : StandsFor character [character]
  | reference (name : String) (listed : (name, character) ∈ named) :
      StandsFor character ('&' :: (name.toList ++ [';']))

theorem standsFor_escapedInText (character : Char) :
    StandsFor character (escapedInText character) := by
  unfold escapedInText
  split
  · rename_i same
    rw [same]
    exact .reference "lt" (by decide)
  · split
    · rename_i same
      rw [same]
      exact .reference "gt" (by decide)
    · split
      · rename_i same
        rw [same]
        exact .reference "amp" (by decide)
      · rename_i plain
        exact .itself plain

theorem standsFor_escapedInAttribute (character : Char) :
    StandsFor character (escapedInAttribute character) := by
  unfold escapedInAttribute
  split
  · rename_i same
    rw [same]
    exact .reference "lt" (by decide)
  · split
    · rename_i same
      rw [same]
      exact .reference "amp" (by decide)
    · split
      · rename_i same
        rw [same]
        exact .reference "quot" (by decide)
      · rename_i plain _
        exact .itself plain

theorem begins_of_listed {name : String} {character : Char} (listed : (name, character) ∈ named)
    (rest : List Char) :
    Begins unsigned (name.toList ++ ';' :: rest) character rest := by
  have table : ∀ entry ∈ named, ';' ∉ entry.1.toList ∧ 1 ≤ byteSize entry.1.toList ∧
      byteSize entry.1.toList ≤ 31 := by decide
  obtain ⟨free, filled, short⟩ := table _ listed
  exact ⟨name.toList, rfl, free, filled, short, .named listed⟩

namespace StandsFor

variable {character : Char} {markup : List Char}

theorem decode_append (stands : StandsFor character markup) (rest : List Char) :
    decode (markup ++ rest) = character :: decode rest := by
  cases stands with
  | itself plain => exact decode_cons_of_ne plain rest
  | reference name listed =>
      rw [List.cons_append, List.append_assoc]
      exact decode_of_begins (begins_of_listed listed rest).withPlus

theorem ne_nil (stands : StandsFor character markup) : markup ≠ [] := by
  cases stands <;> exact List.cons_ne_nil _ _

/-- The only ampersand of a reference is its first character. -/
theorem begins (stands : StandsFor character markup) {before following : List Char}
    (split : markup = before ++ '&' :: following) (rest : List Char) :
    Begins unsigned (following ++ rest) character rest := by
  cases stands with
  | itself plain =>
      have member : '&' ∈ [character] := split ▸ List.mem_append_right _ List.mem_cons_self
      exact absurd (List.mem_singleton.1 member).symm plain
  | reference name listed =>
      have table : ∀ entry ∈ named, '&' ∉ entry.1.toList ++ [';'] := by decide
      cases before with
      | nil =>
          rw [← (List.cons.inj split).2, List.append_assoc]
          exact begins_of_listed listed rest
      | cons first others =>
          apply absurd _ (table _ listed)
          rw [(List.cons.inj split).2]
          exact List.mem_append_right _ List.mem_cons_self

/-- No reference holds a delimiter of markup. -/
theorem eq_singleton_of_mem (stands : StandsFor character markup) {sign : Char}
    (delimits : sign ∈ ['<', '>', quotationMark]) (member : sign ∈ markup) :
    character = sign ∧ markup = [sign] := by
  cases stands with
  | itself plain =>
      obtain rfl := List.mem_singleton.1 member
      exact ⟨rfl, rfl⟩
  | reference name listed =>
      have table : ∀ entry ∈ named, ['<', '>', quotationMark].all (fun sign =>
          sign ∉ '&' :: (entry.1.toList ++ [';'])) = true := by decide
      have free := List.all_eq_true.1 (table _ listed) sign delimits
      exact absurd member (of_decide_eq_true free)

end StandsFor

/-! ## Whole texts -/

section WholeTexts

variable {escaped : Char → List Char}

theorem decode_flatMap_append (stands : ∀ character, StandsFor character (escaped character))
    (text rest : List Char) : decode (text.flatMap escaped ++ rest) = text ++ decode rest := by
  induction text with
  | nil => rfl
  | cons character others inductionHypothesis =>
      rw [List.flatMap_cons, List.append_assoc, (stands character).decode_append,
        inductionHypothesis, List.cons_append]

/-- Every ampersand of the text begins a well-formed reference. -/
def AmpersandsBegin (text : List Char) : Prop :=
  ∀ before rest, text = before ++ '&' :: rest →
    ∃ character after, Begins unsigned rest character after

theorem ampersandsBegin_flatMap (stands : ∀ character, StandsFor character (escaped character))
    (text : List Char) : AmpersandsBegin (text.flatMap escaped) := by
  induction text with
  | nil =>
      intro before rest split
      simp at split
  | cons character others inductionHypothesis =>
      intro before rest split
      rw [List.flatMap_cons] at split
      rcases List.append_eq_append_iff.1 split with ⟨more, _, later⟩ | ⟨following, here, later⟩
      · exact inductionHypothesis more rest later
      · cases following with
        | nil => exact inductionHypothesis [] rest later.symm
        | cons first following =>
            obtain ⟨rfl, rfl⟩ := List.cons.inj later
            exact ⟨character, _, (stands character).begins here _⟩

/-- A delimiter that escaping replaces does not occur in what is escaped. -/
theorem not_mem_flatMap (stands : ∀ character, StandsFor character (escaped character))
    {sign : Char} (delimits : sign ∈ ['<', '>', quotationMark]) (replaced : escaped sign ≠ [sign])
    (text : List Char) : sign ∉ text.flatMap escaped := by
  rw [List.mem_flatMap]
  rintro ⟨character, _, member⟩
  obtain ⟨rfl, single⟩ := (stands character).eq_singleton_of_mem delimits member
  exact replaced single

end WholeTexts

theorem decode_escapeText (text : List Char) : decode (escapeText text) = text := by
  have decoded := decode_flatMap_append standsFor_escapedInText text []
  rwa [List.append_nil, decode_eq_self List.not_mem_nil, List.append_nil] at decoded

theorem decode_escapeAttribute (value : List Char) : decode (escapeAttribute value) = value := by
  have decoded := decode_flatMap_append standsFor_escapedInAttribute value []
  rwa [List.append_nil, decode_eq_self List.not_mem_nil, List.append_nil] at decoded

theorem decode_ne_nil {text : List Char} (nonempty : text ≠ []) : decode text ≠ [] := by
  cases text with
  | nil => contradiction
  | cons character rest =>
      rw [decode]
      split
      · split <;> simp
      · simp

/-! ## What escaped texts are free of -/

theorem lessThan_not_mem_escapeText (text : List Char) : '<' ∉ escapeText text :=
  not_mem_flatMap standsFor_escapedInText (by decide) (by decide) text

theorem greaterThan_not_mem_escapeText (text : List Char) : '>' ∉ escapeText text :=
  not_mem_flatMap standsFor_escapedInText (by decide) (by decide) text

theorem lessThan_not_mem_escapeAttribute (value : List Char) : '<' ∉ escapeAttribute value :=
  not_mem_flatMap standsFor_escapedInAttribute (by decide) (by decide) value

theorem quotationMark_not_mem_escapeAttribute (value : List Char) :
    quotationMark ∉ escapeAttribute value :=
  not_mem_flatMap standsFor_escapedInAttribute (by decide) (by decide) value

theorem escapeText_eq_nil_iff {text : List Char} : escapeText text = [] ↔ text = [] := by
  cases text with
  | nil => simp [escapeText]
  | cons character rest =>
      unfold escapeText
      rw [List.flatMap_cons, List.append_eq_nil_iff]
      simp [(standsFor_escapedInText character).ne_nil]

/-! ## Escaping and decoding -/

/-- Escaping goes through a text character by character, decoding undoes it in front of any other
text, and what is escaped holds nothing that is read as markup but whole references. -/
theorem escaping_undone (left right : List Char) :
    (decode (escapeText left ++ right) = left ++ decode right ∧
      decode (escapeAttribute left ++ right) = left ++ decode right) ∧
    (escapeText (left ++ right) = escapeText left ++ escapeText right ∧
      escapeAttribute (left ++ right) = escapeAttribute left ++ escapeAttribute right) ∧
    ('<' ∉ escapeText left ∧ '>' ∉ escapeText left ∧ AmpersandsBegin (escapeText left)) ∧
    '<' ∉ escapeAttribute left ∧ quotationMark ∉ escapeAttribute left ∧
      AmpersandsBegin (escapeAttribute left) := by
  refine ⟨⟨?_, ?_⟩, ⟨escapeText_append left right, escapeAttribute_append left right⟩,
    ⟨?_, ?_, ?_⟩, ?_, ?_, ?_⟩
  · exact decode_flatMap_append standsFor_escapedInText left right
  · exact decode_flatMap_append standsFor_escapedInAttribute left right
  · exact lessThan_not_mem_escapeText left
  · exact greaterThan_not_mem_escapeText left
  · exact ampersandsBegin_flatMap standsFor_escapedInText left
  · exact lessThan_not_mem_escapeAttribute left
  · exact quotationMark_not_mem_escapeAttribute left
  · exact ampersandsBegin_flatMap standsFor_escapedInAttribute left

end MarkupTemplate.Reference
