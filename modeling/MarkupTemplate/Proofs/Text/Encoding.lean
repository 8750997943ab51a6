import MarkupTemplate.ByteCursor

/-!
# Texts read byte by byte

The scans for the signs of markup find the same places in the bytes of a text as in its characters.
A character of ASCII is one byte, which is the character again; any other character is made of
bytes past ASCII, and no scan stops before one of those.
-/

namespace MarkupTemplate.Text

/-! ## The bytes of a text -/

/-- The bytes of a text in UTF-8. -/
def encode (text : List Char) : List UInt8 :=
  text.flatMap String.utf8EncodeChar

/-- What the text reads like if every byte is taken for a character. -/
def bytewise (text : List Char) : List Char :=
  (encode text).map characterOfByte

@[simp]
theorem encode_append (left right : List Char) :
    encode (left ++ right) = encode left ++ encode right :=
  List.flatMap_append

@[simp]
theorem length_encode (text : List Char) : (encode text).length = byteSize text := by
  induction text with
  | nil => rfl
  | cons first rest inductionHypothesis =>
      rw [encode, List.flatMap_cons, List.length_append, String.length_utf8EncodeChar,
        byteSize_cons, ← inductionHypothesis, encode]

@[simp]
theorem bytewise_nil : bytewise [] = [] := rfl

@[simp]
theorem bytewise_append (left right : List Char) :
    bytewise (left ++ right) = bytewise left ++ bytewise right := by
  rw [bytewise, encode_append, List.map_append, bytewise, bytewise]

@[simp]
theorem length_bytewise (text : List Char) : (bytewise text).length = byteSize text := by
  rw [bytewise, List.length_map, length_encode]

/-! ## Characters past ASCII -/

/-- The character lies past ASCII. -/
def IsForeign (character : Char) : Prop :=
  0x80 ≤ character.toNat

theorem lt_or_isForeign (character : Char) : character.toNat < 0x80 ∨ IsForeign character :=
  Nat.lt_or_ge _ _

theorem IsForeign.ne {character sign : Char} (foreign : IsForeign character)
    (ascii : sign.toNat < 0x80) : character ≠ sign := by
  rintro rfl
  exact Nat.not_le.2 ascii foreign

theorem toNat_characterOfByte (byte : UInt8) : (characterOfByte byte).toNat = byte.toNat := by
  have small : byte.toNat < 256 := byte.toNat_lt
  have valid : byte.toNat.isValidChar := .inl (by omega)
  rw [characterOfByte, Char.ofNat, dif_pos valid]
  rfl

theorem characterOfByte_injective : Function.Injective characterOfByte := by
  intro left right same
  rw [← UInt8.toNat_inj, ← toNat_characterOfByte, same, toNat_characterOfByte]

/-- A character of ASCII is one byte. -/
theorem bytewise_cons_of_ascii {character : Char} (ascii : character.toNat < 0x80)
    (rest : List Char) : bytewise (character :: rest) = character :: bytewise rest := by
  have single : String.utf8EncodeChar character = [UInt8.ofNat character.toNat] := by
    rw [String.utf8EncodeChar]
    exact if_pos (Nat.le_of_lt_succ ascii)
  have same : characterOfByte (UInt8.ofNat character.toNat) = character := by
    rw [characterOfByte, UInt8.toNat_ofNat_of_lt' (Nat.lt_trans ascii (by decide)),
      Char.ofNat_toNat]
  rw [bytewise, encode, List.flatMap_cons, single, List.singleton_append, List.map_cons, same]
  rfl

theorem le_of_mem_utf8EncodeChar {character : Char} (foreign : IsForeign character) :
    ∀ byte ∈ String.utf8EncodeChar character, 0x80 ≤ byte.toNat := by
  have beyond : ¬ character.val.toNat ≤ 127 := Nat.not_le.2 foreign
  fun_cases String.utf8EncodeChar character with
  | case1 code small => exact absurd small beyond
  | case2 | case3 | case4 =>
      simp only [List.forall_mem_cons, UInt8.toNat_ofNat', List.not_mem_nil, false_implies,
        implies_true, and_true]
      omega

/-- A character past ASCII is made of bytes past ASCII, whatever follows. -/
theorem exists_bytewise_cons {character : Char} (foreign : IsForeign character) :
    ∃ byte lead, (∀ rest, bytewise (character :: rest) = byte :: lead ++ bytewise rest) ∧
      lead.length + 1 = character.utf8Size ∧ ∀ other ∈ byte :: lead, IsForeign other := by
  have beyond : ∀ other ∈ (String.utf8EncodeChar character).map characterOfByte,
      IsForeign other := by
    intro other member
    obtain ⟨byte, inside, rfl⟩ := List.mem_map.1 member
    rw [IsForeign, toNat_characterOfByte]
    exact le_of_mem_utf8EncodeChar foreign byte inside
  have size : ((String.utf8EncodeChar character).map characterOfByte).length =
      character.utf8Size := by
    rw [List.length_map, String.length_utf8EncodeChar]
  have whole : ∀ rest, bytewise (character :: rest) =
      (String.utf8EncodeChar character).map characterOfByte ++ bytewise rest := by
    intro rest
    rw [bytewise, encode, List.flatMap_cons, List.map_append]
    rfl
  cases bytes : (String.utf8EncodeChar character).map characterOfByte with
  | nil =>
      rw [bytes] at size
      exact absurd size (Nat.ne_of_lt character.utf8Size_pos)
  | cons byte lead =>
      rw [bytes] at size beyond whole
      exact ⟨byte, lead, whole, size, beyond⟩

/-- Behind its first byte, a character goes on with bytes past ASCII only. -/
theorem exists_tail_bytewise (first : Char) (rest : List Char) :
    ∃ lead, (bytewise (first :: rest)).tail = lead ++ bytewise rest ∧
      lead.length + 1 = first.utf8Size ∧ ∀ other ∈ lead, IsForeign other := by
  rcases lt_or_isForeign first with ascii | foreign
  · have bytes := bytewise_cons_of_ascii ascii rest
    have size := congrArg List.length bytes
    rw [length_bytewise, byteSize_cons, List.length_cons, length_bytewise] at size
    refine ⟨[], by rw [bytes]; rfl, ?_, fun _ member => absurd member List.not_mem_nil⟩
    rw [List.length_nil]
    omega
  · obtain ⟨byte, lead, bytes, size, others⟩ := exists_bytewise_cons foreign
    exact ⟨lead, by rw [bytes]; rfl, size, (List.forall_mem_cons.1 others).2⟩

/-! ## First characters and names -/

theorem isNameStart_of_isForeign {character : Char} (foreign : IsForeign character) :
    isNameStart character = true := by
  rw [isNameStart, Bool.or_eq_true]
  exact .inr (decide_eq_true foreign)

theorem isNameCharacter_of_isForeign {character : Char} (foreign : IsForeign character) :
    isNameCharacter character = true :=
  isNameCharacter_of_isNameStart (isNameStart_of_isForeign foreign)

/-- What is told from the first character is told from the first byte, if all characters past
ASCII tell the same. -/
theorem head_bytewise {judge : List Char → Bool} (verdict : Bool)
    (heads : ∀ first rest others, judge (first :: rest) = judge (first :: others))
    (beyond : ∀ first rest, IsForeign first → judge (first :: rest) = verdict)
    (text : List Char) : judge (bytewise text) = judge text := by
  cases text with
  | nil => rfl
  | cons first rest =>
      rcases lt_or_isForeign first with ascii | foreign
      · rw [bytewise_cons_of_ascii ascii]
        exact heads first _ _
      · obtain ⟨byte, lead, bytes, _, others⟩ := exists_bytewise_cons foreign
        rw [bytes, List.cons_append, beyond byte _ (others byte List.mem_cons_self),
          beyond first rest foreign]

theorem opensMarkup_bytewise (text : List Char) :
    opensMarkup (bytewise text) = opensMarkup text := by
  refine head_bytewise true (fun _ _ _ => rfl) (fun first rest foreign => ?_) text
  rw [opensMarkup, isNameStart_of_isForeign foreign, Bool.or_true]

theorem endsClosingName_bytewise (text : List Char) :
    endsClosingName (bytewise text) = endsClosingName text := by
  refine head_bytewise false (fun _ _ _ => rfl) (fun first rest foreign => ?_) text
  have goesOn := isNameCharacter_of_isForeign foreign
  simp only [isNameCharacter, Bool.and_eq_true, Bool.not_eq_true', bne_iff_ne, ne_eq] at goesOn
  simp [endsClosingName, goesOn]

/-- A run that goes on over all characters past ASCII ends before the same character. -/
theorem span_bytewise {accepts : Char → Bool}
    (beyond : ∀ character, IsForeign character → accepts character = true) (text : List Char) :
    (bytewise text).takeWhile accepts = bytewise (text.takeWhile accepts) ∧
      (bytewise text).dropWhile accepts = bytewise (text.dropWhile accepts) := by
  induction text with
  | nil => exact ⟨rfl, rfl⟩
  | cons first rest inductionHypothesis =>
      rcases lt_or_isForeign first with ascii | foreign
      · cases accepted : accepts first with
        | true => simp [bytewise_cons_of_ascii ascii, accepted, inductionHypothesis]
        | false => simp [bytewise_cons_of_ascii ascii, accepted]
      · obtain ⟨byte, lead, bytes, _, others⟩ := exists_bytewise_cons foreign
        have accepted : ∀ other ∈ byte :: lead, accepts other = true :=
          fun other member => beyond other (others other member)
        rw [bytes, List.takeWhile_append_of_pos accepted, List.dropWhile_append_of_pos accepted,
          List.takeWhile_cons_of_pos (beyond first foreign),
          List.dropWhile_cons_of_pos (beyond first foreign), bytes, inductionHypothesis.1,
          inductionHypothesis.2]
        exact ⟨rfl, rfl⟩

theorem splitName?_bytewise (text : List Char) :
    splitName? (bytewise text) = (splitName? text).map (Prod.map bytewise bytewise) := by
  cases text with
  | nil => rfl
  | cons first rest =>
      have onward := span_bytewise (fun _ => isNameCharacter_of_isForeign) rest
      rcases lt_or_isForeign first with ascii | foreign
      · rw [bytewise_cons_of_ascii ascii, splitName?, splitName?, onward.1, onward.2]
        split
        · rw [Option.map_some, Prod.map_apply, bytewise_cons_of_ascii ascii]
        · rfl
      · obtain ⟨byte, lead, bytes, _, others⟩ := exists_bytewise_cons foreign
        rw [List.forall_mem_cons] at others
        have accepted : ∀ other ∈ lead, isNameCharacter other = true :=
          fun other member => isNameCharacter_of_isForeign (others.2 other member)
        rw [bytes, List.cons_append, splitName?, splitName?,
          if_pos (isNameStart_of_isForeign others.1), if_pos (isNameStart_of_isForeign foreign),
          List.takeWhile_append_of_pos accepted, List.dropWhile_append_of_pos accepted,
          onward.1, onward.2, Option.map_some, Prod.map_apply, bytes, List.cons_append]

/-- A sign of ASCII is the first character if it is the first byte. -/
theorem head?_bytewise_iff {sign : Char} (ascii : sign.toNat < 0x80) {text : List Char} :
    (bytewise text).head? = some sign ↔ text.head? = some sign := by
  cases text with
  | nil => exact Iff.rfl
  | cons first rest =>
      rcases lt_or_isForeign first with plain | foreign
      · rw [bytewise_cons_of_ascii plain]
        exact Iff.rfl
      · obtain ⟨byte, lead, bytes, _, others⟩ := exists_bytewise_cons foreign
        have beyond := others byte List.mem_cons_self
        simp [bytes, beyond.ne ascii, IsForeign.ne foreign ascii]

/-- A sign of ASCII is the last character if it is the last byte. -/
theorem getLast?_bytewise_iff {sign : Char} (ascii : sign.toNat < 0x80) {text : List Char} :
    (bytewise text).getLast? = some sign ↔ text.getLast? = some sign := by
  rcases List.eq_nil_or_concat text with rfl | ⟨initial, last, rfl⟩
  · exact Iff.rfl
  · rw [List.concat_eq_append, bytewise_append, List.getLast?_append, List.getLast?_concat]
    rcases lt_or_isForeign last with plain | foreign
    · rw [bytewise_cons_of_ascii plain]
      exact Iff.rfl
    · obtain ⟨byte, lead, bytes, _, others⟩ := exists_bytewise_cons foreign
      rw [bytes, bytewise_nil, List.append_nil, List.getLast?_eq_some_getLast (by simp)]
      have beyond := others _ (List.getLast_mem (List.cons_ne_nil byte lead))
      simp [beyond.ne ascii, foreign.ne ascii]

/-! ## Searching -/

/-- A search for something that begins within ASCII finds the same place. -/
theorem splitFirst?_bytewise {holds finds : List Char → Bool}
    (same : ∀ text, finds (bytewise text) = holds text)
    (passes : ∀ first, IsForeign first → ∀ rest, finds (first :: rest) = false)
    (text : List Char) :
    splitFirst? finds (bytewise text) =
      (splitFirst? holds text).map (Prod.map bytewise bytewise) := by
  induction text with
  | nil =>
      have atEnd := same []
      rw [bytewise_nil] at atEnd ⊢
      rw [splitFirst?, splitFirst?, atEnd]
      split <;> rfl
  | cons first rest inductionHypothesis =>
      have here := same (first :: rest)
      rcases lt_or_isForeign first with ascii | foreign
      · rw [bytewise_cons_of_ascii ascii] at here ⊢
        rw [splitFirst?, splitFirst?, here, inductionHypothesis]
        split
        · rw [Option.map_some, Prod.map_apply, bytewise_nil, bytewise_cons_of_ascii ascii]
        · cases splitFirst? holds rest with
          | none => rfl
          | some halves => simp [bytewise_cons_of_ascii ascii]
      · obtain ⟨byte, lead, bytes, _, others⟩ := exists_bytewise_cons foreign
        rw [bytes, List.cons_append, passes byte (others byte List.mem_cons_self)] at here
        rw [bytes, splitFirst?_append (fun other member => passes other (others other member)),
          inductionHypothesis, splitFirst?, ← here]
        cases splitFirst? holds rest with
        | none => rfl
        | some halves => simp [bytes]

/-! ## Tag ends -/

/-- The open quote, if there is one, is a character of ASCII. -/
def IsPlainQuote (openQuote : Option Char) : Prop :=
  ∀ quote ∈ openQuote, quote.toNat < 0x80

theorem isPlainQuote_nextQuote {openQuote : Option Char} (plain : IsPlainQuote openQuote)
    {character : Char} (ascii : character.toNat < 0x80) :
    IsPlainQuote (nextQuote openQuote character) := by
  intro quote member
  unfold nextQuote at member
  split at member
  · split at member
    · exact Option.some.inj member ▸ ascii
    · contradiction
  · split at member
    · contradiction
    · exact plain quote member

/-- A character past ASCII is neither a quote nor a closing bracket. -/
theorem nextQuote_of_isForeign {openQuote : Option Char} (plain : IsPlainQuote openQuote)
    {character : Char} (foreign : IsForeign character) :
    nextQuote openQuote character = openQuote ∧
      (openQuote.isNone && character == '>') = false := by
  have noBracket : (character == '>') = false := beq_false_of_ne (foreign.ne (by decide))
  refine ⟨?_, by rw [noBracket, Bool.and_false]⟩
  cases openQuote with
  | none =>
      have noMark := beq_false_of_ne (foreign.ne (by decide : quotationMark.toNat < 0x80))
      have noApostrophe := beq_false_of_ne (foreign.ne (by decide : apostrophe.toNat < 0x80))
      rw [nextQuote, isQuote, noMark, noApostrophe]
      rfl
  | some quote =>
      have other := beq_false_of_ne (foreign.ne (plain quote rfl))
      rw [nextQuote, other]
      rfl

theorem splitTagEndWithin?_append {openQuote : Option Char} (plain : IsPlainQuote openQuote)
    {lead : List Char} (foreign : ∀ character ∈ lead, IsForeign character) (text : List Char) :
    splitTagEndWithin? openQuote (lead ++ text) =
      (splitTagEndWithin? openQuote text).map fun (before, after) => (lead ++ before, after) := by
  induction lead with
  | nil => simp
  | cons first others inductionHypothesis =>
      rw [List.forall_mem_cons] at foreign
      obtain ⟨stays, passes⟩ := nextQuote_of_isForeign plain foreign.1
      rw [List.cons_append, splitTagEndWithin?, passes, stays, inductionHypothesis foreign.2]
      simp only [Bool.false_eq_true, ↓reduceIte, Option.map_map]
      rfl

theorem splitTagEndWithin?_bytewise {openQuote : Option Char} (plain : IsPlainQuote openQuote)
    (text : List Char) :
    splitTagEndWithin? openQuote (bytewise text) =
      (splitTagEndWithin? openQuote text).map (Prod.map bytewise bytewise) := by
  induction text generalizing openQuote with
  | nil => rfl
  | cons first rest inductionHypothesis =>
      rcases lt_or_isForeign first with ascii | foreign
      · rw [bytewise_cons_of_ascii ascii, splitTagEndWithin?, splitTagEndWithin?,
          inductionHypothesis (isPlainQuote_nextQuote plain ascii)]
        split
        · rfl
        · cases splitTagEndWithin? (nextQuote openQuote first) rest with
          | none => rfl
          | some halves => simp [bytewise_cons_of_ascii ascii]
      · obtain ⟨byte, lead, bytes, _, others⟩ := exists_bytewise_cons foreign
        obtain ⟨stays, passes⟩ := nextQuote_of_isForeign plain foreign
        rw [bytes, splitTagEndWithin?_append plain others, inductionHypothesis plain,
          splitTagEndWithin?, passes, stays]
        cases splitTagEndWithin? openQuote rest with
        | none => rfl
        | some halves => simp [bytes]

theorem splitTagEnd?_bytewise (text : List Char) :
    splitTagEnd? (bytewise text) = (splitTagEnd? text).map (Prod.map bytewise bytewise) :=
  splitTagEndWithin?_bytewise (fun _ member => absurd member (Option.not_mem_none _)) text

/-! ## Closing tags -/

theorem toNat_lt_of_isAlpha {character : Char} (letter : character.isAlpha = true) :
    character.toNat < 0x80 := by
  unfold Char.isAlpha Char.isUpper Char.isLower at letter
  simp only [Bool.or_eq_true, Bool.and_eq_true, decide_eq_true_eq] at letter
  rcases letter with ⟨_, high⟩ | ⟨_, high⟩
  · exact Nat.lt_of_le_of_lt high (by decide)
  · exact Nat.lt_of_le_of_lt high (by decide)

theorem toLower_of_isForeign {character : Char} (foreign : IsForeign character) :
    character.toLower = character := by
  apply Decidable.byContradiction
  intro changed
  exact Nat.not_le.2 (toNat_lt_of_isAlpha (isAlpha_of_toLower_ne changed).1) foreign

theorem toNat_toLower_lt {character : Char} (ascii : character.toNat < 0x80) :
    character.toLower.toNat < 0x80 := by
  by_cases same : character.toLower = character
  · rwa [same]
  · exact toNat_lt_of_isAlpha (isAlpha_of_toLower_ne same).2

theorem bytewise_map_toLower (text : List Char) :
    bytewise (text.map Char.toLower) = (bytewise text).map Char.toLower := by
  induction text with
  | nil => rfl
  | cons first rest inductionHypothesis =>
      rcases lt_or_isForeign first with ascii | foreign
      · rw [List.map_cons, bytewise_cons_of_ascii (toNat_toLower_lt ascii),
          bytewise_cons_of_ascii ascii, List.map_cons, inductionHypothesis]
      · obtain ⟨byte, lead, bytes, _, others⟩ := exists_bytewise_cons foreign
        have same : (byte :: lead).map Char.toLower = byte :: lead := by
          rw [List.map_congr_left fun other member => toLower_of_isForeign (others other member)]
          exact List.map_id' _
        rw [List.map_cons, toLower_of_isForeign foreign, bytes, bytes, List.map_append, same,
          inductionHypothesis]

theorem byteSize_map_toLower (text : List Char) :
    byteSize (text.map Char.toLower) = byteSize text := by
  rw [← length_bytewise, bytewise_map_toLower, List.length_map, length_bytewise]

/-- A text is told from its bytes, whatever follows. -/
theorem encode_prefix_iff {name text : List Char} :
    encode name <+: encode text ↔ name <+: text := by
  constructor
  · intro leads
    induction name generalizing text with
    | nil => exact List.nil_prefix
    | cons first rest inductionHypothesis =>
        obtain ⟨after, whole⟩ := leads
        cases text with
        | nil =>
            have size := congrArg List.length whole
            have positive := first.utf8Size_pos
            rw [List.length_append, length_encode, byteSize_cons, encode, List.flatMap_nil,
              List.length_nil] at size
            omega
        | cons head others =>
            rw [encode, encode, List.flatMap_cons, List.flatMap_cons, List.append_assoc] at whole
            have same : first = head := by
              have decoded := congrArg (fun bytes => bytes.toByteArray.utf8DecodeChar? 0) whole
              simp only [List.toByteArray_append,
                ByteArray.utf8DecodeChar?_utf8EncodeChar_append] at decoded
              exact Option.some.inj decoded
            rw [same] at whole ⊢
            exact List.cons_prefix_cons.2 ⟨rfl,
              inductionHypothesis ⟨after, List.append_cancel_left whole⟩⟩
  · rintro ⟨after, rfl⟩
    exact ⟨encode after, (encode_append name after).symm⟩

theorem bytewise_prefix_iff {name text : List Char} :
    bytewise name <+: bytewise text ↔ name <+: text := by
  rw [bytewise, bytewise, List.prefix_map_iff_of_injective characterOfByte_injective,
    encode_prefix_iff]

theorem isPrefixOf_bytewise (lead text : List Char) :
    (bytewise lead).isPrefixOf (bytewise text) = lead.isPrefixOf text := by
  rw [Bool.eq_iff_iff, List.isPrefixOf_iff_prefix, List.isPrefixOf_iff_prefix,
    bytewise_prefix_iff]

/-- The text begins with the name in any ASCII case, and the name ends there. -/
def LeadsWithName (name text : List Char) : Prop :=
  name.map Char.toLower <+: text.map Char.toLower ∧
    endsClosingName (text.drop name.length) = true

theorem startsClosingTag_iff {name text : List Char} :
    startsClosingTag name text = true ↔
      ∃ rest, text = '<' :: '/' :: rest ∧ LeadsWithName name rest := by
  unfold startsClosingTag
  split
  · rename_i rest
    rw [Bool.and_eq_true, agreeIgnoringCase_iff, List.map_take]
    constructor
    · rintro ⟨agree, ends⟩
      exact ⟨rest, rfl, List.prefix_iff_eq_take.2 (by rwa [List.length_map]), ends⟩
    · rintro ⟨_, same, leads, ends⟩
      obtain rfl := (List.cons.inj (List.cons.inj same).2).2
      rw [List.prefix_iff_eq_take, List.length_map] at leads
      exact ⟨leads, ends⟩
  · rename_i other
    refine ⟨fun starts => by contradiction, ?_⟩
    rintro ⟨rest, rfl, _⟩
    exact absurd rfl (other rest)

theorem leadsWithName_bytewise {name text : List Char} :
    LeadsWithName (bytewise name) (bytewise text) ↔ LeadsWithName name text := by
  unfold LeadsWithName
  rw [← bytewise_map_toLower, ← bytewise_map_toLower, bytewise_prefix_iff]
  refine and_congr_right fun leads => ?_
  have written := List.prefix_iff_eq_take.1 leads
  have size : byteSize (text.take name.length) = byteSize name := by
    rw [← byteSize_map_toLower, List.map_take, ← List.length_map Char.toLower, ← written,
      byteSize_map_toLower]
  have after : (bytewise text).drop (byteSize name) = bytewise (text.drop name.length) := by
    have whole := bytewise_append (text.take name.length) (text.drop name.length)
    rw [List.take_append_drop] at whole
    rw [whole, ← size, ← length_bytewise, List.drop_left]
  rw [length_bytewise, after, endsClosingName_bytewise]

theorem startsClosingTag_bytewise (name text : List Char) :
    startsClosingTag (bytewise name) (bytewise text) = startsClosingTag name text := by
  have signs : bytewise ['<', '/'] = ['<', '/'] := by decide
  rw [Bool.eq_iff_iff, startsClosingTag_iff, startsClosingTag_iff]
  constructor
  · rintro ⟨bytes, shape, leads⟩
    have opens : bytewise ['<', '/'] <+: bytewise text := ⟨bytes, by rw [signs, shape]; rfl⟩
    obtain ⟨rest, rfl⟩ := bytewise_prefix_iff.1 opens
    rw [bytewise_append, signs] at shape
    obtain rfl := List.append_cancel_left shape
    exact ⟨rest, rfl, leadsWithName_bytewise.1 leads⟩
  · rintro ⟨rest, rfl, leads⟩
    refine ⟨bytewise rest, ?_, leadsWithName_bytewise.2 leads⟩
    have whole := bytewise_append ['<', '/'] rest
    rwa [signs] at whole

theorem splitClosingTag?_bytewise (name text : List Char) :
    splitClosingTag? (bytewise name) (bytewise text) =
      (splitClosingTag? name text).map (Prod.map bytewise bytewise) := by
  refine splitFirst?_bytewise (startsClosingTag_bytewise name) (fun first foreign rest => ?_) text
  rw [Bool.eq_false_iff, ne_eq, startsClosingTag_iff]
  rintro ⟨_, shape, _⟩
  exact foreign.ne (by decide) (List.cons.inj shape).1

end MarkupTemplate.Text
