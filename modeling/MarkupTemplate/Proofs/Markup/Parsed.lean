import MarkupTemplate.Proofs.Markup.Reading

/-!
# What parsing makes

Whatever text is parsed, in either way of reading, the forest that is made can be written, and it
has no boundaries and no empty texts.  The one thing that needs care is an element whose content
is not markup: its content is read up to the tag that closes it, so by the time markup is read
again there is nothing left but this tag, or nothing at all.
-/

namespace MarkupTemplate

open MarkupTemplate.Text

/-! ## Names in any case -/

namespace Text

theorem isNameStart_of_isAlpha {character : Char} (letter : character.isAlpha = true) :
    isNameStart character = true := by
  simp [isNameStart, letter]

theorem isNameStart_toLower (character : Char) :
    isNameStart character.toLower = isNameStart character ∧
      isNameCharacter character.toLower = isNameCharacter character := by
  by_cases same : character.toLower = character
  · rw [same]
    exact ⟨rfl, rfl⟩
  · obtain ⟨letter, lower⟩ := isAlpha_of_toLower_ne same
    have opens := isNameStart_of_isAlpha letter
    have alsoOpens := isNameStart_of_isAlpha lower
    rw [opens, alsoOpens, isNameCharacter_of_isNameStart opens,
      isNameCharacter_of_isNameStart alsoOpens]
    exact ⟨rfl, rfl⟩

theorem IsName.of_agree {left right : List Char} (isName : IsName left)
    (agree : agreeIgnoringCase left right = true) : IsName right := by
  rw [agreeIgnoringCase_iff] at agree
  cases left with
  | nil => exact isName.elim
  | cons first others =>
      cases right with
      | nil => simp at agree
      | cons otherFirst otherOthers =>
          simp only [List.map_cons, List.cons.injEq] at agree
          constructor
          · rw [← (isNameStart_toLower otherFirst).1, ← agree.1, (isNameStart_toLower first).1]
            exact isName.1
          · intro character member
            have lower : character.toLower ∈ others.map Char.toLower := by
              rw [agree.2]
              exact List.mem_map_of_mem member
            obtain ⟨same, inOthers, equal⟩ := List.mem_map.1 lower
            rw [← (isNameStart_toLower character).2, ← equal, (isNameStart_toLower same).2]
            exact isName.2 same inOthers

end Text

/-! ## What lexemes stand for -/

/-- The construct can be the reading of markup. -/
def Construct.IsRead : Construct → Prop
  | .startTag name _ => IsName name
  | .emptyTag name _ => IsName name
  | .text content => content ≠ []
  | .comment content => ¬ ['-', '-', '>'] <:+: content
  | _ => True

namespace Lexeme

theorem isRead_readText (start : Nat) (first : Char) (rest : List Char) :
    (readText start first rest).1.construct.IsRead :=
  Reference.decode_ne_nil (by simp)

theorem isRead_readComment (start : Nat) (text : List Char) :
    (readComment start text).1.construct.IsRead := by
  unfold readComment
  split
  · rename_i cut
    exact not_infix_of_splitFirst? (by simp) cut
  · rename_i uncut
    exact not_infix_of_splitFirst?_eq_none uncut

theorem isRead_readDeclaration (start : Nat) (sign : Char) (text : List Char) :
    (readDeclaration start sign text).1.construct.IsRead := by
  unfold readDeclaration
  split <;> trivial

theorem construct_readEndTag (start : Nat) (text : List Char) :
    (readEndTag start text).1.construct =
      if ((splitName? text).getD ([], text)).1.isEmpty then .dropped
      else .endTag ((splitName? text).getD ([], text)).1 := by
  unfold readEndTag
  simp only
  split <;> rfl

theorem isRead_readEndTag (start : Nat) (text : List Char) :
    (readEndTag start text).1.construct.IsRead := by
  rw [construct_readEndTag]
  split <;> trivial

theorem isRead_readStartTag {name : List Char} (isName : IsName name) (start : Nat)
    (text : List Char) : (readStartTag start name text).1.construct.IsRead := by
  unfold readStartTag
  split
  · simp only
    split
    · exact isName
    · exact isName
  · trivial

theorem isRead_readMarkup (start : Nat) (first : Char) (rest : List Char) :
    (readMarkup start first rest).1.construct.IsRead := by
  unfold readMarkup
  split
  · exact isRead_readText start first rest
  · split
    · exact isRead_readComment start _
    · exact isRead_readDeclaration start '!' _
    · exact isRead_readDeclaration start '?' _
    · exact isRead_readEndTag start _
    · split
      · rename_i read
        exact isRead_readStartTag (isName_of_splitName? read) start _
      · exact isRead_readText start first rest

/-- What begins with a closing tag of a name is read as an end tag of this name. -/
theorem readMarkup_of_startsClosingTag {name : List Char} (isName : IsName name) {first : Char}
    {rest : List Char} (closing : startsClosingTag name (first :: rest) = true) (start : Nat) :
    ∃ spelled, agreeIgnoringCase name spelled = true ∧
      (readMarkup start first rest).1.construct = .endTag spelled := by
  obtain ⟨spelled, after, shape, agree, closes⟩ := startsClosingTag_iff_exists.1 closing
  obtain ⟨rfl, rfl⟩ := List.cons.inj shape
  have spelledName := isName.of_agree agree
  have tag : readMarkup start '<' ('/' :: (spelled ++ after)) =
      readEndTag start (spelled ++ after) := rfl
  refine ⟨spelled, agree, ?_⟩
  rw [tag, construct_readEndTag, splitName?_append spelledName closes.endsName, Option.getD_some]
  simp [spelledName.isEmpty]

end Lexeme

/-! ## Sound growths -/

/-- The element may be open. -/
structure Opening.Sound (opening : Opening) : Prop where
  earlier : opening.earlier.Writable
  plain : opening.earlier.IsPlain
  isName : IsName opening.name.toList
  attributes : ∀ entry ∈ opening.attributes, entry.IsWritable
  distinct : (opening.attributes.map Attribute.name).Nodup
  notVoid : isVoidElement opening.name = false

/-- The row can be the content of the element. -/
structure Opening.Holds (opening : Opening) (row : Forest Content) : Prop where
  raw : hasRawContent opening.name.toList = true → row.HoldsTexts
  verbatim : hasVerbatimContent opening.name.toList = true →
    KeepsOpen opening.name.toList (row.markup true)

namespace Growth

/-- The growth can be closed to a forest that can be written.  Only the innermost element may have
content that is not markup. -/
structure Sound (growth : Growth) : Prop where
  row : growth.row.Writable
  plain : growth.row.IsPlain
  opened : ∀ opening ∈ growth.opened, opening.Sound
  innermost : ∀ opening ∈ growth.opened.head?, opening.Holds growth.row
  outer : ∀ opening ∈ growth.opened.tail, hasRawContent opening.name.toList = false

/-- Markup may go on in the growth. -/
def TakesMarkup (growth : Growth) : Prop :=
  ∀ opening ∈ growth.opened, hasRawContent opening.name.toList = false

end Growth

namespace Forest

theorem isPlain_append {earlier later : Forest Content} :
    (earlier ++ later).IsPlain ↔ earlier.IsPlain ∧ later.IsPlain := by
  simp only [IsPlain, labels_append, List.forall_mem_append]

theorem isPlain_empty : (.empty : Forest Content).IsPlain := by
  simp [IsPlain, labels]

end Forest

theorem Opening.holds_of_not_raw {opening : Opening}
    (markup : hasRawContent opening.name.toList = false) (row : Forest Content) :
    opening.Holds row := by
  constructor
  · intro raw
    rw [markup] at raw
    contradiction
  · intro verbatim
    rw [hasRawContent_of_hasVerbatimContent verbatim] at markup
    contradiction

/-- An element that is closed can be written with the row in it. -/
theorem Opening.Sound.admits {opening : Opening} (sound : opening.Sound) {row : Forest Content}
    (holds : opening.Holds row) :
    Content.Admits (.element opening.name opening.attributes) row := by
  refine ⟨sound.isName, sound.attributes, sound.distinct, ?_, holds.raw, holds.verbatim⟩
  intro void
  rw [sound.notVoid] at void
  contradiction

namespace Growth

variable {growth : Growth}

theorem TakesMarkup.holds (takes : growth.TakesMarkup) (row : Forest Content) :
    ∀ opening ∈ growth.opened.head?, opening.Holds row :=
  fun opening member => Opening.holds_of_not_raw (takes opening (List.mem_of_mem_head? member)) row

theorem Sound.takesMarkup_of_leave_one {row : Forest Content} {innermost : Opening}
    {outer : List Opening} (sound : Sound ⟨row, innermost :: outer⟩) :
    Sound ⟨innermost.earlier ++
        Forest.single (.element innermost.name innermost.attributes) row, outer⟩ ∧
      TakesMarkup ⟨innermost.earlier ++
        Forest.single (.element innermost.name innermost.attributes) row, outer⟩ := by
  have opened := sound.opened innermost List.mem_cons_self
  have admits := opened.admits (sound.innermost innermost rfl)
  have takes : TakesMarkup ⟨innermost.earlier ++
      Forest.single (.element innermost.name innermost.attributes) row, outer⟩ := sound.outer
  refine ⟨⟨?_, ?_, ?_, ?_, ?_⟩, takes⟩
  · exact Forest.writable_append.2 ⟨opened.earlier, admits, sound.row, trivial⟩
  · refine Forest.isPlain_append.2 ⟨opened.plain, ?_⟩
    exact Forest.isPlain_plant.2 ⟨by simp, sound.plain, Forest.isPlain_empty⟩
  · exact fun opening member => sound.opened opening (List.mem_cons_of_mem _ member)
  · exact TakesMarkup.holds takes _
  · exact fun opening member => takes opening (List.mem_of_mem_tail member)

theorem Sound.leave (sound : growth.Sound) (count : Nat) : (growth.leave count).Sound := by
  induction count generalizing growth with
  | zero => exact sound
  | succ count inductionHypothesis =>
      obtain ⟨row, opened⟩ := growth
      cases opened with
      | nil => exact sound
      | cons innermost outer => exact inductionHypothesis sound.takesMarkup_of_leave_one.1

theorem Sound.takesMarkup_leave (sound : growth.Sound) (count : Nat) :
    (growth.leave (count + 1)).TakesMarkup := by
  intro opening member
  rw [opened_leave, Nat.add_comm, ← List.drop_drop, List.drop_one] at member
  exact sound.outer opening (List.mem_of_mem_drop member)

theorem Sound.forest (sound : growth.Sound) :
    growth.forest.Writable ∧ growth.forest.IsPlain :=
  ⟨(sound.leave _).row, (sound.leave _).plain⟩

/-! ## Steps -/

theorem Sound.addLeaf (sound : growth.Sound) {content : Content}
    (admits : content.Admits .empty) (plain : content ≠ .boundary ∧ content ≠ .text "")
    (holds : ∀ opening ∈ growth.opened.head?,
      opening.Holds (growth.row ++ Forest.single content .empty)) :
    (growth.addLeaf content).Sound := by
  refine ⟨?_, ?_, sound.opened, holds, sound.outer⟩
  · exact Forest.writable_append.2 ⟨sound.row, admits, trivial, trivial⟩
  · refine Forest.isPlain_append.2 ⟨sound.plain, ?_⟩
    exact Forest.isPlain_plant.2 ⟨plain, Forest.isPlain_empty, Forest.isPlain_empty⟩

theorem admits_element {name : String} {attributes : List Attribute}
    (isName : IsName name.toList) (writable : ∀ entry ∈ attributes, entry.IsWritable)
    (distinct : (attributes.map Attribute.name).Nodup) :
    Content.Admits (.element name attributes) .empty := by
  refine ⟨isName, writable, distinct, fun _ => rfl, fun _ => ?_, fun _ => ?_⟩
  · simp [Forest.HoldsTexts, Forest.roots]
  · intro skipped within
    simp [Forest.markup] at within

theorem Sound.enter (sound : growth.Sound) (takes : growth.TakesMarkup) {name : String}
    {attributes : List Attribute} (isName : IsName name.toList)
    (writable : ∀ entry ∈ attributes, entry.IsWritable)
    (distinct : (attributes.map Attribute.name).Nodup)
    (notVoid : isVoidElement name = false) : (growth.enter name attributes).Sound := by
  refine ⟨trivial, Forest.isPlain_empty, ?_, ?_, takes⟩
  · intro opening member
    rcases List.mem_cons.1 member with rfl | later
    · exact ⟨sound.row, sound.plain, isName, writable, distinct, notVoid⟩
    · exact sound.opened opening later
  · intro opening member
    constructor
    · exact fun _ => by simp [Growth.enter, Forest.HoldsTexts, Forest.roots]
    · intro _ skipped within
      simp [Growth.enter, Forest.markup] at within

theorem Sound.closeElement (sound : growth.Sound) (strict : Bool) (name : String) :
    (growth.closeElement strict name).1.Sound := by
  unfold Growth.closeElement
  split
  · split
    · exact sound
    · exact sound.leave _
  · exact sound.leave _
  · exact sound

theorem takesMarkup_closeElement (sound : growth.Sound) (takes : growth.TakesMarkup)
    (strict : Bool) (name : String) : (growth.closeElement strict name).1.TakesMarkup := by
  unfold Growth.closeElement
  split
  · split
    · exact takes
    · exact sound.takesMarkup_leave _
  · exact sound.takesMarkup_leave _
  · exact takes

/-- The growth waits for this text, read in this mode. -/
def Awaits (growth : Growth) : ReadingMode → List Char → Prop
  | .markup, text =>
      growth.TakesMarkup ∨ ∃ innermost outer, growth.opened = innermost :: outer ∧
        (text = [] ∨ startsClosingTag innermost.name.toList text = true)
  | .rawContent name, _ =>
      ∃ innermost outer, growth.opened = innermost :: outer ∧ innermost.name.toList = name ∧
        growth.row = .empty
  | .finished, _ => True

/-- What taking the event of a lexeme comes to: a sound growth, which waits for what follows. -/
def Continues (growth : Growth) (strict : Bool) (lexeme : Lexeme) (after : List Char) : Prop :=
  match lexeme.event? strict with
  | some event =>
      (growth.take strict event).1.Sound ∧
        (growth.take strict event).1.Awaits lexeme.construct.nextMode after
  | none => growth.Awaits lexeme.construct.nextMode after

theorem readAttributes_sound (strict : Bool) (text : List Char) :
    (∀ entry ∈ Lexeme.readAttributes strict text, entry.IsWritable) ∧
      ((Lexeme.readAttributes strict text).map Attribute.name).Nodup := by
  unfold Lexeme.readAttributes
  split
  · exact ⟨by simp, List.nodup_nil⟩
  · exact ⟨fun _ member => Attribute.isWritable_of_mem_readAll member,
      Attribute.nodup_map_name_readAll text⟩

theorem Sound.continues_startTag (sound : growth.Sound) (takes : growth.TakesMarkup)
    (strict : Bool) {name text : List Char} (isName : IsName name) {lexeme : Lexeme}
    (construct : lexeme.construct = .startTag name text) (after : List Char) :
    growth.Continues strict lexeme after := by
  obtain ⟨writable, distinct⟩ := readAttributes_sound strict text
  have spelled : IsName (String.ofList name).toList := by rwa [String.toList_ofList]
  unfold Continues
  simp only [Lexeme.event?, construct, Growth.take, Growth.openElement]
  cases void : isVoidElement (String.ofList name) with
  | true =>
      have markup := hasRawContent_eq_false_of_isVoidElement void
      rw [String.toList_ofList] at markup
      simp only [↓reduceIte]
      refine ⟨sound.addLeaf (admits_element spelled writable distinct) (by simp)
        (takes.holds _), ?_⟩
      rw [Construct.nextMode, markup]
      exact Or.inl takes
  | false =>
      simp only [Bool.false_eq_true, ↓reduceIte]
      refine ⟨sound.enter takes spelled writable distinct void, ?_⟩
      rw [Construct.nextMode]
      cases raw : hasRawContent name with
      | true => exact ⟨_, _, rfl, String.toList_ofList, rfl⟩
      | false =>
          left
          intro opening member
          rcases List.mem_cons.1 member with rfl | later
          · rwa [String.toList_ofList]
          · exact takes opening later

/-- Markup is read into an element whose content is markup. -/
theorem Sound.continues_of_takesMarkup (sound : growth.Sound) (takes : growth.TakesMarkup)
    (strict : Bool) {lexeme : Lexeme} (isRead : lexeme.construct.IsRead) (after : List Char) :
    growth.Continues strict lexeme after := by
  cases construct : lexeme.construct with
  | startTag name text =>
      rw [construct] at isRead
      exact sound.continues_startTag takes strict isRead construct after
  | emptyTag name text =>
      rw [construct] at isRead
      obtain ⟨writable, distinct⟩ := readAttributes_sound strict text
      have spelled : IsName (String.ofList name).toList := by rwa [String.toList_ofList]
      simp only [Continues, Lexeme.event?, construct]
      exact ⟨sound.addLeaf (admits_element spelled writable distinct) (by simp)
        (takes.holds _), Or.inl takes⟩
  | endTag name =>
      simp only [Continues, Lexeme.event?, construct]
      exact ⟨sound.closeElement strict _, Or.inl (takesMarkup_closeElement sound takes strict _)⟩
  | text content =>
      rw [construct] at isRead
      simp only [Continues, Lexeme.event?, construct]
      refine ⟨sound.addLeaf rfl ⟨by simp, ?_⟩ (takes.holds _), Or.inl takes⟩
      rw [ne_eq, Content.text.injEq, String.ofList_eq_empty_iff]
      exact isRead
  | comment content =>
      rw [construct] at isRead
      simp only [Continues, Lexeme.event?, construct]
      refine ⟨sound.addLeaf ⟨rfl, ?_⟩ (by simp) (takes.holds _), Or.inl takes⟩
      rwa [String.toList_ofList]
  | declaration content =>
      simp only [Continues, Lexeme.event?, construct]
      exact ⟨sound, Or.inl takes⟩
  | dropped =>
      simp only [Continues, Lexeme.event?, construct]
      exact Or.inl takes
  | endOfText =>
      simp only [Continues, Lexeme.event?, construct]
      trivial

/-- The closing tag of the innermost element closes it. -/
theorem Sound.continues_of_endTag (sound : growth.Sound) (strict : Bool) {innermost : Opening}
    {outer : List Opening} (opened : growth.opened = innermost :: outer) {lexeme : Lexeme}
    {spelled : List Char} (agree : agreeIgnoringCase innermost.name.toList spelled = true)
    (construct : lexeme.construct = .endTag spelled) (after : List Char) :
    growth.Continues strict lexeme after := by
  obtain ⟨row, elements⟩ := growth
  simp only at opened
  subst opened
  have found : depth? ⟨row, innermost :: outer⟩ (String.ofList spelled) = some 0 := by
    simp [depth?, List.findIdx?_cons, agree]
  have closed := sound.takesMarkup_of_leave_one
  simp only [Continues, Lexeme.event?, construct, Growth.take, Growth.closeElement, found]
  exact ⟨closed.1, Or.inl closed.2⟩

theorem Sound.continues_markup (sound : growth.Sound) (strict : Bool) {first : Char}
    {rest : List Char} (awaits : growth.Awaits .markup (first :: rest)) (start : Nat) :
    growth.Continues strict (Lexeme.readMarkup start first rest).1
      (Lexeme.readMarkup start first rest).2 := by
  rcases awaits with takes | ⟨innermost, outer, opened, ended | closing⟩
  · exact sound.continues_of_takesMarkup takes strict
      (Lexeme.isRead_readMarkup start first rest) _
  · contradiction
  · have isName := (sound.opened innermost (by rw [opened]; exact List.mem_cons_self)).isName
    obtain ⟨spelled, agree, construct⟩ :=
      Lexeme.readMarkup_of_startsClosingTag isName closing start
    exact sound.continues_of_endTag strict opened agree construct _

/-- The content of a raw element reaches to its closing tag or the end of everything. -/
theorem readRawContent_cases {name : List Char} (free : '<' ∉ name) (start : Nat)
    (text : List Char) :
    ∃ content, (Lexeme.readRawContent start name text).1.construct =
        Lexeme.rawConstruct name content ∧ KeepsOpen name content ∧
      ((Lexeme.readRawContent start name text).2 = [] ∨
        startsClosingTag name (Lexeme.readRawContent start name text).2 = true) := by
  cases cut : splitClosingTag? name text with
  | none =>
      rw [Lexeme.readRawContent_of_uncut cut]
      exact ⟨text, rfl, keepsOpen_of_splitClosingTag?_eq_none free cut, Or.inl rfl⟩
  | some halves =>
      rw [Lexeme.readRawContent_of_cut cut]
      exact ⟨halves.1, rfl, keepsOpen_of_splitClosingTag? free cut,
        Or.inr (holds_of_splitFirst? cut)⟩

theorem Sound.continues_rawContent (sound : growth.Sound) (strict : Bool) {name : List Char}
    {text : List Char} (awaits : growth.Awaits (.rawContent name) text) (start : Nat) :
    growth.Continues strict (Lexeme.readRawContent start name text).1
      (Lexeme.readRawContent start name text).2 := by
  obtain ⟨innermost, outer, opened, rfl, empty⟩ := awaits
  have isName := (sound.opened innermost (by rw [opened]; exact List.mem_cons_self)).isName
  obtain ⟨content, construct, keeps, ended⟩ :=
    readRawContent_cases isName.lessThan_not_mem start text
  unfold Continues
  rw [Lexeme.event?, construct, Lexeme.rawConstruct]
  by_cases nothing : content.isEmpty = true
  · rw [if_pos nothing]
    exact Or.inr ⟨innermost, outer, opened, ended⟩
  · have nonempty : content ≠ [] := by simpa using nothing
    have filled : ∀ data : String, data ≠ "" →
        (hasVerbatimContent innermost.name.toList = true → data.toList = content) →
          (growth.addLeaf (.text data)).Sound := by
      intro data notEmpty spelled
      refine sound.addLeaf rfl (by simp [notEmpty]) ?_
      intro opening member
      rw [opened, List.head?_cons, Option.mem_some] at member
      subst member
      rw [empty]
      constructor
      · intro _
        simp [Forest.HoldsTexts, Forest.single, Forest.roots]
      · intro verbatim
        rw [Forest.empty_append]
        simpa [Forest.single, Forest.markup, textMarkup, spelled verbatim] using keeps
    rw [if_neg nothing]
    cases verbatim : hasVerbatimContent innermost.name.toList with
    | true =>
        simp only [↓reduceIte, Growth.take]
        refine ⟨filled _ ?_ fun _ => String.toList_ofList, Or.inr ⟨innermost, outer, opened, ended⟩⟩
        rwa [ne_eq, String.ofList_eq_empty_iff]
    | false =>
        simp only [Bool.false_eq_true, ↓reduceIte, Growth.take]
        refine ⟨filled _ ?_ fun isVerbatim => ?_, Or.inr ⟨innermost, outer, opened, ended⟩⟩
        · rw [ne_eq, String.ofList_eq_empty_iff]
          exact Reference.decode_ne_nil nonempty
        · rw [verbatim] at isVerbatim
          contradiction

/-! ## Runs -/

/-- When every lexeme is taken to a growth that waits for the next, the growth stays sound. -/
theorem Sound.takeAll_cons (sound : growth.Sound) {strict : Bool} {lexeme : Lexeme}
    {after : List Char} (continues : growth.Continues strict lexeme after)
    {onward : List Lexeme}
    (rest : ∀ {next : Growth} {seen : Option Fault}, next.Sound →
      next.Awaits lexeme.construct.nextMode after →
        (next.takeAll strict (readEventsFrom strict seen onward)).1.Sound)
    (seen : Option Fault) :
    (growth.takeAll strict (readEventsFrom strict seen (lexeme :: onward))).1.Sound := by
  unfold Continues at continues
  rw [readEventsFrom]
  cases given : lexeme.event? strict with
  | none =>
      rw [given] at continues
      exact rest sound continues
  | some event =>
      rw [given] at continues
      simp only [Growth.takeAll]
      split
      · exact continues.1
      · split
        · exact continues.1
        · exact rest continues.1 continues.2

theorem Sound.takeAll (sound : growth.Sound) {mode : ReadingMode} {text : List Char}
    (awaits : growth.Awaits mode text) (strict : Bool) (seen : Option Fault) (start : Nat) :
    (growth.takeAll strict
      (readEventsFrom strict seen (Lexeme.readFrom mode start text))).1.Sound := by
  fun_induction Lexeme.readFrom mode start text generalizing growth seen with
  | case1 => exact sound
  | case2 start text name read =>
      rename_i inductionHypothesis
      refine sound.takeAll_cons (sound.continues_rawContent strict awaits start) ?_ seen
      intro next seen nextSound nextAwaits
      rw [Lexeme.construct_readRawContent, Lexeme.nextMode_rawConstruct] at nextAwaits
      exact inductionHypothesis nextSound nextAwaits seen
  | case3 start =>
      simpa [readEventsFrom, Lexeme.atEnd, Lexeme.event?, Growth.takeAll] using sound
  | case4 start first rest read =>
      rename_i inductionHypothesis
      refine sound.takeAll_cons (sound.continues_markup strict awaits start) ?_ seen
      intro next seen nextSound nextAwaits
      exact inductionHypothesis nextSound nextAwaits seen

theorem sound_empty : Sound {} :=
  ⟨trivial, Forest.isPlain_empty, by simp, by simp, by simp⟩

/-- Whatever is parsed, the forest can be written and holds no boundaries and no empty texts. -/
theorem forest_ofMarkup (strict : Bool) (text : List Char) :
    (ofMarkup strict text).1.forest.Writable ∧ (ofMarkup strict text).1.forest.IsPlain := by
  have awaits : Growth.Awaits {} .markup text := Or.inl (by simp [TakesMarkup])
  exact Sound.forest (sound_empty.takeAll awaits strict none 0)

end Growth

/-! ## Parsed documents -/

/-- Parsing puts a new fragment with the forest in the document. -/
theorem Document.WellFormed.copiedIn_parse {document : Document}
    (wellFormed : document.WellFormed) (strict : Bool) (markup : String) :
    Document.CopiedIn document (document.parse strict markup).document
      (document.parse strict markup).root .fragment
      (Growth.ofMarkup strict markup.toList).1.forest := by
  rw [Document.parse_eq]
  exact Document.copiedIn_plant wellFormed (Content.hasDistinctNames_of_attributes_eq_nil rfl)
    (fun _ => rfl) (Growth.forest_ofMarkup strict markup.toList).1.fits

end MarkupTemplate
