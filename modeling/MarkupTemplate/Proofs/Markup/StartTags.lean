import MarkupTemplate.Proofs.Markup.Lexemes

/-!
# Start tags in any spelling

However the attributes of a start tag are spelled, the tag is read as one event: its name, and for
each name among its attributes the first value that it was given, with the references decoded.
Two scans agree on this.  The first looks for the closing bracket of the tag and only knows quotes;
the second takes the text before the bracket apart.
-/

namespace MarkupTemplate

open MarkupTemplate.Text

/-! ## Tags as they are spelled -/

/-- The attribute that a spelling gives. -/
def SpelledAttribute.attribute (spelled : SpelledAttribute) : Attribute :=
  ⟨String.ofList spelled.name, String.ofList (Reference.decode spelled.value)⟩

/-- A start tag as it is spelled.  A slash before the closing bracket makes it an empty tag. -/
structure SpelledTag where
  name : List Char
  isName : IsName name
  items : List SpelledAttribute
  trailing : Blanks
  isEmpty : Bool

namespace SpelledTag

/-- What is spelled between the name and the end of the tag. -/
def inside (tag : SpelledTag) : List Char :=
  tag.items.flatMap SpelledAttribute.source ++ tag.trailing.text

def slash (tag : SpelledTag) : List Char :=
  if tag.isEmpty then ['/'] else []

def source (tag : SpelledTag) : List Char :=
  '<' :: (tag.name ++ (tag.inside ++ tag.slash ++ ['>']))

/-- The attributes of the tag: for each name its first value. -/
def attributes (tag : SpelledTag) : List Attribute :=
  Attribute.firstOfEach (tag.items.map SpelledAttribute.attribute)

/-- The event of the tag, if these are its attributes. -/
def event (tag : SpelledTag) (attributes : List Attribute) : Event :=
  if tag.isEmpty then .emptyElement (String.ofList tag.name) attributes
  else .startElement (String.ofList tag.name) attributes

/-- No two attributes of the tag have the same name. -/
def NamesOnce (tag : SpelledTag) : Prop :=
  (tag.items.map SpelledAttribute.name).Nodup

/-! ## What is between the name and the closing bracket -/

variable (tag : SpelledTag)

theorem passesTo_inside : PassesTo none tag.inside none :=
  (SpelledAttribute.passesTo_flatMap tag.items).append tag.trailing.passesTo

theorem splitTagEnd?_inside (rest : List Char) :
    splitTagEnd? (tag.inside ++ tag.slash ++ '>' :: rest) =
      some (tag.inside ++ tag.slash, rest) := by
  refine splitTagEnd?_of_passesTo (tag.passesTo_inside.append ?_) rest
  apply passesTo_of_unquoted
  unfold slash
  cases tag.isEmpty with
  | false => exact List.forall_mem_nil _
  | true => exact List.forall_mem_singleton.2 (by decide)

theorem endsName_inside (rest : List Char) :
    EndsName (tag.inside ++ tag.slash ++ '>' :: rest) := by
  intro character isFirst
  rw [List.append_assoc] at isFirst
  cases shape : tag.inside with
  | nil =>
      rw [shape, slash] at isFirst
      cases isEmpty : tag.isEmpty <;> rw [isEmpty] at isFirst <;> rw [← Option.some.inj isFirst] <;>
        decide
  | cons first others =>
      rw [shape] at isFirst
      rw [← Option.some.inj isFirst]
      have blank := (SpelledAttribute.endsItem_flatMap tag.items tag.trailing).blank first
      rw [← inside, shape] at blank
      exact (of_isBlank (blank rfl)).2.1

theorem getLast?_inside : tag.inside.getLast? ≠ some '/' :=
  getLast?_append_ne (SpelledAttribute.getLast?_flatMap_ne tag.items) tag.trailing.getLast?_ne

theorem readAll_inside : Attribute.readAll tag.inside = tag.attributes := by
  unfold Attribute.readAll AttributeItem.attributes attributes
  rw [inside, SpelledAttribute.readAll_flatMap_source, List.filterMap_map,
    Attribute.foldl_addNew_eq, List.nil_append, List.filter_eq_self.2 (by simp [Attribute.isNamed])]
  have each : AttributeItem.attribute? ∘ SpelledAttribute.item =
      some ∘ SpelledAttribute.attribute := rfl
  rw [each, List.filterMap_eq_map]

theorem fault?_inside : Attribute.fault? tag.inside =
    if (tag.items.map SpelledAttribute.name).Nodup then none else some .duplicate := by
  unfold Attribute.fault?
  rw [inside, SpelledAttribute.readAll_flatMap_source, AttributeItem.faultAfter?_map_item]
  simp only [List.not_mem_nil, not_false_eq_true, implies_true, and_true]

/-! ## Reading a tag -/

/-- What the tag is read as. -/
def construct : Construct :=
  if tag.isEmpty then .emptyTag tag.name tag.inside else .startTag tag.name tag.inside

theorem readStartTag_inside (rest : List Char) :
    Lexeme.readStartTag 0 tag.name (tag.inside ++ tag.slash ++ '>' :: rest) =
      ({ start := 0, source := tag.source, construct := tag.construct, faults := [] }, rest) := by
  have source : '<' :: tag.name ++ (tag.inside ++ tag.slash) ++ ['>'] = tag.source := by
    simp [SpelledTag.source]
  unfold Lexeme.readStartTag
  simp only [tag.splitTagEnd?_inside, source]
  unfold construct slash
  cases tag.isEmpty with
  | true => simp only [↓reduceIte, List.getLast?_concat, List.dropLast_concat]
  | false =>
      simp only [Bool.false_eq_true, ↓reduceIte, List.append_nil, tag.getLast?_inside]

/-- A tag is read up to its closing bracket, whatever follows. -/
theorem exists_readAll_eq (rest : List Char) : ∃ later, Lexeme.readAll (tag.source ++ rest) =
    { start := 0, source := tag.source, construct := tag.construct, faults := [] } :: later := by
  have shape : tag.source ++ rest =
      '<' :: (tag.name ++ (tag.inside ++ tag.slash ++ '>' :: rest)) := by
    simp [source]
  have read := Lexeme.readMarkup_of_isName tag.isName (tag.endsName_inside rest) 0
  rw [tag.readStartTag_inside] at read
  rw [shape, Lexeme.readAll, Lexeme.readFrom, read]
  exact ⟨_, rfl⟩

/-- The first event that a reader gives is the one of the tag. -/
theorem head?_readEvents (strict : Bool) (rest : List Char) :
    (readEvents strict (tag.source ++ rest)).head? =
      some
        { event := tag.event (Lexeme.readAttributes strict tag.inside)
          position := byteSize tag.source
          fault? :=
            if strict then
              (Attribute.fault? tag.inside).map fun fault => ⟨0, .invalidAttributes fault⟩
            else none } := by
  obtain ⟨later, read⟩ := tag.exists_readAll_eq rest
  unfold readEvents
  rw [read, readEventsFrom]
  unfold Lexeme.event? Lexeme.allFaults Lexeme.attributeFault? construct event Lexeme.stop
  cases tag.isEmpty <;> simp [Option.head?_toList]

/-- However a start tag is spelled, it is read as its event.  A strict reader finds nothing wrong
with it unless a name comes twice, and then reports that where the tag begins. -/
theorem head?_readEvents_source (rest : List Char) :
    (readEvents false (tag.source ++ rest)).head? =
        some ⟨tag.event tag.attributes, byteSize tag.source, none⟩ ∧
      ((readEvents true (tag.source ++ rest)).head? =
          some ⟨tag.event tag.attributes, byteSize tag.source, none⟩ ↔ tag.NamesOnce) ∧
      (¬ tag.NamesOnce → (readEvents true (tag.source ++ rest)).head? =
        some ⟨tag.event [], byteSize tag.source, some ⟨0, .invalidAttributes .duplicate⟩⟩) := by
  simp only [head?_readEvents, Lexeme.readAttributes, readAll_inside, fault?_inside]
  by_cases once : tag.NamesOnce
  · have same : (tag.items.map SpelledAttribute.name).Nodup := once
    simp [once, same]
  · have same : ¬ (tag.items.map SpelledAttribute.name).Nodup := once
    simp [once, same]

/-- Quotes hide what would end the tag, and the second value of a name is not taken. -/
theorem head?_readEvents_mixed :
    (readEvents false "<p a = \x22/>\x27\x22 b=\x27&lt;\x27 c=x/y d a=2 />c</p>".toList).head? =
        some ⟨.emptyElement "p" [⟨"a", "/>\x27"⟩, ⟨"b", "<"⟩, ⟨"c", "x/y"⟩, ⟨"d", ""⟩], 36, none⟩ ∧
      (readEvents true "<p a = \x22/>\x27\x22 b=\x27&lt;\x27 c=x/y d a=2 />c</p>".toList).head? =
        some ⟨.emptyElement "p" [], 36, some ⟨0, .invalidAttributes .duplicate⟩⟩ := by
  let inQuotationMarks : ValueSpelling :=
    .quoted quotationMark ['/', '>', '\x27'] (by decide) (by decide)
  let inApostrophes : ValueSpelling :=
    .quoted apostrophe ['&', 'l', 't', ';'] (by decide) (by decide)
  let unquoted : ValueSpelling :=
    .unquoted ['x', '/', 'y'] (by decide)
      (by simp [isBlank, isQuote, quotationMark, apostrophe]) (by decide)
  let unquotedToo : ValueSpelling :=
    .unquoted ['2'] (by decide)
      (by simp [isBlank, isQuote, quotationMark, apostrophe]) (by decide)
  let item (name : Char) (isName : isAttributeNameCharacter name = true)
      (given? : Option GivenValue) : SpelledAttribute :=
    { lead := .space, leads := by decide, name := [name], named := List.cons_ne_nil _ _
      isName := by simpa using isName, given? }
  let tag : SpelledTag :=
    { name := ['p']
      isName := ⟨rfl, List.forall_mem_nil _⟩
      items :=
        [ item 'a' (by decide) (some ⟨.space, .space, inQuotationMarks⟩),
          item 'b' (by decide) (some ⟨.absent, .absent, inApostrophes⟩),
          item 'c' (by decide) (some ⟨.absent, .absent, unquoted⟩),
          item 'd' (by decide) none,
          item 'a' (by decide) (some ⟨.absent, .absent, unquotedToo⟩) ]
      trailing := .space
      isEmpty := true }
  have text : "<p a = \x22/>\x27\x22 b=\x27&lt;\x27 c=x/y d a=2 />c</p>".toList =
      tag.source ++ "c</p>".toList := by decide +kernel
  have size : byteSize tag.source = 36 := by decide +kernel
  have attributes : tag.attributes = [⟨"a", "/>\x27"⟩, ⟨"b", "<"⟩, ⟨"c", "x/y"⟩, ⟨"d", ""⟩] := by
    decide +kernel
  have twice : ¬ tag.NamesOnce := by unfold NamesOnce; decide
  have read := tag.head?_readEvents_source "c</p>".toList
  rw [text]
  rw [attributes, size] at read
  exact ⟨read.1, read.2.2 twice⟩

end SpelledTag

end MarkupTemplate
