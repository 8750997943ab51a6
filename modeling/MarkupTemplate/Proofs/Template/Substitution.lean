import MarkupTemplate.Proofs.Template.Instantiating
import MarkupTemplate.Proofs.Template.Uncut
import MarkupTemplate.Proofs.Text.Pieces

/-!
# Rendering is substitution

The markup of an instance can be had from the markup of its template without any tree.  If the
fragments of a template, joined by the marker and parsed, are written as markup in which the marker
occurs as often as there are places between the fragments, then the instance is written as the same
markup with the values in place of the markers, each of them written as its slot asks for.
-/

namespace MarkupTemplate

open Document Template

/-- The text with other texts in place of its separators. -/
def Text.substitute (separator text : List Char) (replacements : List (List Char)) : List Char :=
  fillGaps (pieces separator text) replacements

theorem Text.fillGaps_replicate (separator : List Char) {parts : List (List Char)} {count : Nat}
    (length : parts.length = count + 1) :
    fillGaps parts (List.replicate count separator) = separator.intercalate parts := by
  induction parts generalizing count with
  | nil => simp at length
  | cons part others inductionHypothesis =>
      cases others with
      | nil =>
          obtain rfl : count = 0 := by simpa using length
          rw [List.intercalate_singleton]
          rfl
      | cons next rest =>
          cases count with
          | zero => simp at length
          | succ count =>
              rw [List.intercalate_cons_cons, List.replicate_succ, fillGaps,
                inductionHypothesis (Nat.succ.inj length)]

/-! ## How slots are written -/

/-- How the values of a slot are written in the tree below a root: as the value of an attribute, or
as a text where the text that stands in for the region is. -/
def Document.holeAt (document : Document) (root : NodeId) : Slot → Hole
  | .attributeValue _ _ => .attributeValue
  | .region address =>
      .region ((document.resolve? root address).any document.standsVerbatim)

/-- How the values of a slot of the template are written. -/
def Template.holeOf (template : Template) (slot : Slot) : Hole :=
  template.document.holeAt template.root slot

theorem standsVerbatim_of_child {document : Document} {id parent : NodeId} {content : Content}
    (child : document.parent? id = some parent) (holder : document.content? parent = some content) :
    document.standsVerbatim id = content.takesVerbatim := by
  unfold standsVerbatim
  rw [child, Option.bind_some, name?, holder]
  cases content <;> rfl

section

variable {document : Document} {root parent : NodeId} {earlier later : List NodeId}
  {path : Address}

theorem map_holeAt_attributes (document : Document) (root : NodeId) (marker : String)
    (path : Address) (name : String) (attributes : List Attribute) :
    (slotsAt marker path (.element name attributes)).map (document.holeAt root) =
      holes (attributes.flatMap (attributePattern marker)) := by
  induction attributes with
  | nil => rfl
  | cons entry rest inductionHypothesis =>
      rw [List.flatMap_cons, holes_append, ← inductionHypothesis]
      by_cases slot : entry.value = marker
      · rw [holes_attributePattern_of_eq slot]
        simp [slotsAt, marked, slot, holeAt]
      · rw [holes_attributePattern_of_ne slot]
        simp [slotsAt, marked, slot]

theorem map_holeAt_slotsAt (marker : String) {label : NodeId × Content} {content : Content}
    (addressed : document.Addresses root path label.1)
    (child : document.parent? label.1 = some parent)
    (holder : document.content? parent = some content) :
    (slotsAt marker path label.2).map (document.holeAt root) =
      holes (nodePattern marker content.takesVerbatim label.2 []) := by
  obtain ⟨id, own⟩ := label
  cases own with
  | element name attributes =>
      rw [holes_nodePattern_element]
      exact map_holeAt_attributes document root marker path name attributes
  | text data =>
      rw [slotsAt, nodePattern]
      split
      · simp [holeAt, addressed.resolved, standsVerbatim_of_child child holder]
      · rfl
  | _ => rfl

/-- The slots of a cut block are written as the holes of its pattern are. -/
theorem map_holeAt_slotsOf (marker : String) {block : Forest (NodeId × Content)}
    (stands : document.Stands parent earlier later block)
    (addressed : document.Addresses root path parent) (bare : block.contents.LeavesBare)
    {content : Content} (holder : document.content? parent = some content) :
    (slotsOf marker path earlier.length block.contents).map (document.holeAt root) =
      holes (pattern marker content.takesVerbatim block.contents) := by
  induction block generalizing parent earlier later path content with
  | empty => rfl
  | plant label children siblings childrenHypothesis siblingsHypothesis =>
      rw [Forest.plant_eq_single_append] at stands
      have here := addressed.child stands.wellFormed stands.left.row
      have isChild : document.parent? label.1 = some parent :=
        stands.wellFormed.arranged.parent?_eq_some_iff.2
          (stands.left.subset (List.mem_singleton_self label.1))
      have inside := childrenHypothesis stands.left.inside here bare.2.1 stands.left.content?
      have beside := siblingsHypothesis stands.right addressed bare.2.2 holder
      rw [List.length_nil] at inside
      rw [Forest.rootIds_single, List.length_append, List.length_singleton] at beside
      have own : holes (nodePattern marker content.takesVerbatim label.2
          (pattern marker label.2.takesVerbatim children.contents)) = _ :=
        holes_nodePattern (bare_pattern bare.1)
      rw [Forest.contents_plant, slotsOf_plant, pattern, holes_append, own, List.append_assoc,
        List.map_append, List.map_append, map_holeAt_slotsAt marker here isChild holder, inside,
        beside]

end

namespace Template

variable {template : Template} {marker : String} {tree : Forest (NodeId × Content)}

theorem CompiledAs.holes_eq (compiled : template.CompiledAs marker tree)
    (bare : tree.contents.LeavesBare) :
    template.slots.map template.holeOf = holes (pattern marker false tree.contents) := by
  rw [compiled.slots_eq]
  exact map_holeAt_slotsOf marker (compiled.hasBelow.stands compiled.wellFormed)
    (addresses_root (lt_size_of_content? compiled.root)) bare compiled.root

theorem CompiledAs.length_slots (compiled : template.CompiledAs marker tree) :
    template.slots.length = (sites marker tree).length := by
  exact length_of_mapM_eq_ok compiled.slots

/-! ## Substitution -/

theorem startsUniquely_defaultMarker : Text.StartsUniquely defaultMarker.toList :=
  ⟨_, _, rfl, by decide⟩

/-- The markup of the fragments of a template, joined by the marker and parsed. -/
def plainMarkup (options : CompileOptions) (fragments : List String) : List Char :=
  let parsed := Document.empty.parse options.strict (joined options fragments)
  (parsed.document.markup parsed.root).toList

theorem plainMarkup_eq (options : CompileOptions) (fragments : List String) :
    plainMarkup options fragments = (parsedForest options fragments).markup false := by
  have parsed := wellFormed_empty.copiedIn_parse options.strict (joined options fragments)
  rw [plainMarkup, parsed.markup_root, String.toList_ofList]
  rfl

/-- A marker that cannot overlap itself and is not changed by escaping is found, in the markup of
the uncut tree, in the places of the slots. -/
theorem pieces_plainMarkup (options : CompileOptions) (fragments : List String)
    (unique : Text.StartsUniquely options.marker.toList) (inert : IsInert options.marker)
    (occurring : (Text.occurrences options.marker.toList (plainMarkup options fragments)).length =
      (holes (pattern options.marker false
        ((parsedForest options fragments).isolated options.marker.toList))).length) :
    Text.pieces options.marker.toList (plainMarkup options fragments) =
      gaps (pattern options.marker false
        ((parsedForest options fragments).isolated options.marker.toList)) := by
  obtain ⟨count, marks⟩ := marks_isolated inert false (writable_parsedForest options fragments)
  have holesCount := marks.length_fillings
  rw [List.length_replicate] at holesCount
  have whole := marks.eq_fillGaps
  rw [Text.fillGaps_replicate _ (by rw [length_gaps, holesCount])] at whole
  refine Text.pieces_eq_of_intercalate unique (gaps_ne_nil _) ?_ ?_
  · rw [plainMarkup_eq]
    exact whole.symm
  · rw [Text.length_pieces, occurring, length_gaps]

/-- If the marker occurs in the markup of the joined fragments once for every place between them,
an instance is written as this markup with the values, as their slots write them, in place of the
markers. -/
theorem markup_of_instance {strict : Bool} {fragments : List String} {count : Nat}
    {document : Document} {values : List Value}
    (compiled : compile { strict } fragments = .ok template)
    (length : fragments.length = count + 1)
    (occurring : (Text.occurrences defaultMarker.toList
      (plainMarkup { strict } fragments)).length = count)
    (reachable : document.Reachable) (valueCount : values.length = count)
    (accepted : ∀ slot value, (slot, value) ∈ template.slots.zip values →
      (template.holeOf slot).Accepts value) :
    ∃ made, (Instance.create document template values).outcome = .ok made ∧
      (made.markup (Instance.create document template values).document).toList =
        Text.substitute defaultMarker.toList (plainMarkup { strict } fragments)
          (List.zipWith (fun slot value => (template.holeOf slot).write value)
            template.slots values) := by
  obtain ⟨tree, compiledAs, contents, siteCount, _⟩ := compiledAs_of_compile compiled
  have bare : tree.contents.LeavesBare := by
    rw [contents]
    exact Forest.leavesBare_isolated _ (writable_parsedForest { strict } fragments)
  have bounded : tree.contents.SlotsBounded := by
    rw [contents]
    exact Forest.slotsBounded_isolated _ _
  have slotCounted : template.slots.length = count := by
    rw [compiledAs.length_slots, siteCount, length]
    rfl
  have holesEq := compiledAs.holes_eq bare
  have suits : Suits (template.slots.map template.holeOf) values := by
    rw [Suits, List.forall₂_map_left_iff, List.forall₂_iff_zip]
    exact ⟨slotCounted.trans valueCount.symm, fun member => accepted _ _ member⟩
  -- the instance
  obtain ⟨made, created⟩ := Instance.exists_createdAs reachable.wellFormed compiledAs bounded
    (valueCount.trans slotCounted.symm) suits.noNode
  refine ⟨made, created.outcome, ?_⟩
  -- and its markup
  rw [holesEq] at suits
  have filled := (fills_fill defaultMarker false bare suits).eq_fillGaps
  have pieces : Text.pieces defaultMarker.toList (plainMarkup { strict } fragments) =
      gaps (pattern defaultMarker false tree.contents) := by
    rw [contents]
    refine pieces_plainMarkup { strict } fragments startsUniquely_defaultMarker
      isInert_defaultMarker ?_
    rw [← contents, ← holesEq, List.length_map, slotCounted]
    exact occurring
  rw [created.markup_eq, String.toList_ofList, filled, Text.substitute, pieces, ← holesEq,
    fillings, List.zipWith_map_left]

/-- A text as the value of an attribute and a text in an element. -/
theorem markup_of_paragraph :
    let fragments := ["<p title=", ">", "</p>"]
    let values := [Value.text "1 < 2", Value.text "a & b"]
    ∃ template made, compile { strict := true } fragments = .ok template ∧
      (Instance.create .empty template values).outcome = .ok made ∧
      (made.markup (Instance.create .empty template values).document).toList =
        Text.substitute defaultMarker.toList (plainMarkup { strict := true } fragments)
          (List.zipWith (fun slot value => (template.holeOf slot).write value)
            template.slots values) ∧
      made.markup (Instance.create .empty template values).document =
        "<p title=\"1 &lt; 2\">a &amp; b</p>" := by
  intro fragments values
  have computed : (compile { strict := true } fragments).toOption.map (fun template =>
      (template.slots, Text.substitute defaultMarker.toList
        (plainMarkup { strict := true } fragments)
        (List.zipWith (fun slot value => (template.holeOf slot).write value)
          template.slots values))) =
      some ([.attributeValue [0] "title", .region [0, 0]],
        "<p title=\"1 &lt; 2\">a &amp; b</p>".toList) := by decide +kernel
  obtain ⟨template, found, result⟩ := Option.map_eq_some_iff.1 computed
  have compiled := eq_ok_of_toOption found
  obtain ⟨slots, written⟩ := Prod.mk.inj result
  have accepted : ∀ slot value, (slot, value) ∈ template.slots.zip values →
      (template.holeOf slot).Accepts value := by
    intro slot value member
    rw [slots] at member
    simp only [values, List.zip_cons_cons, List.zip_nil_left, List.mem_cons, Prod.mk.injEq,
      List.not_mem_nil, or_false] at member
    rcases member with ⟨rfl, rfl⟩ | ⟨rfl, rfl⟩
    · exact ⟨_, rfl⟩
    · exact Or.inl ⟨_, rfl⟩
  obtain ⟨made, outcome, markup⟩ := markup_of_instance compiled
    (rfl : fragments.length = 2 + 1) (by decide +kernel) .empty (rfl : values.length = 2)
    accepted
  exact ⟨template, made, compiled, outcome, markup,
    String.toList_injective (markup.trans written)⟩

end Template

end MarkupTemplate
