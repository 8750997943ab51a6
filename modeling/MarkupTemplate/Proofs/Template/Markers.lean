import MarkupTemplate.Proofs.Markup.RoundTrip
import MarkupTemplate.Proofs.Template.Slots
import MarkupTemplate.Proofs.Text.Pieces

/-!
# What compiling builds

The markers of a parsed tree are those in its texts and those that are the whole value of an
attribute.  Compiling succeeds exactly if there are as many of them as there are places between the
fragments; then the template is the parsed tree with its texts cut around the markers, and its
slots lead to the places of the markers, one after the other.
-/

namespace MarkupTemplate

open Document

/-! ## Counting markers -/

/-- How often the marker stands in a text, or is the whole value of an attribute. -/
def Content.markerCount (marker : String) : Content → Nat
  | .element _ attributes => attributes.countP fun entry => entry.value = marker
  | .text data => (Text.occurrences marker.toList data.toList).length
  | _ => 0

namespace Forest

/-- How many markers there are in the texts and attributes of a forest. -/
def markerCount (marker : String) : Forest Content → Nat
  | .empty => 0
  | .plant content children siblings =>
      content.markerCount marker +
        (children.markerCount marker + siblings.markerCount marker)

end Forest

namespace Template

theorem slotCount_append (marker : String) (earlier later : Forest Content) :
    slotCount marker (earlier ++ later) = slotCount marker earlier + slotCount marker later := by
  induction earlier with
  | empty => exact (Nat.zero_add _).symm
  | plant content children siblings _ siblingsHypothesis =>
      rw [Forest.plant_append, slotCount, slotCount, siblingsHypothesis]
      omega

theorem slotCount_piece (marker : String) (characters : List Char) :
    slotCount marker (Forest.piece characters) = 0 := by
  unfold Forest.piece
  split
  · rfl
  · rename_i nonempty
    have spelled : String.ofList characters ≠ "" := by
      rw [ne_eq, String.ofList_eq_empty_iff]
      simpa using nonempty
    simp [Forest.single, slotCount, slotCountAt, spelled]

/-- A text that was cut has a slot between each two of its pieces. -/
theorem slotCount_cutRow (marker : String) (pieces : List (List Char)) :
    slotCount marker (Forest.cutRow pieces) = pieces.length - 1 := by
  induction pieces with
  | nil => rfl
  | cons first others inductionHypothesis =>
      cases others with
      | nil => exact slotCount_piece marker first
      | cons next rest =>
          have slot : slotCount marker (Forest.single (.text "") .empty) = 1 := rfl
          have boundary : slotCount marker (Forest.single .boundary .empty) = 0 := rfl
          rw [Forest.cutRow, slotCount_append, slotCount_append, slotCount_append, slotCount_piece,
            slot, boundary, inductionHypothesis]
          simp only [List.length_cons]
          omega

/-- A tree that was cut has a slot for every marker that it had. -/
theorem slotCount_isolated (marker : String) {forest : Forest Content}
    (writable : forest.Writable) :
    slotCount marker (forest.isolated marker.toList) = forest.markerCount marker := by
  induction forest with
  | empty => rfl
  | plant content children siblings childrenHypothesis siblingsHypothesis =>
      obtain ⟨admits, inside, beside⟩ := writable
      have others := siblingsHypothesis beside
      by_cases text : ∃ data, content = .text data
      · obtain ⟨data, rfl⟩ := text
        obtain rfl : children = .empty := admits
        have here : (Content.text data).markerCount marker =
            (Text.pieces marker.toList data.toList).length - 1 := by
          rw [Text.length_pieces]
          rfl
        rw [Forest.isolated, slotCount_append, slotCount_cutRow, others, ← here,
          Forest.markerCount, Forest.markerCount, Nat.zero_add]
      · have notText : ∀ data, content ≠ .text data := fun data same => text ⟨data, same⟩
        have same : slotCountAt marker content = content.markerCount marker := by
          cases content with
          | element name attributes => exact List.countP_eq_length_filter.symm
          | text data => exact absurd rfl (notText data)
          | _ => rfl
        rw [Forest.isolated, slotCount, same, childrenHypothesis inside, others,
          Forest.markerCount]
        exact notText

end Template

/-! ## Texts without markers -/

namespace Forest

theorem text_mem_cutRow {data : String} {pieces : List (List Char)}
    (member : .text data ∈ (cutRow pieces).labels) : data = "" ∨ data.toList ∈ pieces := by
  have ofPiece {characters : List Char} (inPiece : .text data ∈ (piece characters).labels) :
      data.toList = characters := by
    unfold piece at inPiece
    split at inPiece
    · contradiction
    · rw [single, labels, List.mem_cons] at inPiece
      have same := Content.text.inj (inPiece.resolve_right (by simp [labels]))
      rw [same, String.toList_ofList]
  induction pieces with
  | nil => contradiction
  | cons first others inductionHypothesis =>
      cases others with
      | nil => exact .inr (List.mem_singleton.2 (ofPiece member))
      | cons next rest =>
          simp only [cutRow, labels_append, List.mem_append] at member
          rcases member with inFirst | inSlot | inBoundary | inRest
          · exact .inr (List.mem_cons.2 (.inl (ofPiece inFirst)))
          · exact .inl (by simpa [single, labels] using inSlot)
          · simp [single, labels] at inBoundary
          · exact (inductionHypothesis inRest).imp_right (List.mem_cons_of_mem first)

/-- No text of a tree that was cut contains the marker. -/
theorem not_infix_of_mem_isolated {marker : List Char} (marked : marker ≠ [])
    {forest : Forest Content} {data : String}
    (member : .text data ∈ (forest.isolated marker).labels) : ¬ marker <:+: data.toList := by
  induction forest with
  | empty => contradiction
  | plant content children siblings childrenHypothesis siblingsHypothesis =>
      by_cases text : ∃ other, content = .text other
      · obtain ⟨other, rfl⟩ := text
        rw [isolated, labels_append, List.mem_append] at member
        rcases member with inRow | inSiblings
        · rcases text_mem_cutRow inRow with rfl | isPiece
          · exact fun inside => marked (List.infix_nil.1 inside)
          · exact Text.not_infix_of_mem_pieces marked isPiece
        · exact siblingsHypothesis inSiblings
      · have notText : ∀ other, content ≠ .text other := fun other same => text ⟨other, same⟩
        rw [isolated, labels, List.mem_cons, List.mem_append] at member
        · rcases member with same | inChildren | inSiblings
          · exact absurd same.symm (notText data)
          · exact childrenHypothesis inChildren
          · exact siblingsHypothesis inSiblings
        · exact notText

end Forest

namespace Template

/-! ## Where slots lead -/

/-- The address of the slot leads from the root to the site: to an empty text with a boundary
directly after it, or to an element that has the marker as the value of the attribute. -/
inductive Leads (document : Document) (root : NodeId) (marker : String) : Slot → Site → Prop
  | region {address : Address} {standIn boundary : NodeId}
      (resolved : document.resolve? root address = some standIn)
      (empty : document.content? standIn = some (.text ""))
      (next : document.nextSibling? standIn = some boundary)
      (ended : document.content? boundary = some .boundary) :
      Leads document root marker (.region address) (.region standIn)
  | attributeValue {address : Address} {element : NodeId} {tag name : String}
      {attributes : List Attribute}
      (resolved : document.resolve? root address = some element)
      (present : document.content? element = some (.element tag attributes))
      (marked : ⟨name, marker⟩ ∈ attributes) :
      Leads document root marker (.attributeValue address name) (.attributeValue element name)

variable {document : Document} {root parent : NodeId} {earlier later : List NodeId}
  {path : Address}

theorem leads_here (marker : String) {label : NodeId × Content}
    {children siblings : Forest (NodeId × Content)}
    (stands : document.Stands parent earlier later (.plant label children siblings))
    (bounded : (Forest.plant label children siblings).contents.SlotsBounded)
    (addressed : document.Addresses root path label.1) :
    List.Forall₂ (Leads document root marker) (slotsAt marker path label.2)
      (sitesAt marker label) := by
  rw [Forest.plant_eq_single_append] at stands
  have present := stands.left.content?
  obtain ⟨id, content⟩ := label
  cases content with
  | element tag attributes =>
      simp only [slotsAt, sitesAt, marked]
      rw [List.forall₂_map_left_iff, List.forall₂_map_right_iff, List.forall₂_same]
      intro entry member
      rw [List.mem_filter, decide_eq_true_eq] at member
      exact .attributeValue addressed.resolved present (member.2 ▸ member.1)
  | text data =>
      simp only [slotsAt, sitesAt]
      split
      · rename_i empty
        obtain ⟨_, rest, shape⟩ := bounded.1 (by rw [empty])
        change siblings.contents = _ at shape
        cases siblings with
        | empty => simp at shape
        | plant next nextChildren nextSiblings =>
            rw [Forest.contents_plant, Forest.plant.injEq] at shape
            have row : document.children parent = earlier ++ id ::
                (next.1 :: (nextSiblings.rootIds ++ later)) := stands.left.row
            have following := (stands.wellFormed.arranged.child row).2.2
            have boundary : document.content? next.1 = some .boundary := by
              rw [← shape.1]
              exact stands.right.grows.1
            exact .cons (.region addressed.resolved (empty ▸ present) following boundary) .nil
      · exact .nil
  | _ => exact .nil

/-- The slots of a cut forest lead to its sites. -/
theorem leads_slotsOf (marker : String) {block : Forest (NodeId × Content)}
    (stands : document.Stands parent earlier later block)
    (bounded : block.contents.SlotsBounded) (addressed : document.Addresses root path parent) :
    List.Forall₂ (Leads document root marker)
      (slotsOf marker path earlier.length block.contents) (sites marker block) := by
  induction block generalizing parent earlier later path with
  | empty => exact .nil
  | plant label children siblings childrenHypothesis siblingsHypothesis =>
      have parts := stands
      rw [Forest.plant_eq_single_append] at parts
      have place := addressed.child parts.wellFormed parts.left.row
      have here := leads_here marker stands bounded place
      have inside := childrenHypothesis parts.left.inside bounded.2.1 place
      have beside := siblingsHypothesis parts.right bounded.2.2 addressed
      rw [Forest.rootIds_single, List.length_append, List.length_singleton] at beside
      rw [Forest.contents_plant, slotsOf_plant, Forest.plant_eq_single_append, sites_append,
        sites_single, List.append_assoc]
      exact List.rel_append here (List.rel_append inside beside)

/-! ## Templates that were built -/

/-- The template is the tree with its texts cut around the markers, and its slots, in document
order, are the places of the markers. -/
structure Builds (template : Template) (marker : String) (tree : Forest Content) : Prop where
  root : template.document.content? template.root = some .fragment
  contents : (template.document.below template.root).contents = tree.isolated marker.toList
  markerless : ∀ {id data}, (id, .text data) ∈ (template.document.below template.root).labels →
    ¬ marker.toList <:+: data.toList
  leads : List.Forall₂ (Leads template.document template.root marker) template.slots
    (sites marker (template.document.below template.root))
  distinct : (sites marker (template.document.below template.root)).Nodup
  count : template.slots.length = tree.markerCount marker

theorem CompiledAs.builds {template : Template} {marker : String}
    {block : Forest (NodeId × Content)} {tree : Forest Content}
    (compiled : template.CompiledAs marker block) (marked : marker ≠ "")
    (writable : tree.Writable) (contents : block.contents = tree.isolated marker.toList) :
    template.Builds marker tree := by
  have below := compiled.hasBelow.below_eq compiled.wellFormed
  have stands := compiled.hasBelow.stands compiled.wellFormed
  have bounded : block.contents.SlotsBounded :=
    contents ▸ Forest.slotsBounded_isolated marker.toList tree
  have leads := leads_slotsOf marker stands bounded
    (addresses_root (lt_size_of_content? compiled.root))
  have slots := compiled.slots_eq
  rw [List.length_nil, ← slots] at leads
  refine ⟨compiled.root, by rw [below, contents], ?_, by rwa [below],
    by rw [below]; exact nodup_sites marker stands, ?_⟩
  · intro id data member
    rw [below] at member
    have spelled : marker.toList ≠ [] := by rwa [ne_eq, String.toList_eq_nil_iff]
    have inTree : .text data ∈ (tree.isolated marker.toList).labels := by
      rw [← contents, Forest.contents, Forest.labels_map]
      exact List.mem_map.2 ⟨_, member, rfl⟩
    exact Forest.not_infix_of_mem_isolated spelled inTree
  · rw [leads.length_eq, length_sites, contents, slotCount_isolated marker writable]

variable {options : CompileOptions}

/-- The tree that the fragments of a template are parsed to. -/
theorem contents_parsed (options : CompileOptions) (fragments : List String) :
    let parsed := Document.empty.parse options.strict (joined options fragments)
    (parsed.document.below parsed.root).contents = parsedForest options fragments :=
  (wellFormed_empty.copiedIn_parse options.strict (joined options fragments)).contents_below

/-- What compiling comes to, in terms of the markers in the parsed tree. -/
theorem exists_compiledAs (marked : options.marker ≠ "") (fragments : List String) :
    let parsed := Document.empty.parse options.strict (joined options fragments)
    let count := (parsedForest options fragments).markerCount options.marker
    ∃ template : Template, template.Builds options.marker (parsedForest options fragments) ∧
      compile options fragments =
        match parsed.fault? with
        | some fault => .error (.parse fault)
        | none =>
            if count = fragments.length - 1 then .ok template
            else .error (.slotCountMismatch (fragments.length - 1) count (shown fragments)) := by
  intro parsed count
  obtain ⟨document, tree, wellFormed, root, hasBelow, contents, cut⟩ :=
    exists_cut marked fragments
  have writable := writable_parsedForest options fragments
  have addressed := mapM_slotAt_sites options.marker (hasBelow.stands wellFormed)
    (addresses_root (lt_size_of_content? root))
  have length : (sites options.marker tree).length = count := by
    rw [length_sites, contents, slotCount_isolated options.marker writable]
  refine ⟨⟨document, parsed.root, slotsOf options.marker [] 0 tree.contents⟩, ?_, ?_⟩
  · exact CompiledAs.builds ⟨wellFormed, root, hasBelow, addressed⟩ marked writable contents
  · rw [cut, length, addressed]
    rfl

/-- Compiling succeeds exactly if the joined fragments are parsed without a fault to a tree with as
many markers as there are places between the fragments, and builds the template from this tree.
Nothing else is refused than a fault or another number of markers. -/
theorem compile_builds (marked : options.marker ≠ "") (fragments : List String) :
    let parsed := Document.empty.parse options.strict (joined options fragments)
    let tree := (parsed.document.below parsed.root).contents
    ((∃ template, compile options fragments = .ok template) ↔
        parsed.fault? = none ∧ tree.markerCount options.marker = fragments.length - 1) ∧
      (∀ cause, compile options fragments = .error cause →
        (∃ fault, parsed.fault? = some fault ∧ cause = .parse fault) ∨
          parsed.fault? = none ∧ cause = .slotCountMismatch (fragments.length - 1)
            (tree.markerCount options.marker) (shown fragments)) ∧
      ∀ template, compile options fragments = .ok template →
        template.Builds options.marker tree := by
  intro parsed tree
  have same : tree = parsedForest options fragments := contents_parsed options fragments
  obtain ⟨built, builds, cut⟩ := exists_compiledAs marked fragments
  rw [← same] at builds cut
  rw [cut]
  cases faults : parsed.fault? with
  | some fault => simp
  | none =>
      by_cases count : tree.markerCount options.marker = fragments.length - 1
      · simp [count, builds]
      · simp [count]

/-- A paragraph with a title and two texts to be filled in. -/
theorem compile_builds_paragraph :
    let parsed := Document.empty.parse false (joined {} ["<p title=\"", "\">a ", " b ", "</p>"])
    ∃ template, compile {} ["<p title=\"", "\">a ", " b ", "</p>"] = .ok template ∧
      template.Builds defaultMarker (parsed.document.below parsed.root).contents := by
  intro parsed
  have marked : ({} : CompileOptions).marker ≠ "" := by decide +kernel
  obtain ⟨accepted, _, builds⟩ := compile_builds marked ["<p title=\"", "\">a ", " b ", "</p>"]
  obtain ⟨template, compiled⟩ := accepted.2 (by decide +kernel)
  exact ⟨template, compiled, builds template compiled⟩

end Template

end MarkupTemplate
