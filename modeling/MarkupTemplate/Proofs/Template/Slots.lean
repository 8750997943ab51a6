import MarkupTemplate.Instance
import MarkupTemplate.Proofs.Document.Addresses
import MarkupTemplate.Proofs.Template.Compiling

/-!
# Slots and anchors of a cut tree

The slots of a compiled template can be read off the contents of its tree, each with its address.
In a copy of the tree the addresses lead to the nodes with the same contents, and there the slots
become the anchors that can be read off the copied tree.
-/

namespace MarkupTemplate

open Document

/-! ## Slots by address -/

namespace Template

/-- The attributes of an element that are slots. -/
def marked (marker : String) (attributes : List Attribute) : List Attribute :=
  attributes.filter fun entry => entry.value = marker

/-- The slots at a node of a cut tree. -/
def slotsAt (marker : String) (address : Address) : Content → List Slot
  | .element _ attributes =>
      (marked marker attributes).map fun entry => .attributeValue address entry.name
  | .text data => if data = "" then [.region address] else []
  | _ => []

/-- The slots of a cut forest that stands in the row at an address from a place on. -/
def slotsOf (marker : String) (path : Address) (index : Nat) (forest : Forest Content) :
    List Slot :=
  (forest.placed path index).flatMap fun (address, content) => slotsAt marker address content

theorem slotsOf_plant (marker : String) (path : Address) (index : Nat) (content : Content)
    (children siblings : Forest Content) :
    slotsOf marker path index (.plant content children siblings) =
      slotsAt marker (path ++ [index]) content ++
        (slotsOf marker (path ++ [index]) 0 children ++
          slotsOf marker path (index + 1) siblings) := by
  simp [slotsOf, Forest.placed]

/-! ### How many there are -/

def slotCountAt (marker : String) : Content → Nat
  | .element _ attributes => (marked marker attributes).length
  | .text data => if data = "" then 1 else 0
  | _ => 0

def slotCount (marker : String) : Forest Content → Nat
  | .empty => 0
  | .plant content children siblings =>
      slotCountAt marker content + (slotCount marker children + slotCount marker siblings)

theorem length_slotsAt (marker : String) (address : Address) (content : Content) :
    (slotsAt marker address content).length = slotCountAt marker content := by
  cases content with
  | element name attributes => simp [slotsAt, slotCountAt]
  | text data =>
      simp only [slotsAt, slotCountAt]
      split <;> rfl
  | _ => rfl

theorem length_slotsOf (marker : String) (path : Address) (index : Nat)
    (forest : Forest Content) :
    (slotsOf marker path index forest).length = slotCount marker forest := by
  induction forest generalizing path index with
  | empty => rfl
  | plant content children siblings childrenHypothesis siblingsHypothesis =>
      rw [slotsOf_plant, List.length_append, List.length_append, length_slotsAt,
        childrenHypothesis, siblingsHypothesis, slotCount]

theorem length_sitesAt (marker : String) (label : NodeId × Content) :
    (sitesAt marker label).length = slotCountAt marker label.2 := by
  obtain ⟨id, content⟩ := label
  cases content with
  | element tag attributes => simp [sitesAt, slotCountAt, marked]
  | text data =>
      simp only [sitesAt, slotCountAt]
      split <;> rfl
  | _ => rfl

theorem sites_plant (marker : String) (label : NodeId × Content)
    (children siblings : Forest (NodeId × Content)) :
    sites marker (.plant label children siblings) =
      sitesAt marker label ++ (sites marker children ++ sites marker siblings) := by
  simp [sites, Forest.labels]

theorem length_sites (marker : String) (forest : Forest (NodeId × Content)) :
    (sites marker forest).length = slotCount marker forest.contents := by
  induction forest with
  | empty => rfl
  | plant label children siblings childrenHypothesis siblingsHypothesis =>
      rw [sites_plant, List.length_append, List.length_append, length_sitesAt,
        childrenHypothesis, siblingsHypothesis]
      rfl

/-! ### Their addresses -/

theorem mapM_append_of_ok {Key Image Cause : Type} {image : Key → Except Cause Image}
    {left right : List Key} {leftImages rightImages : List Image}
    (first : left.mapM image = .ok leftImages) (second : right.mapM image = .ok rightImages) :
    (left ++ right).mapM image = .ok (leftImages ++ rightImages) := by
  rw [List.mapM_append, first, second]
  rfl

theorem mapM_map_of_ok {Entry Key Image Cause : Type} {image : Key → Except Cause Image}
    {key : Entry → Key} {result : Entry → Image} (entries : List Entry)
    (each : ∀ entry, image (key entry) = .ok (result entry)) :
    (entries.map key).mapM image = .ok (entries.map result) := by
  induction entries with
  | nil => rfl
  | cons entry rest inductionHypothesis =>
      rw [List.map_cons, List.mapM_cons, each, inductionHypothesis]
      rfl

theorem forall₂_of_mapM_eq_ok {Key Image Cause : Type} {image : Key → Except Cause Image}
    {keys : List Key} {images : List Image} (mapped : keys.mapM image = .ok images) :
    List.Forall₂ (fun key result => image key = .ok result) keys images := by
  induction keys generalizing images with
  | nil =>
      rw [← Except.ok.inj mapped]
      exact .nil
  | cons key rest inductionHypothesis =>
      rw [List.mapM_cons] at mapped
      cases first : image key with
      | error cause =>
          rw [first] at mapped
          contradiction
      | ok here =>
          cases others : rest.mapM image with
          | error cause =>
              rw [first, others] at mapped
              contradiction
          | ok beside =>
              rw [first, others] at mapped
              rw [← Except.ok.inj mapped]
              exact .cons first (inductionHypothesis others)

theorem length_of_mapM_eq_ok {Key Image Cause : Type} {image : Key → Except Cause Image}
    {keys : List Key} {images : List Image} (mapped : keys.mapM image = .ok images) :
    images.length = keys.length :=
  (forall₂_of_mapM_eq_ok mapped).length_eq.symm

variable {document : Document} {root parent : NodeId} {earlier later : List NodeId}
  {path : Address}

theorem mapM_slotAt_sitesAt (marker : String) {label : NodeId × Content}
    (addressed : document.Addresses root path label.1) :
    (sitesAt marker label).mapM (slotAt document root) = .ok (slotsAt marker path label.2) := by
  obtain ⟨id, content⟩ := label
  cases content with
  | element name attributes =>
      have each : ∀ entry : Attribute, slotAt document root (.attributeValue id entry.name) =
          .ok (.attributeValue path entry.name) := by
        intro entry
        simp only [slotAt, addressed.found]
        rfl
      exact mapM_map_of_ok (marked marker attributes) each
  | text data =>
      simp only [sitesAt, slotsAt]
      split
      · simp only [List.mapM_cons, List.mapM_nil, slotAt, addressed.found]
        rfl
      · rfl
  | _ => rfl

theorem mapM_slotAt_sites (marker : String) {block : Forest (NodeId × Content)}
    (stands : document.Stands parent earlier later block)
    (addressed : document.Addresses root path parent) :
    (sites marker block).mapM (slotAt document root) =
      .ok (slotsOf marker path earlier.length block.contents) := by
  induction block generalizing parent earlier later path with
  | empty => rfl
  | plant label children siblings childrenHypothesis siblingsHypothesis =>
      rw [Forest.plant_eq_single_append] at stands ⊢
      have here := addressed.child stands.wellFormed stands.left.row
      have inside := childrenHypothesis stands.left.inside here
      have beside := siblingsHypothesis stands.right addressed
      rw [List.length_append] at beside
      rw [sites_append, sites_single, List.append_assoc, ← Forest.plant_eq_single_append,
        Forest.contents_plant, slotsOf_plant]
      exact mapM_append_of_ok (mapM_slotAt_sitesAt marker here) (mapM_append_of_ok inside beside)

/-- The slots of a compiled template are those of its tree's contents. -/
theorem CompiledAs.slots_eq {template : Template} {marker : String}
    {tree : Forest (NodeId × Content)} (compiled : template.CompiledAs marker tree) :
    template.slots = slotsOf marker [] 0 tree.contents := by
  have addressed := mapM_slotAt_sites marker (compiled.hasBelow.stands compiled.wellFormed)
    (addresses_root (lt_size_of_content? compiled.root))
  rw [compiled.slots] at addressed
  exact Except.ok.inj addressed

/-- The node that a site is at. -/
def Site.node : Site → NodeId
  | .region standIn => standIn
  | .attributeValue element _ => element

theorem node_of_mem_sitesAt {marker : String} {label : NodeId × Content} {site : Site}
    (member : site ∈ sitesAt marker label) : site.node = label.1 := by
  obtain ⟨id, content⟩ := label
  cases content with
  | element name attributes =>
      obtain ⟨entry, _, rfl⟩ := List.mem_map.1 member
      rfl
  | text data =>
      simp only [sitesAt] at member
      split at member
      · rw [List.mem_singleton.1 member]
        rfl
      · contradiction
  | _ => contradiction

/-- No slot is at two sites. -/
theorem nodup_sites (marker : String) {block : Forest (NodeId × Content)}
    (stands : document.Stands parent earlier later block) : (sites marker block).Nodup := by
  unfold sites
  have distinct := stands.nodup_ids
  rw [Forest.ids] at distinct
  rw [List.nodup_flatMap]
  refine ⟨?_, ?_⟩
  · rintro ⟨id, content⟩ member
    cases content with
    | element name attributes =>
        have names := stands.wellFormed.distinct (stands.grows.content?_of_mem member)
        refine List.Nodup.map_on ?_ ((List.Nodup.of_map _ names).filter _)
        intro first inFirst second inSecond same
        rw [Site.attributeValue.injEq] at same
        exact List.inj_on_of_nodup_map names (List.mem_of_mem_filter inFirst)
          (List.mem_of_mem_filter inSecond) same.2
    | text data =>
        simp only [sitesAt]
        split
        · exact List.nodup_singleton _
        · exact List.nodup_nil
    | _ => exact List.nodup_nil
  · refine (List.pairwise_map.1 distinct).imp ?_
    intro first second different site inFirst inSecond
    exact different ((node_of_mem_sitesAt inFirst).symm.trans (node_of_mem_sitesAt inSecond))

end Template

/-! ## Slots that end at boundaries -/

namespace Forest

/-- Every empty text is followed by a boundary. -/
def SlotsBounded : Forest Content → Prop
  | .empty => True
  | .plant content children siblings =>
      (content = .text "" →
        children = .empty ∧ ∃ rest, siblings = .plant .boundary .empty rest) ∧
        children.SlotsBounded ∧ siblings.SlotsBounded

theorem SlotsBounded.append {earlier later : Forest Content} (first : earlier.SlotsBounded)
    (second : later.SlotsBounded) : (earlier ++ later).SlotsBounded := by
  induction earlier with
  | empty => exact second
  | plant content children siblings _ siblingsHypothesis =>
      obtain ⟨bounded, inside, beside⟩ := first
      refine ⟨?_, inside, siblingsHypothesis beside⟩
      intro standIn
      obtain ⟨childless, rest, shape⟩ := bounded standIn
      exact ⟨childless, rest ++ later, by rw [shape]; rfl⟩

theorem slotsBounded_cutRow (pieces : List (List Char)) : (cutRow pieces).SlotsBounded := by
  refine cutRow_induction trivial ?_ ?_ SlotsBounded.append pieces
  · intro data nonempty
    refine ⟨?_, trivial, trivial⟩
    intro empty
    exact absurd (Content.text.inj empty) nonempty
  · exact ⟨fun _ => ⟨rfl, .empty, rfl⟩, trivial, by simp, trivial, trivial⟩

theorem slotsBounded_isolated (marker : List Char) (forest : Forest Content) :
    (forest.isolated marker).SlotsBounded := by
  induction forest with
  | empty => trivial
  | plant content children siblings childrenHypothesis siblingsHypothesis =>
      cases content with
      | text data => exact (slotsBounded_cutRow _).append siblingsHypothesis
      | _ => exact ⟨by simp, childrenHypothesis, siblingsHypothesis⟩

end Forest

/-! ## Anchors -/

namespace Instance

open Template

/-- The anchors at a node of a cut tree, between these siblings. -/
def anchorsAt (marker : String) (before after : Option NodeId) (label : NodeId × Content) :
    List Anchor :=
  match label.2 with
  | .element _ attributes =>
      (marked marker attributes).map fun entry => .attributeValue label.1 entry.name
  | .text data => if data = "" then after.toList.map (.region before) else []
  | _ => []

/-- The anchors of a cut forest, in document order. -/
def anchorsOf (marker : String) : Option NodeId → Forest (NodeId × Content) → List Anchor
  | _, .empty => []
  | before, .plant label children siblings =>
      anchorsAt marker before siblings.rootIds.head? label ++
        (anchorsOf marker none children ++ anchorsOf marker (some label.1) siblings)

variable {document : Document} {root parent : NodeId} {earlier later : List NodeId}
  {path : Address}

theorem mapM_anchorAt_slotsAt (marker : String) {label : NodeId × Content}
    {children siblings : Forest (NodeId × Content)}
    (stands : document.Stands parent earlier later (.plant label children siblings))
    (bounded : (Forest.plant label children siblings).contents.SlotsBounded)
    (addressed : document.Addresses root path label.1) :
    (slotsAt marker path label.2).mapM (anchorAt document root) =
      .ok (anchorsAt marker earlier.getLast? siblings.rootIds.head? label) := by
  rw [Forest.plant_eq_single_append] at stands
  have present := stands.left.content?
  obtain ⟨id, content⟩ := label
  cases content with
  | element name attributes =>
      refine mapM_map_of_ok _ fun entry => ?_
      simp only [anchorAt, Slot.address, addressed.resolved, name?, present, Option.bind_some,
        Content.name?, Option.isSome_some, ↓reduceIte]
  | text data =>
      simp only [slotsAt, anchorsAt]
      split
      · rename_i empty
        obtain ⟨_, rest, shape⟩ := bounded.1 (by rw [empty])
        change siblings.contents = _ at shape
        cases siblings with
        | empty => simp at shape
        | plant next nextChildren nextSiblings =>
            rw [Forest.contents_plant, Forest.plant.injEq] at shape
            have row : document.children parent = earlier ++ id ::
                (next.1 :: (nextSiblings.rootIds ++ later)) := stands.left.row
            obtain ⟨_, prev, following⟩ := stands.wellFormed.arranged.child row
            have boundary : document.content? next.1 = some .boundary := by
              rw [← shape.1]
              exact stands.right.grows.1
            have anchored : anchorAt document root (.region path) =
                .ok (.region earlier.getLast? next.1) := by
              simp only [anchorAt, Slot.address, addressed.resolved, following, List.head?_cons,
                boundary, ↓reduceIte, prev]
            simp only [List.mapM_cons, List.mapM_nil, anchored]
            rfl
      · rfl
  | _ => rfl

/-- In a document in which a cut block stands, its slots lead to its anchors. -/
theorem mapM_anchorAt_slotsOf (marker : String) {block : Forest (NodeId × Content)}
    (stands : document.Stands parent earlier later block)
    (bounded : block.contents.SlotsBounded)
    (addressed : document.Addresses root path parent) :
    (slotsOf marker path earlier.length block.contents).mapM (anchorAt document root) =
      .ok (anchorsOf marker earlier.getLast? block) := by
  induction block generalizing parent earlier later path with
  | empty => rfl
  | plant label children siblings childrenHypothesis siblingsHypothesis =>
      have parts := stands
      rw [Forest.plant_eq_single_append] at parts
      have here := addressed.child parts.wellFormed parts.left.row
      have inside := childrenHypothesis parts.left.inside bounded.2.1 here
      have beside := siblingsHypothesis parts.right bounded.2.2 addressed
      simp only [Forest.rootIds_single, List.getLast?_append, List.getLast?_singleton,
        Option.some_or, List.length_append, List.length_singleton, List.getLast?_nil,
        List.length_nil] at inside beside
      rw [Forest.contents_plant, slotsOf_plant, anchorsOf]
      exact mapM_append_of_ok (mapM_anchorAt_slotsAt marker stands bounded here)
        (mapM_append_of_ok inside beside)

end Instance

end MarkupTemplate
