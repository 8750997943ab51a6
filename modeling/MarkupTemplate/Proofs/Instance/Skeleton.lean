import MarkupTemplate.Proofs.Anchor.Frame
import MarkupTemplate.Proofs.Template.Slots

/-!
# Skeletons of instances

Before its slots are bound an instance is nothing but a copy of its template.  Bindings replace the
texts that stand in for regions; the other nodes of the copy are the skeleton of the instance.  They
are the fixed nodes of a frame, in which every slot of the template has its anchor.
-/

namespace MarkupTemplate

open Document Relation

/-! ## Stand-ins -/

namespace Template

/-- The text in a copy that stands in for the region of a slot. -/
def standIn? (copied : Document) (root : NodeId) : Slot → Option NodeId
  | .region address => copied.resolve? root address
  | .attributeValue _ _ => none

/-- The nodes of a copy of the template, but for the texts that stand in for regions. -/
def skeleton (template : Template) (copied : Document) (root : NodeId) : List NodeId :=
  (root :: copied.descendants root).filter
    (· ∉ template.slots.filterMap (standIn? copied root))

/-- The text that stands in for the region at a site. -/
def Site.standIn? : Site → Option NodeId
  | .region standIn => some standIn
  | .attributeValue _ _ => none

variable {document : Document} {root parent : NodeId} {earlier later : List NodeId}
  {path : Address}

theorem filterMap_standIn?_slotsAt (marker : String) {label : NodeId × Content}
    (addressed : document.Addresses root path label.1) :
    (slotsAt marker path label.2).filterMap (standIn? document root) =
      (sitesAt marker label).filterMap Site.standIn? := by
  obtain ⟨id, content⟩ := label
  cases content with
  | element name attributes => simp [slotsAt, sitesAt, Function.comp_def, standIn?, Site.standIn?]
  | text data =>
      simp only [slotsAt, sitesAt]
      split
      · simp [standIn?, Site.standIn?, addressed.resolved]
      · rfl
  | _ => rfl

/-- The addresses of the regions lead to the texts that stand in for them. -/
theorem filterMap_standIn?_slotsOf (marker : String) {block : Forest (NodeId × Content)}
    (stands : document.Stands parent earlier later block)
    (addressed : document.Addresses root path parent) :
    (slotsOf marker path earlier.length block.contents).filterMap (standIn? document root) =
      (sites marker block).filterMap Site.standIn? := by
  induction block generalizing parent earlier later path with
  | empty => rfl
  | plant label children siblings childrenHypothesis siblingsHypothesis =>
      rw [Forest.plant_eq_single_append] at stands ⊢
      have here := addressed.child stands.wellFormed stands.left.row
      have inside := childrenHypothesis stands.left.inside here
      have beside := siblingsHypothesis stands.right addressed
      rw [List.length_nil] at inside
      rw [Forest.rootIds_single, List.length_append, List.length_singleton] at beside
      rw [sites_append, sites_single, List.filterMap_append, List.filterMap_append,
        ← Forest.plant_eq_single_append, Forest.contents_plant, slotsOf_plant,
        List.filterMap_append, List.filterMap_append, filterMap_standIn?_slotsAt marker here,
        inside, beside, List.append_assoc]

theorem region_mem_sites_iff {marker : String} {forest : Forest (NodeId × Content)} {id : NodeId} :
    .region id ∈ sites marker forest ↔ (id, .text "") ∈ forest.labels := by
  unfold sites
  rw [List.mem_flatMap]
  constructor
  · rintro ⟨⟨other, content⟩, member, isSite⟩
    cases content with
    | text data =>
        simp only [sitesAt] at isSite
        split at isSite
        · rename_i empty
          rw [List.mem_singleton, Site.region.injEq] at isSite
          rwa [isSite, ← empty]
        · contradiction
    | _ => simp [sitesAt] at isSite
  · exact fun member => ⟨(id, .text ""), member, by simp [sitesAt]⟩

theorem mem_filterMap_standIn?_iff {marker : String} {forest : Forest (NodeId × Content)}
    {id : NodeId} :
    id ∈ (sites marker forest).filterMap Site.standIn? ↔ .region id ∈ sites marker forest := by
  rw [List.mem_filterMap]
  constructor
  · rintro ⟨site, member, found⟩
    cases site with
    | region standIn => exact Option.some.inj found ▸ member
    | attributeValue => contradiction
  · exact fun member => ⟨_, member, rfl⟩

end Template

/-! ## Copies -/

/-- The frame of a copy: what is fixed in it, and the rows it has. -/
def Frame.ofCopy (skeleton : List NodeId) (copied : Document) : Frame where
  fixed := skeleton
  rows := copied.children

namespace Instance

open Template

/-- A copy of the template stands in the document, whose slots are not bound yet. -/
structure CopyOf (document : Document) (template : Template) (marker : String)
    (copied : Document) (block : Forest (NodeId × Content)) : Prop where
  copiedIn : CopiedIn document copied document.size .fragment block.contents
  stands : copied.Stands document.size [] [] block
  bounded : block.contents.SlotsBounded
  fresh : ∀ {id}, id ∈ block.ids → document.size < id
  anchors : template.slots.mapM (anchorAt copied document.size) =
    .ok (anchorsOf marker none block)
  standIns : template.slots.filterMap (standIn? copied document.size) =
    (sites marker block).filterMap Site.standIn?

theorem exists_copyOf {document : Document} {template : Template} {marker : String}
    {tree : Forest (NodeId × Content)} (wellFormed : document.WellFormed)
    (compiled : template.CompiledAs marker tree) (bounded : tree.contents.SlotsBounded) :
    ∃ copied block, document.copyFrom template.document template.root =
        .ok (copied, document.size) ∧
      CopyOf document template marker copied block ∧ block.contents = tree.contents := by
  cases made : document.copyFrom template.document template.root with
  | error cause => simp [copyFrom, compiled.root] at made
  | ok copy =>
      obtain ⟨copied, root⟩ := copy
      obtain ⟨content, present, rfl, copiedIn⟩ :=
        copiedIn_of_copyFrom wellFormed compiled.wellFormed made
      rw [compiled.root, Option.some.injEq] at present
      subst present
      rw [compiled.hasBelow.below_eq compiled.wellFormed] at copiedIn
      have contents : (tree.contents.numbered (document.size + 1)).contents = tree.contents :=
        Forest.contents_numbered _ _
      have stands := copiedIn.hasBelow.stands copiedIn.wellFormed
      have slots := compiled.slots_eq
      have addressed := addresses_root (lt_size_of_content? copiedIn.copied)
      rw [← contents] at bounded slots copiedIn
      refine ⟨copied, _, rfl, ⟨copiedIn, stands, bounded, ?_, ?_, ?_⟩, contents⟩
      · exact fun member => (Forest.mem_ids_numbered member).1
      · rw [slots]
        exact mapM_anchorAt_slotsOf marker stands bounded addressed
      · rw [slots]
        exact filterMap_standIn?_slotsOf marker stands addressed

section Serving

variable {document : Document} {frame : Frame} {parent : NodeId} {earlier later : List NodeId}

/-- The anchors at a node of a cut tree serve the slots there. -/
theorem forall₂_serves_here (marker : String) {label : NodeId × Content}
    {children siblings : Forest (NodeId × Content)}
    (stands : document.Stands parent earlier later (.plant label children siblings))
    (bounded : (Forest.plant label children siblings).contents.SlotsBounded)
    (rows : frame.rows = document.children) (owner : parent ∈ frame.fixed)
    (fixed : ∀ {id}, id ∈ (Forest.plant label children siblings).ids →
      (id ∈ frame.fixed ↔ document.content? id ≠ some (.text "")))
    (begun : label.2 = .text "" → ∀ before, earlier.getLast? = some before →
      before ∈ frame.fixed) :
    List.Forall₂ (frame.Serves document) (sitesAt marker label)
      (anchorsAt marker earlier.getLast? siblings.rootIds.head? label) := by
  rw [Forest.plant_eq_single_append] at stands
  have present := stands.left.content?
  have isFixed := fixed (show label.1 ∈ _ by simp)
  obtain ⟨id, content⟩ := label
  cases content with
  | element tag attributes =>
      have element : id ∈ frame.fixed := isFixed.2 (by simp [present])
      simp only [sitesAt, anchorsAt, marked]
      rw [List.forall₂_map_left_iff, List.forall₂_map_right_iff, List.forall₂_same]
      exact fun entry _ => .attributeValue element present
  | text data =>
      simp only [sitesAt, anchorsAt]
      split
      · rename_i empty
        obtain ⟨_, rest, shape⟩ := bounded.1 (by rw [empty])
        change siblings.contents = _ at shape
        cases siblings with
        | empty => simp at shape
        | plant next nextChildren nextSiblings =>
            rw [Forest.contents_plant, Forest.plant.injEq] at shape
            have boundary : document.content? next.1 = some .boundary := by
              rw [← shape.1]
              exact stands.right.grows.1
            have row : document.children parent = earlier ++ id ::
                next.1 :: (nextSiblings.rootIds ++ later) := stands.left.row
            have place : frame.GapAt parent id earlier next.1 (nextSiblings.rootIds ++ later) := by
              refine ⟨owner, ?_, by rw [rows, row], begun (by rw [empty]), ?_⟩
              · rw [isFixed, present, empty]
                simp
              · exact (fixed (by simp)).2 (by simp [boundary])
            exact .cons (.region place boundary) .nil
      · exact .nil
  | _ => exact .nil

/-- The anchors of a cut block serve its slots, where everything but the stand-ins is fixed. -/
theorem forall₂_serves (marker : String) {block : Forest (NodeId × Content)}
    (stands : document.Stands parent earlier later block)
    (bounded : block.contents.SlotsBounded)
    (rows : frame.rows = document.children) (owner : parent ∈ frame.fixed)
    (fixed : ∀ {id}, id ∈ block.ids →
      (id ∈ frame.fixed ↔ document.content? id ≠ some (.text "")))
    (begun : (∃ rest, block.contents = .plant (.text "") .empty rest) →
      ∀ before, earlier.getLast? = some before → before ∈ frame.fixed) :
    List.Forall₂ (frame.Serves document) (sites marker block)
      (anchorsOf marker earlier.getLast? block) := by
  induction block generalizing parent earlier later with
  | empty => exact .nil
  | plant label children siblings childrenHypothesis siblingsHypothesis =>
      have parts := stands
      rw [Forest.plant_eq_single_append] at parts
      have present := parts.left.content?
      have childless : label.2 = .text "" → children = .empty := fun standIn =>
        Forest.contents_eq_empty_iff.1 (bounded.1 standIn).1
      have here := forall₂_serves_here marker stands bounded rows owner fixed fun standIn =>
        begun ⟨siblings.contents, by rw [Forest.contents_plant, standIn, childless standIn]; rfl⟩
      have inside : List.Forall₂ (frame.Serves document) (sites marker children)
          (anchorsOf marker none children) := by
        by_cases standIn : label.2 = .text ""
        · rw [childless standIn]
          exact .nil
        · have held := (fixed (show label.1 ∈ _ by simp)).2 (by simpa [present] using standIn)
          exact childrenHypothesis parts.left.inside bounded.2.1 held
            (fun member => fixed (by simp [member])) (by simp)
      have beside := siblingsHypothesis parts.right bounded.2.2 owner
        (fun member => fixed (by simp [member])) (by
          rintro ⟨rest, shape⟩ before last
          rw [Forest.rootIds_single, List.getLast?_concat, Option.some.injEq] at last
          subst last
          refine (fixed (by simp)).2 ?_
          rw [present]
          intro standIn
          obtain ⟨_, others, boundary⟩ := bounded.1 (Option.some.inj standIn)
          change siblings.contents = _ at boundary
          rw [shape, Forest.plant.injEq] at boundary
          exact absurd boundary.1 (by simp))
      rw [Forest.rootIds_single, List.getLast?_concat] at beside
      rw [anchorsOf, Forest.plant_eq_single_append, sites_append, sites_single, List.append_assoc]
      exact List.rel_append here (List.rel_append inside beside)

end Serving

namespace CopyOf

variable {document copied : Document} {template : Template} {marker : String}
  {block : Forest (NodeId × Content)}

theorem mem_skeleton_iff (copy : CopyOf document template marker copied block) {id : NodeId} :
    id ∈ template.skeleton copied document.size ↔
      (id = document.size ∨ id ∈ block.ids) ∧ copied.content? id ≠ some (.text "") := by
  have ids : copied.descendants document.size = block.ids := by
    rw [descendants, copy.stands.hasBelow.below_eq copy.stands.wellFormed]
    rfl
  rw [skeleton, List.mem_filter, decide_eq_true_eq, copy.standIns, mem_filterMap_standIn?_iff,
    region_mem_sites_iff, copy.stands.grows.mem_labels_iff, List.mem_cons, ids]
  refine and_congr_right fun member => not_congr ?_
  rw [and_iff_right_iff_imp]
  intro text
  rcases member with rfl | inside
  · rw [copy.copiedIn.copied] at text
    contradiction
  · exact inside

theorem distinct (copy : CopyOf document template marker copied block) (skeleton : List NodeId) :
    (Frame.ofCopy skeleton copied).Distinct where
  nodup _ := copy.stands.wellFormed.arranged.nodup _
  eq_of_mem _ _ inFirst inSecond := copy.stands.wellFormed.arranged.eq_of_mem inFirst inSecond

/-- Before anything is bound, every gap holds the text that stands in for it. -/
theorem holds (copy : CopyOf document template marker copied block) :
    (Frame.ofCopy (template.skeleton copied document.size) copied).Holds (fun id => [id])
      copied where
  wellFormed := copy.stands.wellFormed
  present {id} fixed := by
    rcases (copy.mem_skeleton_iff.1 fixed).1 with rfl | inside
    · exact lt_size_of_content? copy.copiedIn.copied
    · exact copy.stands.grows.lt_size inside
  own _ := rfl
  free gapFree member := List.mem_singleton.1 member ▸ gapFree
  row _ := (List.flatMap_singleton' _).symm
  closed {id parent} fixed child := by
    have wellFormed := copy.stands.wellFormed
    refine copy.mem_skeleton_iff.2 ⟨?_, ?_⟩
    · rcases (copy.mem_skeleton_iff.1 fixed).1 with rfl | inside
      · exact absurd child (wellFormed.fragment_not_mem copy.copiedIn.copied parent)
      · exact copy.stands.parent_mem inside child
    · intro text
      have may := wellFormed.container text (List.ne_nil_of_mem child)
      contradiction

theorem serves (copy : CopyOf document template marker copied block) :
    List.Forall₂
      ((Frame.ofCopy (template.skeleton copied document.size) copied).Serves copied)
      (sites marker block) (anchorsOf marker none block) := by
  have root : document.size ∈ template.skeleton copied document.size := by
    refine copy.mem_skeleton_iff.2 ⟨Or.inl rfl, ?_⟩
    rw [copy.copiedIn.copied]
    simp
  refine forall₂_serves marker copy.stands copy.bounded rfl root ?_ (by simp)
  intro id member
  exact copy.mem_skeleton_iff.trans (and_iff_right (Or.inr member))

end CopyOf

end Instance

end MarkupTemplate
