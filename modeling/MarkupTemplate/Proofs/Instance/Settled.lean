import MarkupTemplate.Proofs.Anchor.Lodging
import MarkupTemplate.Proofs.Instance.Skeleton

/-!
# Settled instances

An instance is settled in a document when a frame holds there in which its anchors serve its slots.
A copy is settled in the document it was made in, and binding its slots leaves it settled as long as
no node of its skeleton is bound to them.
-/

namespace MarkupTemplate

open Document Relation Template

namespace Frame

variable {frame : Frame} {held : NodeId → List NodeId} {document : Document}

/-! ## Fixed nodes in a frame that holds -/

theorem Holds.mem_children_iff (holds : frame.Holds held document) {id parent : NodeId}
    (fixed : id ∈ frame.fixed) :
    id ∈ document.children parent ↔ parent ∈ frame.fixed ∧ id ∈ frame.rows parent := by
  constructor
  · intro child
    have owner := holds.closed fixed child
    rw [holds.row owner, List.mem_flatMap] at child
    obtain ⟨place, inRow, inside⟩ := child
    by_cases own : place ∈ frame.fixed
    · rw [holds.own own, List.mem_singleton] at inside
      exact ⟨owner, inside ▸ inRow⟩
    · exact absurd fixed (holds.free own inside)
  · rintro ⟨owner, inRow⟩
    rw [holds.row owner, List.mem_flatMap]
    exact ⟨id, inRow, by rw [holds.own fixed]; exact List.mem_singleton_self id⟩

/-- Fixed nodes have the same parents wherever the frame holds. -/
theorem Holds.parent?_eq (holds : frame.Holds held document) {reheld : NodeId → List NodeId}
    {other : Document} (otherHolds : frame.Holds reheld other) {id : NodeId}
    (fixed : id ∈ frame.fixed) : document.parent? id = other.parent? id := by
  apply Option.ext
  intro parent
  rw [holds.wellFormed.arranged.parent?_eq_some_iff,
    otherHolds.wellFormed.arranged.parent?_eq_some_iff, holds.mem_children_iff fixed,
    otherHolds.mem_children_iff fixed]

/-- What lies above a fixed node lies above it wherever the frame holds. -/
theorem Holds.above (holds : frame.Holds held document) {reheld : NodeId → List NodeId}
    {other : Document} (otherHolds : frame.Holds reheld other) {id upper : NodeId}
    (fixed : id ∈ frame.fixed) (path : ReflTransGen document.IsChild id upper) :
    ReflTransGen other.IsChild id upper := by
  induction path with
  | refl => exact ReflTransGen.refl
  | tail before child inductionHypothesis =>
      refine inductionHypothesis.tail ?_
      unfold IsChild at child ⊢
      rwa [← holds.parent?_eq otherHolds (holds.not_above fixed before)]

theorem filter_flatMap_fixed (own : ∀ {id}, id ∈ frame.fixed → held id = [id])
    (free : ∀ {gap id}, gap ∉ frame.fixed → id ∈ held gap → id ∉ frame.fixed)
    (row : List NodeId) :
    (row.flatMap held).filter (· ∈ frame.fixed) = row.filter (· ∈ frame.fixed) := by
  induction row with
  | nil => rfl
  | cons first rest inductionHypothesis =>
      rw [List.flatMap_cons, List.filter_append, inductionHypothesis]
      by_cases fixed : first ∈ frame.fixed
      · rw [own fixed, List.filter_cons_of_pos (by simpa using fixed),
          List.filter_cons_of_pos (by simpa using fixed)]
        rfl
      · rw [List.filter_cons_of_neg (by simpa using fixed), List.filter_eq_nil_iff.2,
          List.nil_append]
        exact fun id inside => by simpa using free fixed inside

/-- Fixed nodes stand in the same order wherever the frame holds. -/
theorem Holds.filter_children_eq (holds : frame.Holds held document)
    {reheld : NodeId → List NodeId} {other : Document} (otherHolds : frame.Holds reheld other)
    (id : NodeId) :
    (document.children id).filter (· ∈ frame.fixed) =
      (other.children id).filter (· ∈ frame.fixed) := by
  by_cases owner : id ∈ frame.fixed
  · rw [holds.row owner, otherHolds.row owner, filter_flatMap_fixed holds.own holds.free,
      filter_flatMap_fixed otherHolds.own otherHolds.free]
  · have outside : ∀ {reheld : NodeId → List NodeId} {other : Document},
        frame.Holds reheld other → (other.children id).filter (· ∈ frame.fixed) = [] := by
      intro reheld other otherHolds
      refine List.filter_eq_nil_iff.2 fun child member => ?_
      simpa using fun fixed => owner (otherHolds.closed fixed member)
    rw [outside holds, outside otherHolds]

end Frame

/-! ## Settled instances -/

/-- The frame holds in the document, and the anchors serve the slots at the sites. -/
structure Settled (frame : Frame) (sites : List Site) (anchors : List Anchor)
    (document : Document) : Prop where
  distinct : frame.Distinct
  nodup : sites.Nodup
  exists_holds : ∃ held, frame.Holds held document
  serves : List.Forall₂ (frame.Serves document) sites anchors

namespace Settled

variable {frame : Frame} {sites : List Site} {anchors : List Anchor} {document : Document}

theorem exists_site (settled : Settled frame sites anchors document) {anchor : Anchor}
    (own : anchor ∈ anchors) : ∃ site ∈ sites, frame.Serves document site anchor :=
  Frame.exists_site settled.serves own

/-- The regions of the slots are disjoint. -/
theorem disjoint (settled : Settled frame sites anchors document) :
    anchors.Pairwise fun first second =>
      (Anchor.regionNodes document first).Disjoint (Anchor.regionNodes document second) := by
  obtain ⟨held, holds⟩ := settled.exists_holds
  have length := settled.serves.length_eq
  refine List.pairwise_iff_getElem.2 fun first second firstBound secondBound before => ?_
  have firstServes := settled.serves.get (i := first) (by omega) firstBound
  have secondServes := settled.serves.get (i := second) (by omega) secondBound
  rw [List.get_eq_getElem, List.get_eq_getElem] at firstServes secondServes
  rw [firstServes.regionNodes_eq holds, secondServes.regionNodes_eq holds]
  refine firstServes.disjoint secondServes holds fun same => ?_
  exact Nat.ne_of_lt before ((settled.nodup.getElem_inj_iff).1 same)

/-- The siblings that a region lies between. -/
theorem exists_row (settled : Settled frame sites anchors document) {before : Option NodeId}
    {after : NodeId} (own : .region before after ∈ anchors) :
    document.content? after = some .boundary ∧ after ∈ frame.fixed ∧
      ∃ parent left right, parent ∈ frame.fixed ∧ left.getLast? = before ∧
        document.children parent =
          left ++ (Anchor.regionNodes document (.region before after) ++ after :: right) := by
  obtain ⟨held, holds⟩ := settled.exists_holds
  obtain ⟨site, _, serves⟩ := settled.exists_site own
  generalize made : Anchor.region before after = anchor at serves
  cases serves with
  | attributeValue => contradiction
  | @region parent gap _ left right place boundary =>
      cases made
      rw [holds.regionNodes_eq place]
      exact ⟨boundary, place.ended, parent, left.flatMap held, right.flatMap held, place.owner,
        place.getLast?_flatMap holds.own, holds.row_of_gapAt place⟩

/-! ## Binding slots -/

theorem update (settled : Settled frame sites anchors document) {anchor : Anchor}
    (own : anchor ∈ anchors) {value : Value}
    (admitted : anchor.Admits frame.fixed document value) :
    (Anchor.update document anchor value).outcome = .ok () ∧
      document.size ≤ (Anchor.update document anchor value).document.size ∧
      Settled frame sites anchors (Anchor.update document anchor value).document := by
  obtain ⟨held, holds⟩ := settled.exists_holds
  obtain ⟨site, _, serves⟩ := settled.exists_site own
  obtain ⟨rehold, outcome, size_le, onward, _⟩ :=
    holds.exists_update settled.distinct serves admitted
  refine ⟨outcome, size_le, settled.distinct, settled.nodup, ⟨rehold, onward⟩, ?_⟩
  exact settled.serves.imp fun _ _ other => other.update holds anchor value

/-- Slots are bound one after the other without a refusal if each of them admits its value. -/
theorem outcome_bindAll (settled : Settled frame sites anchors document)
    {bound : List (Anchor × Value)} (own : ∀ entry ∈ bound, entry.1 ∈ anchors)
    (admitted : ∀ entry ∈ bound, entry.1.Admits frame.fixed document entry.2) :
    (Instance.bindAll document bound).outcome = .ok () := by
  induction bound generalizing document with
  | nil => rfl
  | cons first rest inductionHypothesis =>
      obtain ⟨anchor, value⟩ := first
      rw [List.forall_mem_cons] at own admitted
      obtain ⟨outcome, size_le, onward⟩ := settled.update own.1 admitted.1
      rw [Instance.bindAll, Attempt.andThen, outcome]
      refine inductionHypothesis onward own.2 fun entry member id isRegion isNode => ?_
      obtain ⟨present, free⟩ := admitted.2 entry member id isRegion isNode
      exact ⟨Nat.lt_of_lt_of_le present size_le, free⟩

/-- A value that was not refused was admitted, unless it is to be kept. -/
theorem admits_of_update (settled : Settled frame sites anchors document) {anchor : Anchor}
    (own : anchor ∈ anchors) {value : Value}
    (done : (Anchor.update document anchor value).outcome = .ok ())
    (free : ∀ id, anchor.kind = .region → value = .node id → id ∉ frame.fixed) :
    anchor.Admits frame.fixed document value := by
  obtain ⟨held, holds⟩ := settled.exists_holds
  obtain ⟨site, _, serves⟩ := settled.exists_site own
  intro id isRegion isNode
  refine ⟨?_, free id isRegion isNode⟩
  subst isNode
  cases site with
  | region gap => exact holds.lt_size_of_update serves done
  | attributeValue element name =>
      cases serves
      contradiction

/-- What was bound without a refusal leaves the instance settled, unless it is to be kept. -/
theorem of_bindAll (settled : Settled frame sites anchors document)
    {bound : List (Anchor × Value)} (own : ∀ entry ∈ bound, entry.1 ∈ anchors)
    (free : ∀ entry ∈ bound, ∀ id, entry.1.kind = .region → entry.2 = .node id →
      id ∉ frame.fixed)
    (done : (Instance.bindAll document bound).outcome = .ok ()) :
    Settled frame sites anchors (Instance.bindAll document bound).document := by
  induction bound generalizing document with
  | nil => exact settled
  | cons first rest inductionHypothesis =>
      obtain ⟨anchor, value⟩ := first
      rw [List.forall_mem_cons] at own free
      rw [Instance.bindAll, Attempt.andThen] at done ⊢
      cases outcome : (Anchor.update document anchor value).outcome with
      | error cause =>
          rw [outcome] at done
          contradiction
      | ok result =>
          rw [outcome] at done
          have admitted := settled.admits_of_update own.1 outcome free.1
          exact inductionHypothesis (settled.update own.1 admitted).2.2 own.2 free.2 done

end Settled

/-! ## Settled copies -/

namespace Instance

variable {document copied : Document} {template : Template} {marker : String}
  {block : Forest (NodeId × Content)}

/-- The frame of a copy of the template. -/
def CopyOf.frame (_ : CopyOf document template marker copied block) : Frame :=
  .ofCopy (template.skeleton copied document.size) copied

theorem CopyOf.settled (copy : CopyOf document template marker copied block) :
    Settled copy.frame (sites marker block) (anchorsOf marker none block) copied where
  distinct := copy.distinct _
  nodup := nodup_sites marker copy.stands
  exists_holds := ⟨_, copy.holds⟩
  serves := copy.serves

theorem CopyOf.size_le (copy : CopyOf document template marker copied block) {id : NodeId}
    (fixed : id ∈ template.skeleton copied document.size) : document.size ≤ id := by
  rcases (copy.mem_skeleton_iff.1 fixed).1 with rfl | inside
  · exact Nat.le_refl _
  · exact Nat.le_of_lt (copy.fresh inside)

/-- An instance is a copy with its slots bound. -/
theorem CopyOf.create_eq (copy : CopyOf document template marker copied block)
    (made : document.copyFrom template.document template.root = .ok (copied, document.size))
    {values : List Value} (count : values.length = template.slots.length) :
    create document template values =
      (bindAll copied ((anchorsOf marker none block).zip values)).andThen fun bound _ =>
        { document := bound, outcome := .ok ⟨document.size, anchorsOf marker none block⟩ } := by
  unfold create
  simp only [ne_eq, count, not_true_eq_false, ↓reduceIte, made, copy.anchors]

/-- How an instance was made whose values were all accepted. -/
theorem CopyOf.of_create (copy : CopyOf document template marker copied block)
    (copyMade : document.copyFrom template.document template.root = .ok (copied, document.size))
    {values : List Value} {made : Instance}
    (created : (create document template values).outcome = .ok made) :
    made = ⟨document.size, anchorsOf marker none block⟩ ∧
      (bindAll copied ((anchorsOf marker none block).zip values)).outcome = .ok () ∧
      (create document template values).document =
        (bindAll copied ((anchorsOf marker none block).zip values)).document := by
  have count : values.length = template.slots.length := by
    by_contra differ
    rw [create, if_pos differ] at created
    contradiction
  rw [copy.create_eq copyMade count, Attempt.andThen] at created ⊢
  split at created
  · rename_i bound
    simp only [bound]
    exact ⟨(Except.ok.inj created).symm, trivial, trivial⟩
  · contradiction

theorem exists_copyOf_of_compile {options : CompileOptions} {fragments : List String}
    (wellFormed : document.WellFormed)
    (compiled : Template.compile options fragments = .ok template) :
    ∃ copied block, document.copyFrom template.document template.root =
        .ok (copied, document.size) ∧
      CopyOf document template options.marker copied block := by
  obtain ⟨tree, compiledAs, contents, _⟩ := compiledAs_of_compile compiled
  have bounded : tree.contents.SlotsBounded := by
    rw [contents]
    exact Forest.slotsBounded_isolated _ _
  obtain ⟨copied, block, made, copy, _⟩ := exists_copyOf wellFormed compiledAs bounded
  exact ⟨copied, block, made, copy⟩

end Instance

end MarkupTemplate
