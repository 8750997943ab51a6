import MarkupTemplate.Proofs.Anchor.Updates

/-!
# Frames

A frame tells what bindings leave alone.  It fixes some nodes, and says of each of them what its
row of children is; a member of such a row that is not itself fixed is a gap, in whose place any
nodes can be held.  An anchor that begins and ends at fixed nodes around a gap can be bound to every
value but a fixed node: this changes what the gap holds, and the frame holds as before.
-/

namespace MarkupTemplate

open Document Relation

/-- The value can be bound to the anchor without harm to the nodes that are to be kept: into a
region none of these may be put, and no node that does not exist. -/
def Anchor.Admits (kept : List NodeId) (document : Document) (anchor : Anchor) (value : Value) :
    Prop :=
  ∀ id, anchor.kind = .region → value = .node id → id < document.size ∧ id ∉ kept

/-- Fixed nodes, and their rows of children with a member for every gap. -/
structure Frame where
  fixed : List NodeId
  rows : NodeId → List NodeId

namespace Frame

variable {frame : Frame} {held : NodeId → List NodeId} {document : Document}

/-- No gap and no fixed node has two places. -/
structure Distinct (frame : Frame) : Prop where
  nodup : ∀ {id}, id ∈ frame.fixed → (frame.rows id).Nodup
  eq_of_mem : ∀ {id first second}, first ∈ frame.fixed → second ∈ frame.fixed →
    id ∈ frame.rows first → id ∈ frame.rows second → first = second

/-- The rows of the fixed nodes are those of the frame, with what is held in place of every gap. -/
structure Holds (frame : Frame) (held : NodeId → List NodeId) (document : Document) : Prop where
  wellFormed : document.WellFormed
  present : ∀ {id}, id ∈ frame.fixed → id < document.size
  own : ∀ {id}, id ∈ frame.fixed → held id = [id]
  free : ∀ {gap id}, gap ∉ frame.fixed → id ∈ held gap → id ∉ frame.fixed
  row : ∀ {id}, id ∈ frame.fixed → document.children id = (frame.rows id).flatMap held
  closed : ∀ {id parent}, id ∈ frame.fixed → id ∈ document.children parent →
    parent ∈ frame.fixed

/-- The gap stands in the row of the parent between a fixed node, or the beginning of the row, and
a fixed node. -/
structure GapAt (frame : Frame) (parent gap : NodeId) (left : List NodeId) (after : NodeId)
    (right : List NodeId) : Prop where
  owner : parent ∈ frame.fixed
  free : gap ∉ frame.fixed
  row : frame.rows parent = left ++ gap :: after :: right
  begun : ∀ before, left.getLast? = some before → before ∈ frame.fixed
  ended : after ∈ frame.fixed

/-! ## Reading a frame -/

/-- A node that is not fixed does not lie above one that is. -/
theorem Holds.not_above (holds : frame.Holds held document) {id upper : NodeId}
    (fixed : id ∈ frame.fixed) (path : ReflTransGen document.IsChild id upper) :
    upper ∈ frame.fixed := by
  induction path with
  | refl => exact fixed
  | tail _ child inductionHypothesis =>
      exact holds.closed inductionHypothesis (holds.wellFormed.arranged.isChild_iff.1 child)

section Places

variable {parent gap after : NodeId} {left right : List NodeId}

/-- Where a row of a frame ends at a fixed node, this ends it whatever its gaps hold. -/
theorem getLast?_flatMap (own : ∀ {id}, id ∈ frame.fixed → held id = [id]) {ids : List NodeId}
    (ended : ∀ last, ids.getLast? = some last → last ∈ frame.fixed) :
    (ids.flatMap held).getLast? = ids.getLast? := by
  cases ids using List.reverseRecOn with
  | nil => rfl
  | append_singleton first last =>
      have fixed := ended last List.getLast?_concat
      simp [own fixed]

theorem GapAt.getLast?_flatMap (place : frame.GapAt parent gap left after right)
    (own : ∀ {id}, id ∈ frame.fixed → held id = [id]) :
    (left.flatMap held).getLast? = left.getLast? :=
  Frame.getLast?_flatMap own place.begun

theorem GapAt.mem_rows (place : frame.GapAt parent gap left after right) :
    gap ∈ frame.rows parent := by
  rw [place.row]
  simp

theorem GapAt.gap_not_mem (place : frame.GapAt parent gap left after right)
    (distinct : frame.Distinct) : gap ∉ left ∧ gap ∉ after :: right := by
  have nodup := distinct.nodup place.owner
  rw [place.row, List.nodup_middle, List.nodup_cons, List.mem_append, not_or] at nodup
  exact nodup.1

theorem Holds.row_of_gapAt (holds : frame.Holds held document)
    (place : frame.GapAt parent gap left after right) :
    document.children parent =
      left.flatMap held ++ (held gap ++ after :: right.flatMap held) := by
  rw [holds.row place.owner, place.row, List.flatMap_append, List.flatMap_cons,
    List.flatMap_cons, holds.own place.ended, List.singleton_append]

theorem Holds.mem_children (holds : frame.Holds held document)
    (place : frame.GapAt parent gap left after right) {id : NodeId} (member : id ∈ held gap) :
    id ∈ document.children parent := by
  rw [holds.row_of_gapAt place]
  simp [member]

/-- The region of the anchor around a gap is what the gap holds. -/
theorem Holds.regionNodes_eq (holds : frame.Holds held document)
    (place : frame.GapAt parent gap left after right) :
    Anchor.regionNodes document (.region left.getLast? after) = held gap := by
  rw [← place.getLast?_flatMap holds.own]
  exact Anchor.regionNodes_of_row holds.wellFormed (holds.row_of_gapAt place)

theorem Holds.lt_size (holds : frame.Holds held document)
    (place : frame.GapAt parent gap left after right) {id : NodeId} (member : id ∈ held gap) :
    id < document.size :=
  holds.wellFormed.arranged.lt_size_of_mem (holds.mem_children place member)

/-! ## Binding an anchor around a gap -/

/-- What the gaps hold after one of them was filled with nodes taken from anywhere. -/
def refill (held : NodeId → List NodeId) (gap : NodeId) (taken filling : List NodeId) :
    NodeId → List NodeId :=
  Function.update (fun other => (held other).filter (· ∉ taken)) gap filling

theorem refill_self (held : NodeId → List NodeId) (gap : NodeId) (taken filling : List NodeId) :
    refill held gap taken filling gap = filling :=
  Function.update_self ..

theorem refill_of_ne {other : NodeId} (different : other ≠ gap) (taken filling : List NodeId) :
    refill held gap taken filling other = (held other).filter (· ∉ taken) :=
  Function.update_of_ne different ..

theorem flatMap_refill {ids : List NodeId} (absent : gap ∉ ids) (taken filling : List NodeId) :
    ids.flatMap (refill held gap taken filling) = (ids.flatMap held).filter (· ∉ taken) := by
  rw [List.filter_flatMap]
  refine List.flatMap_congr fun id member => refill_of_ne ?_ taken filling
  rintro rfl
  exact absent member

/-- A row after one of its gaps was filled. -/
theorem GapAt.flatMap_refill (place : frame.GapAt parent gap left after right)
    (distinct : frame.Distinct) (own : ∀ {id}, id ∈ frame.fixed → held id = [id])
    (taken filling : List NodeId) :
    (frame.rows parent).flatMap (refill held gap taken filling) =
      (left.flatMap held).filter (· ∉ taken) ++
        (filling ++ (after :: right.flatMap held).filter (· ∉ taken)) := by
  have outside := place.gap_not_mem distinct
  have behind : (after :: right).flatMap held = after :: right.flatMap held := by
    rw [List.flatMap_cons, own place.ended, List.singleton_append]
  rw [place.row, List.flatMap_append, List.flatMap_cons, refill_self,
    Frame.flatMap_refill outside.1, Frame.flatMap_refill outside.2, behind]

/-- Any other row after the gap was filled. -/
theorem GapAt.flatMap_refill_of_ne (place : frame.GapAt parent gap left after right)
    (distinct : frame.Distinct) {id : NodeId} (fixed : id ∈ frame.fixed) (different : id ≠ parent)
    (taken filling : List NodeId) :
    (frame.rows id).flatMap (refill held gap taken filling) =
      ((frame.rows id).flatMap held).filter (· ∉ taken) := by
  refine Frame.flatMap_refill (fun member => ?_) taken filling
  exact different (distinct.eq_of_mem fixed place.owner member place.mem_rows)

theorem Holds.taken_disjoint (holds : frame.Holds held document) {new : Document} {value : Value}
    {region taken filling : List NodeId}
    (fills : Anchor.Fills document new region value taken filling)
    (admitted : ∀ id, value = .node id → id ∉ frame.fixed) : taken.Disjoint frame.fixed := by
  cases fills with
  | text => exact List.disjoint_nil_left _
  | absent => exact List.disjoint_nil_left _
  | node content =>
      rename_i id
      have free := admitted id rfl
      unfold Anchor.carried
      split
      · exact fun other below fixed => free (holds.closed fixed below)
      · exact List.singleton_disjoint.2 free

theorem Holds.filling_disjoint (holds : frame.Holds held document) {new : Document} {value : Value}
    {region taken filling : List NodeId} (regionFree : ∀ {id}, id ∈ region → id ∉ frame.fixed)
    (fills : Anchor.Fills document new region value taken filling)
    (apart : taken.Disjoint frame.fixed) {id : NodeId} (member : id ∈ filling) :
    id ∉ frame.fixed := by
  cases fills with
  | text place _ =>
      rw [List.mem_singleton] at member
      subst member
      rcases place with inside | fresh
      · exact regionFree inside
      · exact fun fixed => Nat.lt_irrefl _ (fresh ▸ holds.present fixed)
  | node _ => exact fun fixed => apart member fixed
  | absent => contradiction

/-- The frame holds with a new filling in one gap, wherever the filling was taken from. -/
theorem Holds.of_row (holds : frame.Holds held document) (distinct : frame.Distinct)
    (place : frame.GapAt parent gap left after right) {new : Document}
    {taken filling : List NodeId} (wellFormed : new.WellFormed) (size_le : document.size ≤ new.size)
    (row : new.children parent = (left.flatMap held).filter (· ∉ taken) ++
      (filling ++ (after :: right.flatMap held).filter (· ∉ taken)))
    (rows : ∀ {id}, id ∈ frame.fixed → id ≠ parent →
      new.children id = (document.children id).filter (· ∉ taken))
    (closed : ∀ {id upper}, id ∈ frame.fixed → id ∈ new.children upper → upper ∈ frame.fixed)
    (apart : taken.Disjoint frame.fixed) (free : ∀ {id}, id ∈ filling → id ∉ frame.fixed) :
    frame.Holds (Frame.refill held gap taken filling) new := by
  refine ⟨wellFormed, fun fixed => Nat.lt_of_lt_of_le (holds.present fixed) size_le, ?_, ?_, ?_,
    closed⟩
  · intro id fixed
    have different : id ≠ gap := fun same => place.free (same ▸ fixed)
    rw [refill_of_ne different, holds.own fixed]
    exact Anchor.filter_not_mem_eq_self
      (List.singleton_disjoint.2 fun member => apart member fixed)
  · intro other id notFixed member
    by_cases same : other = gap
    · subst same
      rw [refill_self] at member
      exact free member
    · rw [refill_of_ne same] at member
      exact holds.free notFixed (List.mem_of_mem_filter member)
  · intro id fixed
    by_cases same : id = parent
    · rw [same, row, place.flatMap_refill distinct holds.own]
    · rw [rows fixed same, holds.row fixed, place.flatMap_refill_of_ne distinct fixed same]

/-- Once the gap was filled, the frame holds with the new filling. -/
theorem Holds.refill (holds : frame.Holds held document) (distinct : frame.Distinct)
    (place : frame.GapAt parent gap left after right) {new : Document}
    {taken filling : List NodeId}
    (refills : Anchor.Refills document new parent (left.flatMap held)
      (after :: right.flatMap held) taken filling)
    (apart : taken.Disjoint frame.fixed) (free : ∀ {id}, id ∈ filling → id ∉ frame.fixed) :
    frame.Holds (Frame.refill held gap taken filling) new := by
  refine holds.of_row distinct place refills.wellFormed refills.size_le refills.row
    (fun _ => refills.children) ?_ apart free
  intro id upper fixed member
  by_cases same : upper = parent
  · subst same
    exact place.owner
  · rw [refills.children same] at member
    exact holds.closed fixed (List.mem_of_mem_filter member)

/-- An anchor around a gap can be bound to every value but a fixed node or one that does not
exist. -/
theorem Holds.exists_refill (holds : frame.Holds held document) (distinct : frame.Distinct)
    (place : frame.GapAt parent gap left after right) {value : Value}
    (admitted : ∀ id, value = .node id → id < document.size ∧ id ∉ frame.fixed) :
    ∃ taken filling,
      (Anchor.update document (.region left.getLast? after) value).outcome = .ok () ∧
      Anchor.Refills document
        (Anchor.update document (.region left.getLast? after) value).document parent
        (left.flatMap held) (after :: right.flatMap held) taken filling ∧
      Anchor.Fills document
        (Anchor.update document (.region left.getLast? after) value).document (held gap) value
        taken filling ∧
      frame.Holds (Frame.refill held gap taken filling)
        (Anchor.update document (.region left.getLast? after) value).document := by
  have arranged := holds.wellFormed.arranged
  have last := place.getLast?_flatMap holds.own
  have mayStand : ∀ id, value = .node id → id < document.size ∧
      document.isInclusiveAncestor id parent = false ∧ id ≠ after ∧
        (left.flatMap held).getLast? ≠ some id := by
    intro id isNode
    obtain ⟨present, free⟩ := admitted id isNode
    refine ⟨present, ?_, fun same => free (same ▸ place.ended), ?_⟩
    · rw [← Bool.not_eq_true, isInclusiveAncestor_iff arranged holds.wellFormed.acyclic]
      exact fun path => free (holds.not_above place.owner path)
    · rw [last]
      exact fun before => free (place.begun id before)
  obtain ⟨taken, filling, outcome, refills, fills⟩ :=
    Anchor.exists_refills holds.wellFormed (holds.row_of_gapAt place) mayStand
  rw [last] at outcome refills fills
  have apart := holds.taken_disjoint fills fun id isNode => (admitted id isNode).2
  exact ⟨taken, filling, outcome, refills, fills, holds.refill distinct place refills apart
    (holds.filling_disjoint (holds.free place.free) fills apart)⟩

end Places

/-! ## Edits beside a frame -/

/-- A frame holds as long as the rows of the fixed nodes stay, and these get no other parents. -/
theorem Holds.of_rows (holds : frame.Holds held document) {new : Document}
    (wellFormed : new.WellFormed) (size_le : document.size ≤ new.size)
    (rows : ∀ {id}, id ∈ frame.fixed → new.children id = document.children id)
    (parents : ∀ {id parent}, id ∈ frame.fixed → id ∈ new.children parent →
      id ∈ document.children parent) : frame.Holds held new where
  wellFormed := wellFormed
  present fixed := Nat.lt_of_lt_of_le (holds.present fixed) size_le
  own := holds.own
  free := holds.free
  row fixed := (rows fixed).trans (holds.row fixed)
  closed fixed member := holds.closed fixed (parents fixed member)

/-- A frame holds when a region was filled in a row that is not its own, unless fixed nodes were
taken. -/
theorem Holds.of_refills (holds : frame.Holds held document) {new : Document} {parent : NodeId}
    {left region right taken filling : List NodeId}
    (row : document.children parent = left ++ (region ++ right)) (outside : parent ∉ frame.fixed)
    (refills : Anchor.Refills document new parent left right taken filling)
    (apart : taken.Disjoint frame.fixed) (free : ∀ {id}, id ∈ filling → id ∉ frame.fixed) :
    frame.Holds (fun gap => (held gap).filter (· ∉ taken)) new where
  wellFormed := refills.wellFormed
  present fixed := Nat.lt_of_lt_of_le (holds.present fixed) refills.size_le
  own {id} fixed := by
    rw [holds.own fixed]
    exact Anchor.filter_not_mem_eq_self
      (List.singleton_disjoint.2 fun member => apart member fixed)
  free gapFree member := holds.free gapFree (List.mem_of_mem_filter member)
  row {id} fixed := by
    have different : id ≠ parent := fun same => outside (same ▸ fixed)
    rw [refills.children different, holds.row fixed, List.filter_flatMap]
  closed {id upper} fixed member := by
    by_cases same : upper = parent
    · subst same
      refine holds.closed fixed ?_
      rw [refills.row, List.mem_append, List.mem_append] at member
      rw [row, List.mem_append, List.mem_append]
      rcases member with inLeft | inFilling | inRight
      · exact Or.inl (List.mem_of_mem_filter inLeft)
      · exact absurd fixed (free inFilling)
      · exact Or.inr (Or.inr (List.mem_of_mem_filter inRight))
    · rw [refills.children same] at member
      exact holds.closed fixed (List.mem_of_mem_filter member)

/-! ## Slots of a frame -/

/-- The anchor serves the slot at a site: it reaches around a gap of the frame to a boundary, or it
is an attribute of a fixed element. -/
inductive Serves (frame : Frame) (document : Document) : Template.Site → Anchor → Prop
  | region {parent gap after : NodeId} {left right : List NodeId}
      (place : frame.GapAt parent gap left after right)
      (boundary : document.content? after = some .boundary) :
      Serves frame document (.region gap) (.region left.getLast? after)
  | attributeValue {id : NodeId} {tag name : String} {attributes : List Attribute}
      (fixed : id ∈ frame.fixed) (element : document.content? id = some (.element tag attributes)) :
      Serves frame document (.attributeValue id name) (.attributeValue id name)

theorem exists_site {relation : Template.Site → Anchor → Prop} {sites : List Template.Site}
    {anchors : List Anchor} (serves : List.Forall₂ relation sites anchors) {anchor : Anchor}
    (own : anchor ∈ anchors) : ∃ site ∈ sites, relation site anchor := by
  obtain ⟨index, bound, rfl⟩ := List.getElem_of_mem own
  have length := serves.length_eq
  exact ⟨sites[index], List.getElem_mem _, serves.get (by omega) bound⟩

theorem exists_anchor {sites : List Template.Site} {anchors : List Anchor}
    (serves : List.Forall₂ (frame.Serves document) sites anchors) {site : Template.Site}
    (isSite : site ∈ sites) : ∃ anchor ∈ anchors, frame.Serves document site anchor := by
  obtain ⟨index, bound, rfl⟩ := List.getElem_of_mem isSite
  have length := serves.length_eq
  exact ⟨anchors[index], List.getElem_mem _, serves.get bound (by omega)⟩

/-- What a slot holds of the nodes that a site's gap holds; an attribute holds none. -/
def heldAt (held : NodeId → List NodeId) : Template.Site → List NodeId
  | .region gap => held gap
  | .attributeValue _ _ => []

/-- The nodes are those from before but for one that a slot was bound to. -/
def LessBy (value : Value) (before after : List NodeId) : Prop :=
  after = before ∨ ∃ id, value = .node id ∧ after = before.erase id

variable {site : Template.Site} {anchor : Anchor}

/-- An element of which only attributes have changed is an element. -/
theorem exists_element_of_husk {new : Document} {id : NodeId} {tag : String}
    {attributes : List Attribute} (element : document.content? id = some (.element tag attributes))
    (same : (new.content? id).map Content.husk = (document.content? id).map Content.husk) :
    ∃ tag attributes, new.content? id = some (.element tag attributes) := by
  rw [element] at same
  obtain ⟨content, found, kept⟩ := Option.map_eq_some_iff.1 same
  cases content with
  | element tag attributes => exact ⟨tag, attributes, found⟩
  | _ => simp [Content.husk] at kept

theorem Serves.of_husk (serves : frame.Serves document site anchor) {new : Document}
    (same : ∀ {id}, id ∈ frame.fixed →
      (new.content? id).map Content.husk = (document.content? id).map Content.husk) :
    frame.Serves new site anchor := by
  cases serves with
  | region place boundary =>
      refine .region place (Content.eq_of_husk rfl rfl ?_)
      rw [same place.ended, boundary]
  | attributeValue fixed element =>
      obtain ⟨_, _, found⟩ := exists_element_of_husk element (same fixed)
      exact .attributeValue fixed found

theorem Serves.update (serves : frame.Serves document site anchor)
    (holds : frame.Holds held document) (other : Anchor) (value : Value) :
    frame.Serves (Anchor.update document other value).document site anchor :=
  serves.of_husk fun fixed => Anchor.husk_update other value (holds.present fixed)

theorem Serves.regionNodes_eq (serves : frame.Serves document site anchor)
    (holds : frame.Holds held document) :
    Anchor.regionNodes document anchor = heldAt held site := by
  cases serves with
  | region place _ => exact holds.regionNodes_eq place
  | attributeValue => rfl

/-! ## Binding slots of a frame -/

/-- What binding one slot leaves in a gap that is not its own. -/
theorem Holds.lessBy_refill (holds : frame.Holds held document) {gap other parent : NodeId}
    {new : Document} {value : Value} {taken filling : List NodeId}
    (fills : Anchor.Fills document new (held gap) value taken filling)
    (admitted : ∀ id, value = .node id → id ∉ frame.fixed) (owner : parent ∈ frame.fixed)
    (inRow : other ∈ frame.rows parent) (different : other ≠ gap) :
    LessBy value (held other) (Frame.refill held gap taken filling other) := by
  have inside : held other ⊆ document.children parent := by
    rw [holds.row owner]
    exact fun id member => List.mem_flatMap.2 ⟨other, inRow, member⟩
  have nodup : (held other).Nodup := by
    have distinct := holds.wellFormed.arranged.nodup parent
    rw [holds.row owner, List.nodup_flatMap] at distinct
    exact distinct.1 other inRow
  rw [refill_of_ne different]
  cases fills with
  | text => exact Or.inl (Anchor.filter_not_mem_nil _)
  | absent => exact Or.inl (Anchor.filter_not_mem_nil _)
  | @node id _ =>
      have free := admitted id rfl
      unfold Anchor.carried
      split
      · refine Or.inl (Anchor.filter_not_mem_eq_self fun child inGap below => free ?_)
        exact holds.wellFormed.arranged.eq_of_mem (inside inGap) below ▸ owner
      · exact Or.inr ⟨id, rfl, (Anchor.erase_eq_filter nodup id).symm⟩

/-- An attribute is bound without a change to any row. -/
theorem Holds.update_attributeValue (holds : frame.Holds held document) {id : NodeId}
    {tag : String} {attributes : List Attribute}
    (element : document.content? id = some (.element tag attributes)) (name : String)
    (value : Value) :
    (Anchor.update document (.attributeValue id name) value).outcome = .ok () ∧
      frame.Holds held (Anchor.update document (.attributeValue id name) value).document ∧
      (Anchor.update document (.attributeValue id name) value).document.children =
        document.children := by
  have wellFormed := Anchor.wellFormed_update holds.wellFormed (.attributeValue id name) value
  obtain ⟨outcome, changed⟩ := Anchor.update_attributeValue element name value
  rw [changed] at wellFormed ⊢
  have rows := holds.wellFormed.children_setContent id
    (.element tag (Attribute.bind attributes name value))
  exact ⟨outcome, holds.of_rows wellFormed (Nat.le_of_eq (size_setContent ..).symm)
    (fun _ => congrFun rows _) (fun _ member => by rwa [rows] at member), rows⟩

/-- Binding one slot is not refused unless the value is a fixed node or does not exist.  The frame
holds afterwards, and every other slot holds what it held but for the node that was bound. -/
theorem Holds.exists_update (holds : frame.Holds held document) (distinct : frame.Distinct)
    (serves : frame.Serves document site anchor) {value : Value}
    (admitted : anchor.Admits frame.fixed document value) :
    ∃ rehold, (Anchor.update document anchor value).outcome = .ok () ∧
      document.size ≤ (Anchor.update document anchor value).document.size ∧
      frame.Holds rehold (Anchor.update document anchor value).document ∧
      ∀ {other otherAnchor}, frame.Serves document other otherAnchor → other ≠ site →
        LessBy value (heldAt held other) (heldAt rehold other) := by
  cases serves with
  | @region parent gap after left right place _ =>
      have may := fun id => admitted id rfl
      obtain ⟨taken, filling, outcome, refills, fills, onward⟩ :=
        holds.exists_refill distinct place may
      refine ⟨_, outcome, refills.size_le, onward, fun {other _} otherServes different => ?_⟩
      cases otherServes with
      | attributeValue => exact Or.inl rfl
      | region otherPlace _ =>
          exact holds.lessBy_refill fills (fun id isNode => (may id isNode).2)
            otherPlace.owner otherPlace.mem_rows fun same => different (same ▸ rfl)
  | attributeValue _ element =>
      obtain ⟨outcome, onward, _⟩ := holds.update_attributeValue element _ value
      obtain ⟨_, changed⟩ := Anchor.update_attributeValue element _ value
      refine ⟨held, outcome, ?_, onward, fun _ _ => Or.inl rfl⟩
      rw [changed, size_setContent]

/-- A frame holds when a slot of another frame was bound, unless a fixed node was put into a
region. -/
theorem Holds.exists_holds_of_update (holds : frame.Holds held document) {other : Frame}
    {otherHeld : NodeId → List NodeId} (otherHolds : other.Holds otherHeld document)
    (distinct : other.Distinct) (serves : other.Serves document site anchor) {value : Value}
    (otherAdmits : anchor.Admits other.fixed document value)
    (admits : anchor.Admits frame.fixed document value)
    (apart : other.fixed.Disjoint frame.fixed) :
    ∃ rehold, frame.Holds rehold (Anchor.update document anchor value).document := by
  cases serves with
  | attributeValue _ element =>
      exact ⟨held, (holds.update_attributeValue element _ value).2.1⟩
  | @region parent gap after left right place _ =>
      obtain ⟨taken, filling, _, refills, fills, _⟩ :=
        otherHolds.exists_refill distinct place fun id => otherAdmits id rfl
      have outside : parent ∉ frame.fixed := apart place.owner
      have regionFree : ∀ {id}, id ∈ otherHeld gap → id ∉ frame.fixed :=
        fun inside fixed => outside (holds.closed fixed (otherHolds.mem_children place inside))
      have takenFree := holds.taken_disjoint fills fun id isNode => (admits id rfl isNode).2
      exact ⟨_, holds.of_refills (otherHolds.row_of_gapAt place) outside refills takenFree
        (holds.filling_disjoint regionFree fills takenFree)⟩

/-- A node that could be bound exists. -/
theorem Holds.lt_size_of_update (holds : frame.Holds held document) {gap id : NodeId}
    (serves : frame.Serves document (.region gap) anchor)
    (done : (Anchor.update document anchor (.node id)).outcome = .ok ()) :
    id < document.size := by
  cases serves with
  | @region parent _ after left right place _ =>
      simp only [Anchor.update, Attempt.logged, Anchor.updateRegion, holds.regionNodes_eq place,
        Anchor.fillWithNode] at done
      split at done
      · contradiction
      · split at done
        · rename_i inside
          exact holds.lt_size place (List.contains_iff_mem.1 inside)
        · split at done
          · rename_i inserted
            exact Anchor.lt_size_of_insertBefore inserted
          · contradiction

end Frame

end MarkupTemplate
