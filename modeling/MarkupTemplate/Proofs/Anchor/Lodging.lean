import Mathlib.Data.List.Pairwise
import MarkupTemplate.Proofs.Anchor.Frame

/-!
# Lodged frames

The rows of a frame may have been moved into longer rows, each as a whole: a frame is lodged in a
document when the rows of its fixed nodes are found there, at given places and between given nodes.
Binding a slot of a lodged frame to a text or an absent value changes what the slot holds and
nothing else, as long as no region reaches over the beginning of its row.
-/

namespace MarkupTemplate

open Document

/-- Between the documents only nodes inside have changed, and the row of the parent; and no node
that was there before has got a new parent. -/
structure Document.ChangesWithin (inside : NodeId → Prop) (parent : NodeId)
    (old new : Document) : Prop where
  size_le : old.size ≤ new.size
  content? : ∀ {id}, id < old.size → ¬ inside id → new.content? id = old.content? id
  children : ∀ {id}, id < old.size → ¬ inside id → id ≠ parent →
    new.children id = old.children id
  parents : ∀ {id upper}, id < old.size → id ∈ new.children upper → id ∈ old.children upper

namespace Document.ChangesWithin

variable {inside : NodeId → Prop} {parent : NodeId} {first second third : Document}

theorem refl (inside : NodeId → Prop) (parent : NodeId) (document : Document) :
    document.ChangesWithin inside parent document :=
  ⟨Nat.le_refl _, fun _ _ => rfl, fun _ _ _ => rfl, fun _ member => member⟩

theorem trans (before : first.ChangesWithin inside parent second)
    (after : second.ChangesWithin inside parent third) :
    first.ChangesWithin inside parent third where
  size_le := Nat.le_trans before.size_le after.size_le
  content? within outside :=
    (after.content? (Nat.lt_of_lt_of_le within before.size_le) outside).trans
      (before.content? within outside)
  children within outside different :=
    (after.children (Nat.lt_of_lt_of_le within before.size_le) outside different).trans
      (before.children within outside different)
  parents within member :=
    before.parents within (after.parents (Nat.lt_of_lt_of_le within before.size_le) member)

end Document.ChangesWithin

namespace Frame

variable {frame : Frame} {place : NodeId → NodeId} {ahead behind : NodeId → List NodeId}
  {held rehold : NodeId → List NodeId} {document new : Document} {site : Template.Site}
  {anchor : Anchor}

/-- The rows of the frame stand at these places, between the nodes ahead of and behind them. -/
structure Lodges (frame : Frame) (place : NodeId → NodeId) (ahead behind : NodeId → List NodeId)
    (held : NodeId → List NodeId) (document : Document) : Prop where
  wellFormed : document.WellFormed
  own : ∀ {id}, id ∈ frame.fixed → held id = [id]
  row : ∀ {id}, id ∈ frame.fixed → document.children (place id) =
    ahead id ++ ((frame.rows id).flatMap held ++ behind id)
  injective : ∀ {id other}, id ∈ frame.fixed → other ∈ frame.fixed → place id = place other →
    id = other

/-- The region of the anchor does not reach over the beginning of its row: if it begins with the
row, then nothing stands ahead of the row. -/
def StaysInRow (frame : Frame) (ahead : NodeId → List NodeId) (anchor : Anchor) : Prop :=
  ∀ parent after, anchor = .region none after → parent ∈ frame.fixed →
    after ∈ frame.rows parent → ahead parent = []

/-- A frame that holds is lodged in its own places. -/
theorem Holds.lodges (holds : frame.Holds held document) :
    frame.Lodges id (fun _ => []) (fun _ => []) held document where
  wellFormed := holds.wellFormed
  own := holds.own
  row fixed := by
    rw [List.nil_append, List.append_nil]
    exact holds.row fixed
  injective _ _ same := same

theorem staysInRow_nil (frame : Frame) (anchor : Anchor) :
    frame.StaysInRow (fun _ => []) anchor :=
  fun _ _ _ _ _ => rfl

/-- The anchor serves the slot at a site of a lodged frame, where a region that begins with its row
reaches back to the node that is pinned there. -/
inductive Reaches (frame : Frame) (pin : NodeId → Option NodeId) (document : Document) :
    Template.Site → Anchor → Prop
  | region {parent gap after : NodeId} {left right : List NodeId}
      (gapAt : frame.GapAt parent gap left after right)
      (boundary : document.content? after = some .boundary) :
      Reaches frame pin document (.region gap) (.region (left.getLast?.or (pin parent)) after)
  | attributeValue {id : NodeId} {tag name : String} {attributes : List Attribute}
      (fixed : id ∈ frame.fixed) (element : document.content? id = some (.element tag attributes)) :
      Reaches frame pin document (.attributeValue id name) (.attributeValue id name)

/-- An anchor that stays in its row reaches as far as one that is pinned to what stands ahead. -/
theorem Serves.reaches (serves : frame.Serves document site anchor)
    (stays : frame.StaysInRow ahead anchor) :
    frame.Reaches (fun owner => (ahead owner).getLast?) document site anchor := by
  cases serves with
  | attributeValue fixed element => exact .attributeValue fixed element
  | @region parent gap after left right gapAt boundary =>
      have same : left.getLast?.or (ahead parent).getLast? = left.getLast? := by
        cases last : left.getLast? with
        | some before => rfl
        | none =>
            have inRow : after ∈ frame.rows parent := by
              rw [gapAt.row]
              simp
            rw [stays parent after (by rw [last]) gapAt.owner inRow]
            rfl
      have reaches : frame.Reaches (fun owner => (ahead owner).getLast?) document _ _ :=
        .region gapAt boundary
      rwa [same] at reaches

section Places

variable {parent gap after : NodeId} {left right : List NodeId}

theorem Lodges.row_of_gapAt (lodges : frame.Lodges place ahead behind held document)
    (gapAt : frame.GapAt parent gap left after right) :
    document.children (place parent) = (ahead parent ++ left.flatMap held) ++
      (held gap ++ after :: (right.flatMap held ++ behind parent)) := by
  rw [lodges.row gapAt.owner, gapAt.row, List.flatMap_append, List.flatMap_cons,
    List.flatMap_cons, lodges.own gapAt.ended]
  simp only [List.append_assoc, List.cons_append, List.nil_append]

theorem Lodges.getLast?_append (lodges : frame.Lodges place ahead behind held document)
    (gapAt : frame.GapAt parent gap left after right) :
    (ahead parent ++ left.flatMap held).getLast? =
      left.getLast?.or (ahead parent).getLast? := by
  rw [List.getLast?_append, gapAt.getLast?_flatMap lodges.own]

/-- What different gaps hold is different. -/
theorem Lodges.disjoint (lodges : frame.Lodges place ahead behind held document)
    {other first second : NodeId} (owner : parent ∈ frame.fixed) (otherOwner : other ∈ frame.fixed)
    (inRow : first ∈ frame.rows parent) (inOther : second ∈ frame.rows other)
    (different : first ≠ second) : (held first).Disjoint (held second) := by
  have arranged := lodges.wellFormed.arranged
  have within : ∀ {upper}, upper ∈ frame.fixed →
      ((frame.rows upper).flatMap held).Sublist (document.children (place upper)) := by
    intro upper fixed
    rw [lodges.row fixed]
    exact (List.sublist_append_left ..).trans (List.sublist_append_right ..)
  by_cases same : parent = other
  · subst same
    have nodup := (arranged.nodup (place parent)).sublist (within owner)
    rw [List.nodup_flatMap] at nodup
    have symmetric : Std.Symm (Function.onFun List.Disjoint held) :=
      ⟨fun _ _ apart => List.disjoint_comm.1 apart⟩
    exact nodup.2.forall inRow inOther different
  · intro id inFirst inSecond
    have child := (within owner).subset (List.mem_flatMap.2 ⟨first, inRow, inFirst⟩)
    have again := (within otherOwner).subset (List.mem_flatMap.2 ⟨second, inOther, inSecond⟩)
    exact same (lodges.injective owner otherOwner (arranged.eq_of_mem child again))

theorem Holds.disjoint (holds : frame.Holds held document) {other first second : NodeId}
    (owner : parent ∈ frame.fixed) (otherOwner : other ∈ frame.fixed)
    (inRow : first ∈ frame.rows parent) (inOther : second ∈ frame.rows other)
    (different : first ≠ second) : (held first).Disjoint (held second) :=
  holds.lodges.disjoint owner otherOwner inRow inOther different

end Places

/-! ## Anchors in a lodged frame -/

section Anchors

variable {pin : NodeId → Option NodeId}

theorem Reaches.of_husk (reaches : frame.Reaches pin document site anchor)
    (same : ∀ {id}, id ∈ frame.fixed →
      (new.content? id).map Content.husk = (document.content? id).map Content.husk) :
    frame.Reaches pin new site anchor := by
  cases reaches with
  | region gapAt boundary =>
      refine .region gapAt (Content.eq_of_husk rfl rfl ?_)
      rw [same gapAt.ended, boundary]
  | attributeValue fixed element =>
      obtain ⟨_, _, found⟩ := exists_element_of_husk element (same fixed)
      exact .attributeValue fixed found

/-- A site has one anchor. -/
theorem Reaches.anchor_eq {first second : Anchor} (distinct : frame.Distinct)
    (reaches : frame.Reaches pin document site first)
    (again : frame.Reaches pin document site second) : first = second := by
  cases reaches with
  | attributeValue => cases again with | attributeValue => rfl
  | @region parent gap after left right place _ =>
      cases again with
      | @region otherParent _ otherAfter otherLeft otherRight otherPlace _ =>
          obtain rfl := distinct.eq_of_mem place.owner otherPlace.owner place.mem_rows
            otherPlace.mem_rows
          have outside := place.gap_not_mem distinct
          have row := otherPlace.row
          rw [place.row, List.append_cons_inj_of_notMem outside.1 outside.2] at row
          obtain ⟨rfl, _, behind⟩ := row
          rw [(List.cons.inj behind).1]

theorem Serves.anchor_eq {first second : Anchor} (distinct : frame.Distinct)
    (serves : frame.Serves document site first) (again : frame.Serves document site second) :
    first = second :=
  (serves.reaches (staysInRow_nil frame first)).anchor_eq distinct
    (again.reaches (staysInRow_nil frame second))

/-- The regions of different slots are disjoint. -/
theorem Reaches.disjoint {otherSite : Template.Site} {otherAnchor : Anchor}
    (reaches : frame.Reaches pin document site anchor)
    (otherReaches : frame.Reaches pin document otherSite otherAnchor)
    (lodges : frame.Lodges place ahead behind held document) (different : site ≠ otherSite) :
    (heldAt held site).Disjoint (heldAt held otherSite) := by
  cases reaches with
  | attributeValue => exact List.disjoint_nil_left _
  | region gapAt _ =>
      cases otherReaches with
      | attributeValue => exact List.disjoint_nil_right _
      | region otherGapAt _ =>
          exact lodges.disjoint gapAt.owner otherGapAt.owner gapAt.mem_rows otherGapAt.mem_rows
            fun same => different (same ▸ rfl)

theorem Serves.disjoint {otherSite : Template.Site} {otherAnchor : Anchor}
    (serves : frame.Serves document site anchor)
    (otherServes : frame.Serves document otherSite otherAnchor)
    (holds : frame.Holds held document) (different : site ≠ otherSite) :
    (heldAt held site).Disjoint (heldAt held otherSite) :=
  (serves.reaches (staysInRow_nil frame anchor)).disjoint
    (otherServes.reaches (staysInRow_nil frame otherAnchor)) holds.lodges different

theorem Lodges.regionNodes_of_gapAt (lodges : frame.Lodges place ahead behind held document)
    (pinned : ∀ owner, (ahead owner).getLast? = pin owner) {parent gap after : NodeId}
    {left right : List NodeId} (gapAt : frame.GapAt parent gap left after right) :
    Anchor.regionNodes document (.region (left.getLast?.or (pin parent)) after) = held gap := by
  rw [← pinned, ← lodges.getLast?_append gapAt]
  exact Anchor.regionNodes_of_row lodges.wellFormed (lodges.row_of_gapAt gapAt)

/-- The region of an anchor is what its gap holds, wherever the frame is lodged. -/
theorem Lodges.regionNodes_eq (lodges : frame.Lodges place ahead behind held document)
    (pinned : ∀ owner, (ahead owner).getLast? = pin owner)
    (reaches : frame.Reaches pin document site anchor) :
    Anchor.regionNodes document anchor = heldAt held site := by
  cases reaches with
  | attributeValue => rfl
  | region gapAt _ => exact lodges.regionNodes_of_gapAt pinned gapAt

end Anchors

/-! ## Moving the row of a root -/

section Moving

variable {root parent : NodeId} {left right : List NodeId}

/-- Binding a region to a fragment moves the row of the fragment into the region. -/
theorem Holds.exists_drained (holds : frame.Holds held document) (distinct : frame.Distinct)
    {gap after : NodeId} (place : frame.GapAt parent gap left after right)
    (fragment : document.content? root = some .fragment) (free : root ∉ frame.fixed)
    {anchor : Anchor} (isAnchor : anchor = .region left.getLast? after) :
    ∃ reheld, (Anchor.update document anchor (.node root)).outcome = .ok () ∧
      frame.Holds reheld (Anchor.update document anchor (.node root)).document ∧
      reheld gap = document.children root ∧
      ∀ {id}, id ≠ parent → id ≠ root →
        (Anchor.update document anchor (.node root)).document.children id =
          document.children id := by
  subst isAnchor
  have admitted : ∀ id, Value.node root = .node id → id < document.size ∧ id ∉ frame.fixed := by
    rintro _ ⟨⟩
    exact ⟨lt_size_of_content? fragment, free⟩
  obtain ⟨taken, filling, outcome, refills, fills, onward⟩ :=
    holds.exists_refill distinct place admitted
  cases fills with
  | absent => contradiction
  | node =>
      have drained : Anchor.carried document root = document.children root := if_pos fragment
      rw [drained] at refills onward
      refine ⟨_, outcome, onward, refill_self .., fun notParent notRoot => ?_⟩
      rw [refills.children notParent]
      exact Anchor.filter_not_mem_eq_self
        (Anchor.disjoint_children holds.wellFormed (List.Subset.refl _) notRoot)

/-- A frame is lodged where the row of one of its nodes was moved to, if nothing else of it was. -/
theorem lodges_of_moved (own : ∀ {id}, id ∈ frame.fixed → held id = [id])
    (outside : parent ∉ frame.fixed) (wellFormed : document.WellFormed)
    (row : root ∈ frame.fixed →
      document.children parent = left ++ ((frame.rows root).flatMap held ++ right))
    (rows : ∀ {id}, id ∈ frame.fixed → id ≠ root →
      document.children id = (frame.rows id).flatMap held) :
    frame.Lodges (Function.update id root parent) (Function.update (fun _ => []) root left)
      (Function.update (fun _ => []) root right) held document where
  wellFormed := wellFormed
  own := own
  row {id} fixed := by
    by_cases same : id = root
    · subst same
      simp only [Function.update_self]
      exact row fixed
    · simp only [Function.update_of_ne same, List.nil_append, List.append_nil]
      exact rows fixed same
  injective {id other} fixed otherFixed equal := by
    by_cases same : id = root
    · by_cases otherSame : other = root
      · exact same.trans otherSame.symm
      · rw [same, Function.update_self, Function.update_of_ne otherSame] at equal
        exact absurd otherFixed ((show parent = other from equal) ▸ outside)
    · by_cases otherSame : other = root
      · rw [otherSame, Function.update_self, Function.update_of_ne same] at equal
        exact absurd fixed ((show parent = id from equal.symm) ▸ outside)
      · rwa [Function.update_of_ne same, Function.update_of_ne otherSame] at equal

theorem Holds.lodges_of_moved (holds : frame.Holds held document) (outside : parent ∉ frame.fixed)
    (wellFormed : new.WellFormed)
    (row : new.children parent = left ++ (document.children root ++ right))
    (rows : ∀ {id}, id ∈ frame.fixed → id ≠ root → new.children id = document.children id) :
    frame.Lodges (Function.update id root parent) (Function.update (fun _ => []) root left)
      (Function.update (fun _ => []) root right) held new :=
  Frame.lodges_of_moved holds.own outside wellFormed
    (fun fixed => by rw [row, holds.row fixed])
    fun fixed notRoot => (rows fixed notRoot).trans (holds.row fixed)

theorem staysInRow_of_moved (stays : ∀ after, anchor = .region none after →
    after ∈ frame.rows root → left = []) :
    frame.StaysInRow (Function.update (fun _ => []) root left) anchor := by
  intro owner after isAnchor _ inRow
  by_cases same : owner = root
  · subst same
    rw [Function.update_self]
    exact stays after isAnchor inRow
  · exact Function.update_of_ne same ..

end Moving

/-! ## Bindings to texts and absent values -/

/-- The nodes whose content binding a slot may change. -/
def footprint (held : NodeId → List NodeId) : Template.Site → List NodeId
  | .region gap => held gap
  | .attributeValue id _ => [id]

theorem Reaches.mem_footprint {pin : NodeId → Option NodeId}
    (reaches : frame.Reaches pin document site anchor) {id : NodeId}
    (member : id ∈ footprint held site) : id ∈ frame.fixed ∨ id ∈ heldAt held site := by
  cases reaches with
  | region => exact Or.inr member
  | attributeValue fixed _ =>
      obtain rfl := List.mem_singleton.1 member
      exact Or.inl fixed

/-- The node is fixed, and the site is a gap in its row. -/
def Owns (frame : Frame) (id : NodeId) : Template.Site → Prop
  | .region gap => id ∈ frame.fixed ∧ gap ∈ frame.rows id
  | .attributeValue _ _ => False

/-- One slot was bound, and nothing has changed but what this slot holds. -/
structure Confined (frame : Frame) (place : NodeId → NodeId) (held rehold : NodeId → List NodeId)
    (old new : Document) (site : Template.Site) : Prop where
  size_le : old.size ≤ new.size
  others : ∀ {gap}, site ≠ .region gap → rehold gap = held gap
  filling : ∀ {id}, id ∈ heldAt rehold site → id ∈ heldAt held site ∨ id = old.size
  content? : ∀ {id}, id < old.size → id ∉ footprint held site →
    new.content? id = old.content? id
  children : ∀ {id}, (∀ owner, frame.Owns owner site → id ≠ place owner) →
    new.children id = old.children id

/-- Filling one gap with a text or with nothing leaves a frame lodged. -/
theorem Lodges.refill (lodges : frame.Lodges place ahead behind held document)
    (distinct : frame.Distinct) {parent gap after : NodeId} {left right filling : List NodeId}
    (gapAt : frame.GapAt parent gap left after right)
    (refills : Anchor.Refills document new (place parent) (ahead parent ++ left.flatMap held)
      (after :: (right.flatMap held ++ behind parent)) [] filling) :
    frame.Lodges place ahead behind (Frame.refill held gap [] filling) new := by
  refine ⟨refills.wellFormed, ?_, ?_, lodges.injective⟩
  · intro id fixed
    have different : id ≠ gap := fun same => gapAt.free (same ▸ fixed)
    rw [refill_of_ne different, Anchor.filter_not_mem_nil, lodges.own fixed]
  · intro id fixed
    by_cases same : id = parent
    · rw [same, refills.row, gapAt.flatMap_refill distinct lodges.own]
      simp only [Anchor.filter_not_mem_nil, List.append_assoc, List.cons_append]
    · have elsewhere : place id ≠ place parent := fun equal =>
        same (lodges.injective fixed gapAt.owner equal)
      rw [refills.children elsewhere, lodges.row fixed,
        gapAt.flatMap_refill_of_ne distinct fixed same, Anchor.filter_not_mem_nil,
        Anchor.filter_not_mem_nil]

/-- Binding a slot to anything but a node takes no node from elsewhere, and a region presents its
value afterwards; nor does binding an attribute to a node take one. -/
theorem Lodges.exists_confined_of_reaches
    (lodges : frame.Lodges place ahead behind held document) (distinct : frame.Distinct)
    {pin : NodeId → Option NodeId} (pinned : ∀ owner, (ahead owner).getLast? = pin owner)
    (reaches : frame.Reaches pin document site anchor) {value : Value}
    (plain : ∀ id, anchor.kind = .region → value ≠ .node id) :
    ∃ rehold, (Anchor.update document anchor value).outcome = .ok () ∧
      frame.Lodges place ahead behind rehold (Anchor.update document anchor value).document ∧
      frame.Confined place held rehold document (Anchor.update document anchor value).document
        site ∧
      ∀ gap, site = .region gap →
        (Anchor.update document anchor value).document.Presents (rehold gap) value := by
  cases reaches with
  | @region parent gap after left right gapAt _ =>
      have last := lodges.getLast?_append gapAt
      rw [pinned] at last
      obtain ⟨taken, filling, outcome, refills, fills⟩ :=
        Anchor.exists_refills lodges.wellFormed (lodges.row_of_gapAt gapAt)
          fun id isNode => absurd isNode (plain id rfl)
      rw [last] at outcome refills fills
      have filled : taken = [] ∧
          ∀ {id}, id ∈ filling → id ∈ held gap ∨ id = document.size := by
        cases fills with
        | text place _ =>
            refine ⟨rfl, fun member => ?_⟩
            rw [List.mem_singleton] at member
            exact member ▸ place
        | node => exact absurd rfl (plain _ rfl)
        | absent => exact ⟨rfl, fun member => absurd member List.not_mem_nil⟩
      have presents : (Anchor.update document
          (.region (left.getLast?.or (pin parent)) after) value).document.Presents filling
            value := by
        cases fills with
        | text _ content => simp [Document.Presents, content, Value.text?]
        | node => exact absurd rfl (plain _ rfl)
        | absent missing =>
            cases value with
            | text => contradiction
            | _ => rfl
      obtain ⟨rfl, filled⟩ := filled
      refine ⟨_, outcome, lodges.refill distinct gapAt refills,
        ⟨refills.size_le, ?_, ?_, ?_, ?_⟩, ?_⟩
      · intro other different
        rw [refill_of_ne fun same => different (congrArg _ same.symm)]
        exact Anchor.filter_not_mem_nil _
      · intro id member
        rw [heldAt, refill_self] at member
        exact filled member
      · intro id old absent
        refine refills.content? old fun member => ?_
        rcases filled member with inside | fresh
        · exact absent inside
        · exact Nat.ne_of_lt old fresh
      · intro id notOwner
        rw [refills.children (notOwner parent ⟨gapAt.owner, gapAt.mem_rows⟩),
          Anchor.filter_not_mem_nil]
      · rintro _ ⟨⟩
        rwa [refill_self]
  | @attributeValue id tag name attributes fixed element =>
      obtain ⟨outcome, changed⟩ := Anchor.update_attributeValue element name value
      have wellFormed := Anchor.wellFormed_update lodges.wellFormed (.attributeValue id name) value
      rw [changed] at wellFormed ⊢
      have rows := lodges.wellFormed.children_setContent id
        (.element tag (Attribute.bind attributes name value))
      refine ⟨held, outcome, ⟨wellFormed, lodges.own, ?_, lodges.injective⟩,
        ⟨by rw [size_setContent], fun _ => rfl, ?_, ?_, fun _ => congrFun rows _⟩,
        fun _ other => by contradiction⟩
      · intro owner isFixed
        rw [rows, lodges.row isFixed]
      · exact fun member => absurd member List.not_mem_nil
      · intro other _ absent
        have different : id ≠ other := fun same => absent (List.mem_singleton.2 same.symm)
        rw [content?_setContent, if_neg fun here => different here.1]

theorem Lodges.exists_confined (lodges : frame.Lodges place ahead behind held document)
    (distinct : frame.Distinct) (serves : frame.Serves document site anchor)
    (stays : frame.StaysInRow ahead anchor) {value : Value}
    (plain : ∀ id, anchor.kind = .region → value ≠ .node id) :
    ∃ rehold, (Anchor.update document anchor value).outcome = .ok () ∧
      frame.Lodges place ahead behind rehold (Anchor.update document anchor value).document ∧
      frame.Confined place held rehold document (Anchor.update document anchor value).document
        site ∧
      ∀ gap, site = .region gap →
        (Anchor.update document anchor value).document.Presents (rehold gap) value :=
  lodges.exists_confined_of_reaches distinct (fun _ => rfl) (serves.reaches stays) plain

/-- No node gets a parent that was not its parent before, but for a new one. -/
theorem Confined.mem_children (confined : frame.Confined place held rehold document new site)
    (before : frame.Lodges place ahead behind held document)
    (after : frame.Lodges place ahead behind rehold new) {id parent : NodeId}
    (member : id ∈ new.children parent) : id ∈ document.children parent ∨ id = document.size := by
  by_cases owned : ∃ owner, frame.Owns owner site ∧ parent = place owner
  · obtain ⟨owner, owns, rfl⟩ := owned
    cases site with
    | attributeValue => contradiction
    | region gap =>
        rw [after.row owns.1, List.mem_append, List.mem_append, List.mem_flatMap] at member
        rw [before.row owns.1, List.mem_append, List.mem_append, List.mem_flatMap]
        rcases member with inAhead | ⟨key, inRow, inside⟩ | inBehind
        · exact Or.inl (Or.inl inAhead)
        · by_cases same : key = gap
          · subst same
            exact (confined.filling inside).imp_left fun held =>
              Or.inr (Or.inl ⟨key, inRow, held⟩)
          · rw [confined.others fun equal => same (Template.Site.region.inj equal).symm] at inside
            exact Or.inl (Or.inr (Or.inl ⟨key, inRow, inside⟩))
        · exact Or.inl (Or.inr (Or.inr inBehind))
  · rw [confined.children fun owner owns same => owned ⟨owner, owns, same⟩] at member
    exact Or.inl member

/-! ## Runs of bindings -/

/-- Whatever binding the slots may change lies inside, or it is the row of the parent. -/
structure Encloses (frame : Frame) (place : NodeId → NodeId) (held : NodeId → List NodeId)
    (sites : List Template.Site) (inside : NodeId → Prop) (parent : NodeId) : Prop where
  nodes : ∀ site ∈ sites, ∀ id ∈ footprint held site, inside id
  rows : ∀ site ∈ sites, ∀ owner, frame.Owns owner site →
    inside (place owner) ∨ place owner = parent

section Runs

variable {sites : List Template.Site} {anchors : List Anchor} {inside : NodeId → Prop}
  {parent : NodeId}

theorem Confined.changesWithin (confined : frame.Confined place held rehold document new site)
    (before : frame.Lodges place ahead behind held document)
    (after : frame.Lodges place ahead behind rehold new)
    (encloses : frame.Encloses place held sites inside parent) (isSite : site ∈ sites) :
    document.ChangesWithin inside parent new where
  size_le := confined.size_le
  content? within outside :=
    confined.content? within fun member => outside (encloses.nodes _ isSite _ member)
  children _ outside different := by
    refine confined.children fun owner owns same => ?_
    rcases encloses.rows _ isSite owner owns with within | isParent
    · exact outside (same ▸ within)
    · exact different (same.trans isParent)
  parents within member :=
    (confined.mem_children before after member).resolve_right (Nat.ne_of_lt within)

theorem Confined.encloses (confined : frame.Confined place held rehold document new site)
    (encloses : frame.Encloses place held sites inside parent) (fresh : inside document.size) :
    frame.Encloses place rehold sites inside parent where
  nodes other isSite id member := by
    cases other with
    | attributeValue => exact encloses.nodes _ isSite id member
    | region gap =>
        rw [footprint] at member
        by_cases here : site = .region gap
        · subst here
          rcases confined.filling member with held | rfl
          · exact encloses.nodes _ isSite id held
          · exact fresh
        · rw [confined.others here] at member
          exact encloses.nodes _ isSite id member
  rows := encloses.rows

/-- Binding the slots of a lodged frame, one after the other, to texts and absent values is not
refused, and what it changes stays inside. -/
theorem Lodges.exists_bindAll (lodges : frame.Lodges place ahead behind held document)
    (distinct : frame.Distinct) (serves : List.Forall₂ (frame.Serves document) sites anchors)
    (present : ∀ {id}, id ∈ frame.fixed → id < document.size)
    (encloses : frame.Encloses place held sites inside parent)
    (fresh : ∀ {id}, document.size ≤ id → inside id) {bound : List (Anchor × Value)}
    (own : ∀ entry ∈ bound, entry.1 ∈ anchors)
    (stays : ∀ entry ∈ bound, frame.StaysInRow ahead entry.1)
    (plain : ∀ entry ∈ bound, ∀ id, entry.1.kind = .region → entry.2 ≠ .node id) :
    (Instance.bindAll document bound).outcome = .ok () ∧ ∃ rehold,
      frame.Lodges place ahead behind rehold (Instance.bindAll document bound).document ∧
      document.ChangesWithin inside parent (Instance.bindAll document bound).document := by
  induction bound generalizing document held with
  | nil => exact ⟨rfl, held, lodges, .refl inside parent document⟩
  | cons first rest inductionHypothesis =>
      obtain ⟨anchor, value⟩ := first
      rw [List.forall_mem_cons] at own stays plain
      obtain ⟨site, isSite, here⟩ := exists_site serves own.1
      obtain ⟨rehold, outcome, onward, confined, _⟩ :=
        lodges.exists_confined distinct here stays.1 plain.1
      have step := confined.changesWithin lodges onward encloses isSite
      obtain ⟨done, last, reached, others⟩ := inductionHypothesis onward
        (serves.imp fun _ _ other => other.of_husk fun fixed =>
          Anchor.husk_update anchor value (present fixed))
        (fun fixed => Nat.lt_of_lt_of_le (present fixed) step.size_le)
        (confined.encloses encloses (fresh (Nat.le_refl _)))
        (fun later => fresh (Nat.le_trans step.size_le later)) own.2 stays.2 plain.2
      rw [Instance.bindAll, Attempt.andThen, outcome]
      exact ⟨done, last, reached, step.trans others⟩

end Runs

/-- A frame that holds goes on to hold. -/
theorem Holds.exists_confined (holds : frame.Holds held document) (distinct : frame.Distinct)
    (serves : frame.Serves document site anchor) {value : Value}
    (plain : ∀ id, anchor.kind = .region → value ≠ .node id) :
    ∃ rehold, (Anchor.update document anchor value).outcome = .ok () ∧
      frame.Holds rehold (Anchor.update document anchor value).document ∧
      frame.Confined id held rehold document (Anchor.update document anchor value).document
        site ∧
      ∀ gap, site = .region gap →
        (Anchor.update document anchor value).document.Presents (rehold gap) value := by
  obtain ⟨rehold, outcome, lodges, confined, presents⟩ :=
    holds.lodges.exists_confined distinct serves (staysInRow_nil frame anchor) plain
  refine ⟨rehold, outcome, ⟨lodges.wellFormed, fun fixed => Nat.lt_of_lt_of_le
    (holds.present fixed) confined.size_le, lodges.own, ?_, ?_, ?_⟩, confined, presents⟩
  · intro gap id free member fixed
    by_cases here : site = .region gap
    · subst here
      rcases confined.filling member with inside | fresh
      · exact holds.free free inside fixed
      · exact Nat.lt_irrefl _ (fresh ▸ holds.present fixed)
    · rw [confined.others here] at member
      exact holds.free free member fixed
  · intro id fixed
    have row := lodges.row fixed
    rwa [List.nil_append, List.append_nil] at row
  · intro id parent fixed member
    rcases confined.mem_children holds.lodges lodges member with before | fresh
    · exact holds.closed fixed before
    · exact absurd (holds.present fixed) (fresh ▸ Nat.lt_irrefl _)

end Frame

end MarkupTemplate
