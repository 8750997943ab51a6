import MarkupTemplate.Proofs.Instance.Hosting

/-!
# Nested instances

An instance is nested in another when the fragment at its root is bound to a region, which then
holds what stood below that root.  From there on, its slots are bound inside this region.  There is
one exception: a slot that opens the nested instance has no sibling before it, so that its region
begins with the row it is now in, and not with the region that it was put into.
-/

namespace MarkupTemplate

open Document Relation Template

/-- The region of the anchor begins with the first child of the root. -/
def Anchor.Opens (document : Document) (root : NodeId) (anchor : Anchor) : Prop :=
  ∃ after, anchor = .region none after ∧ document.parent? after = some root

/-- The node is one of these nodes, or it stands below one of them. -/
def Document.Under (document : Document) (tops : List NodeId) (id : NodeId) : Prop :=
  ∃ top ∈ tops, ReflTransGen document.IsChild id top

/-- Between the documents nothing has changed but what a region of the instance holds: its siblings
stand around it as before, and all other nodes have the content and the children they had.  Nodes
of the skeleton are what they were, where they were, and so are the other regions with everything
below them. -/
structure ChangesRegion (outer : Hosted) (before : Option NodeId) (after : NodeId)
    (old new : Document) : Prop where
  rows : ∃ parent left right, left.getLast? = before ∧
    old.children parent =
      left ++ (Anchor.regionNodes old (.region before after) ++ after :: right) ∧
    new.children parent =
      left ++ (Anchor.regionNodes new (.region before after) ++ after :: right) ∧
    ∀ id < old.size, ¬ old.Under (Anchor.regionNodes old (.region before after)) id →
      id ≠ parent → new.children id = old.children id
  content? : ∀ id < old.size, ¬ old.Under (Anchor.regionNodes old (.region before after)) id →
    new.content? id = old.content? id
  skeleton : ∀ id ∈ outer.skeleton,
    new.content? id = old.content? id ∧ new.parent? id = old.parent? id
  regions : ∀ anchor ∈ outer.made.anchors, anchor ≠ .region before after →
    Anchor.regionNodes new anchor = Anchor.regionNodes old anchor ∧
    ∀ id ∈ Anchor.regionNodes old anchor,
      new.content? id = old.content? id ∧ new.below id = old.below id

namespace Frame

variable {frame : Frame} {held : NodeId → List NodeId} {document : Document}

/-- Nodes in gaps do not stand below each other. -/
theorem Holds.eq_of_above (holds : frame.Holds held document) {owner gap id top : NodeId}
    (fixed : owner ∈ frame.fixed) (child : id ∈ document.children owner)
    (free : gap ∉ frame.fixed) (member : top ∈ held gap)
    (above : ReflTransGen document.IsChild id top) : id = top := by
  rcases ReflTransGen.cases_head above with same | ⟨upper, step, path⟩
  · exact same
  · have upward := holds.wellFormed.arranged.isChild_iff.1 step
    obtain rfl := holds.wellFormed.arranged.eq_of_mem upward child
    exact absurd (holds.not_above fixed path) (holds.free free member)

section Places

variable {parent gap after : NodeId} {left right : List NodeId}

/-- No fixed node stands below what a gap holds. -/
theorem Holds.not_under (holds : frame.Holds held document)
    (place : frame.GapAt parent gap left after right) {id : NodeId} (fixed : id ∈ frame.fixed) :
    ¬ document.Under (held gap) id := by
  rintro ⟨top, member, path⟩
  exact holds.free place.free member (holds.not_above fixed path)

/-- A frame holds when a row was refilled and nothing else changed but below what was held in the
gap. -/
theorem Holds.of_changesWithin (holds : frame.Holds held document) (distinct : frame.Distinct)
    (place : frame.GapAt parent gap left after right) {new : Document} (wellFormed : new.WellFormed)
    (changes : document.ChangesWithin
      (fun id => document.size ≤ id ∨ document.Under (held gap) id) parent new)
    {filling : List NodeId} (row : new.children parent =
      left.flatMap held ++ (filling ++ after :: right.flatMap held)) :
    frame.Holds (Frame.refill held gap [] filling) new := by
  refine holds.of_row distinct place wellFormed changes.size_le ?_ ?_ ?_
    (List.disjoint_nil_left _) ?_
  · rw [Anchor.filter_not_mem_nil, Anchor.filter_not_mem_nil, row]
  · intro id fixed different
    rw [Anchor.filter_not_mem_nil]
    refine changes.children (holds.present fixed) ?_ different
    exact not_or.2 ⟨Nat.not_le_of_lt (holds.present fixed), holds.not_under place fixed⟩
  · exact fun fixed member => holds.closed fixed (changes.parents (holds.present fixed) member)
  · intro id member fixed
    have again : id ∈ new.children parent := by
      rw [row]
      exact List.mem_append_right _ (List.mem_append_left _ member)
    have beside := Anchor.not_mem_beside wellFormed row member
    have old := changes.parents (holds.present fixed) again
    rw [holds.row_of_gapAt place, List.mem_append, List.mem_append] at old
    rcases old with inLeft | inGap | inRight
    · exact beside.1 inLeft
    · exact holds.free place.free inGap fixed
    · exact beside.2 inRight

/-- Another region, with everything below it, is the same as before. -/
theorem Holds.region_same (holds : frame.Holds held document)
    (place : frame.GapAt parent gap left after right) {new : Document}
    (changes : document.ChangesWithin
      (fun id => document.size ≤ id ∨ document.Under (held gap) id) parent new)
    {filling : List NodeId} (onward : frame.Holds (Frame.refill held gap [] filling) new)
    {site : Site} {anchor : Anchor} (serves : frame.Serves document site anchor)
    (still : frame.Serves new site anchor) (different : site ≠ .region gap) :
    Anchor.regionNodes new anchor = Anchor.regionNodes document anchor ∧
      ∀ id ∈ Anchor.regionNodes document anchor,
        new.content? id = document.content? id ∧ new.below id = document.below id := by
  have arranged := holds.wellFormed.arranged
  rw [serves.regionNodes_eq holds, still.regionNodes_eq onward]
  cases serves with
  | attributeValue => exact ⟨rfl, by simp [heldAt]⟩
  | @region otherParent other otherAfter otherLeft otherRight otherPlace _ =>
      have unequal : other ≠ gap := fun same => different (same ▸ rfl)
      refine ⟨(refill_of_ne unequal ..).trans (Anchor.filter_not_mem_nil _), ?_⟩
      intro id member
      have inRow := holds.mem_children otherPlace member
      have apart := holds.disjoint otherPlace.owner place.owner otherPlace.mem_rows place.mem_rows
        unequal
      -- nothing below the node is below what the gap holds
      have outside : ∀ {lower}, ReflTransGen document.IsChild lower id →
          ¬ (document.size ≤ lower ∨ document.Under (held gap) lower) := by
        rintro lower path (large | ⟨top, isTop, toTop⟩)
        · rcases ReflTransGen.cases_head path with rfl | ⟨upper, step, _⟩
          · exact Nat.not_le_of_lt (holds.lt_size otherPlace member) large
          · exact Nat.not_le_of_lt (arranged.lt_size_of_mem (arranged.isChild_iff.1 step)) large
        · have inGap := holds.mem_children place isTop
          rcases WellFormed.above_total path toTop with above | above
          · have same := holds.eq_of_above otherPlace.owner inRow place.free isTop above
            exact apart (same ▸ member) isTop
          · have same := holds.eq_of_above place.owner inGap otherPlace.free member above
            exact apart member (same ▸ isTop)
      have within : ∀ {lower}, ReflTransGen document.IsChild lower id → lower < document.size :=
        fun path => Nat.lt_of_not_le fun large => outside path (Or.inl large)
      refine ⟨changes.content? (within ReflTransGen.refl) (outside ReflTransGen.refl),
        below_eq_of_same holds.wellFormed onward.wellFormed ?_ ?_⟩
      · exact fun lower path => changes.content? (within path) (outside path)
      · intro lower path
        refine changes.children (within path) (outside path) ?_
        rintro rfl
        exact holds.free otherPlace.free member (holds.not_above place.owner path)

end Places

end Frame

/-! ## The nested instance -/

/-- The inner instance was bound to a region of the outer one: what stood below its root is now held
in a gap of the outer frame. -/
structure Nested (outer inner : Hosted) (document bound : Document)
    (held : NodeId → List NodeId) (parent gap : NodeId) (left : List NodeId) (after : NodeId)
    (right : List NodeId) : Prop where
  holds : outer.frame.Holds held bound
  place : outer.frame.GapAt parent gap left after right
  boundary : bound.content? after = some .boundary
  filled : held gap = document.children inner.made.root
  rows : ∀ {id}, id ≠ parent → id ≠ inner.made.root → bound.children id = document.children id
  outside : parent ∉ inner.skeleton
  size_le : document.size ≤ bound.size
  husk : ∀ {id}, id < document.size →
    (bound.content? id).map Content.husk = (document.content? id).map Content.husk

/-- An instance can be bound to every region of another one. -/
theorem Housed.exists_nested {document : Document} {living : List Hosted} {outer inner : Hosted}
    (housed : Housed document living) (isOuter : outer ∈ living) (isInner : inner ∈ living)
    (different : outer ≠ inner) {before : Option NodeId} {after : NodeId}
    (slot : .region before after ∈ outer.made.anchors) :
    (Anchor.update document (.region before after) (.node inner.made.root)).outcome = .ok () ∧
      ∃ held parent gap left right, left.getLast? = before ∧ Nested outer inner document
        (Anchor.update document (.region before after) (.node inner.made.root)).document
        held parent gap left after right := by
  have apart := housed.disjoint_of_ne isOuter isInner different
  have innerLives := housed.lives inner isInner
  obtain ⟨_, settled⟩ := (housed.lives outer isOuter).exists_settled
  obtain ⟨_, holds⟩ := settled.exists_holds
  obtain ⟨site, _, serves⟩ := settled.exists_site slot
  generalize isAnchor : Anchor.region before after = anchor at serves
  cases serves with
  | attributeValue => contradiction
  | @region parent gap _ left right place boundary =>
      obtain ⟨rfl, rfl⟩ := Anchor.region.inj isAnchor
      have free : inner.made.root ∉ outer.skeleton := fun fixed => apart fixed innerLives.root
      obtain ⟨held, outcome, onward, filled, rows⟩ :=
        holds.exists_drained settled.distinct place innerLives.fragment free rfl
      refine ⟨outcome, held, parent, gap, left, right, rfl, onward, place, ?_, filled, rows,
        apart place.owner, Anchor.size_le_update _ _, Anchor.husk_update _ _⟩
      refine Content.eq_of_husk rfl rfl ?_
      rw [Anchor.husk_update _ _ (lt_size_of_content? boundary), boundary]

namespace Nested

variable {outer inner : Hosted} {document bound : Document} {held innerHeld : NodeId → List NodeId}
  {parent gap after : NodeId} {left right : List NodeId} {sites : List Site}

/-- The row that the inner instance was put into. -/
theorem row (nested : Nested outer inner document bound held parent gap left after right) :
    bound.children parent = left.flatMap held ++
      (document.children inner.made.root ++ after :: right.flatMap held) := by
  rw [← nested.filled]
  exact nested.holds.row_of_gapAt nested.place

/-- The skeleton of the inner instance, but for its root, stands below what stood below the root. -/
theorem under (nested : Nested outer inner document bound held parent gap left after right)
    (lives : Lives document inner) (holds : inner.frame.Holds innerHeld document) {id : NodeId}
    (fixed : id ∈ inner.skeleton) (notRoot : id ≠ inner.made.root) :
    bound.Under (held gap) id := by
  have path := lives.below fixed
  induction path using ReflTransGen.head_induction_on with
  | refl => contradiction
  | @head lower upper step _ inductionHypothesis =>
      have member := holds.wellFormed.arranged.isChild_iff.1 step
      by_cases same : upper = inner.made.root
      · subst same
        exact ⟨lower, nested.filled ▸ member, ReflTransGen.refl⟩
      · have owner := holds.closed fixed member
        obtain ⟨top, isTop, above⟩ := inductionHypothesis owner same
        rw [← nested.rows (fun isParent => nested.outside (isParent ▸ owner)) same] at member
        exact ⟨top, isTop, above.head (nested.holds.wellFormed.arranged.isChild_iff.2 member)⟩

/-- The slots of the inner instance are below what stood below its root. -/
theorem encloses (nested : Nested outer inner document bound held parent gap left after right)
    (lives : Lives document inner) (holds : inner.frame.Holds innerHeld document)
    (serves : List.Forall₂ (inner.frame.Serves document) sites inner.made.anchors) :
    inner.frame.Encloses (Function.update id inner.made.root parent) innerHeld sites
      (fun id => bound.size ≤ id ∨ bound.Under (held gap) id) parent := by
  refine ⟨fun site isSite id member => Or.inr ?_, fun site isSite owner owns => ?_⟩
  · obtain ⟨_, _, serves⟩ := Frame.exists_anchor serves isSite
    cases serves with
    | @region owner _ _ _ _ place _ =>
        have inRow := holds.mem_children place member
        by_cases same : owner = inner.made.root
        · subst same
          exact ⟨id, nested.filled ▸ inRow, ReflTransGen.refl⟩
        · obtain ⟨top, isTop, path⟩ := nested.under lives holds place.owner same
          rw [← nested.rows (fun isParent => nested.outside (isParent ▸ place.owner)) same]
            at inRow
          exact ⟨top, isTop, path.head (nested.holds.wellFormed.arranged.isChild_iff.2 inRow)⟩
    | attributeValue fixed element =>
        obtain rfl := List.mem_singleton.1 member
        refine nested.under lives holds fixed fun isRoot => ?_
        rw [isRoot, lives.fragment] at element
        exact absurd (Option.some.inj element) (by simp)
  · by_cases same : owner = inner.made.root
    · right
      rw [same, Function.update_self]
    · left
      rw [Function.update_of_ne same]
      cases site with
      | region gap => exact Or.inr (nested.under lives holds owns.1 same)
      | attributeValue => contradiction

/-- A slot that does not open the inner instance stays in its row, and every slot does if nothing
stands before the region. -/
theorem staysInRow (settled : Settled inner.frame sites inner.made.anchors document)
    (lives : Lives document inner) {anchor : Anchor} (own : anchor ∈ inner.made.anchors)
    {ahead : List NodeId} (stays : ahead = [] ∨ ¬ anchor.Opens document inner.made.root) :
    inner.frame.StaysInRow (Function.update (fun _ => []) inner.made.root ahead) anchor := by
  obtain ⟨held, holds⟩ := settled.exists_holds
  obtain ⟨_, _, serves⟩ := settled.exists_site own
  refine Frame.staysInRow_of_moved fun after isAnchor among => ?_
  refine stays.resolve_right fun never => never ⟨after, isAnchor, ?_⟩
  generalize anchor = found at isAnchor serves
  cases serves with
  | attributeValue => contradiction
  | region place _ =>
      obtain ⟨_, rfl⟩ := Anchor.region.inj isAnchor
      exact holds.wellFormed.arranged.parent?_eq_some_iff.2
        ((holds.mem_children_iff place.ended).2 ⟨lives.root, among⟩)

/-- Binding the slots of the inner instance leaves everything else in its row, as long as no region
reaches over the beginning of that row. -/
theorem exists_bindAll
    (nested : Nested outer inner document bound held parent gap left after right)
    (lives : Lives document inner) {run : List (Anchor × Value)}
    (own : ∀ entry ∈ run, entry.1 ∈ inner.made.anchors)
    (plain : ∀ entry ∈ run, ∀ id, entry.1.kind = .region → entry.2 ≠ .node id)
    (stays : left = [] ∨ ∀ entry ∈ run, ¬ entry.1.Opens document inner.made.root) :
    (Instance.bindAll bound run).outcome = .ok () ∧ ∃ filling,
      (Instance.bindAll bound run).document.WellFormed ∧
      (Instance.bindAll bound run).document.children parent =
        left.flatMap held ++ (filling ++ after :: right.flatMap held) ∧
      bound.ChangesWithin (fun id => bound.size ≤ id ∨ bound.Under (held gap) id) parent
        (Instance.bindAll bound run).document := by
  obtain ⟨_, settled⟩ := lives.exists_settled
  obtain ⟨_, holds⟩ := settled.exists_holds
  have lodges := holds.lodges_of_moved nested.outside nested.holds.wellFormed nested.row
    fun fixed notRoot =>
      nested.rows (fun isParent => nested.outside (isParent ▸ fixed)) notRoot
  obtain ⟨outcome, rehold, onward, changes⟩ := lodges.exists_bindAll settled.distinct
    (settled.serves.imp fun _ _ serves =>
      serves.of_husk fun fixed => nested.husk (holds.present fixed))
    (fun fixed => Nat.lt_of_lt_of_le (holds.present fixed) nested.size_le)
    (nested.encloses lives holds settled.serves) Or.inl own
    (fun entry member => staysInRow settled lives (own entry member)
      (stays.imp (fun empty => by rw [empty]; rfl) fun never => never entry member)) plain
  refine ⟨outcome, (inner.frame.rows inner.made.root).flatMap rehold, onward.wellFormed, ?_,
    changes⟩
  have reached := onward.row lives.root
  simpa only [Function.update_self] using reached

/-- The only changes are in the region if nothing else changed but its row and what was below its
nodes. -/
theorem changesRegion (nested : Nested outer inner document bound held parent gap left after right)
    (lives : Lives bound outer) {new : Document} (wellFormed : new.WellFormed)
    (changes : bound.ChangesWithin
      (fun id => bound.size ≤ id ∨ bound.Under (held gap) id) parent new)
    (husk : ∀ {id}, id < bound.size →
      (new.content? id).map Content.husk = (bound.content? id).map Content.husk)
    {filling : List NodeId} (row : new.children parent =
      left.flatMap held ++ (filling ++ after :: right.flatMap held)) :
    ChangesRegion outer left.getLast? after bound new := by
  have holds := nested.holds
  have place := nested.place
  obtain ⟨_, settled⟩ := lives.exists_settled
  have onward := holds.of_changesWithin settled.distinct place wellFormed changes row
  have outside : ∀ {id}, id < bound.size → ¬ bound.Under (held gap) id →
      ¬ (bound.size ≤ id ∨ bound.Under (held gap) id) :=
    fun within apart => not_or.2 ⟨Nat.not_le_of_lt within, apart⟩
  have region := holds.regionNodes_eq place
  have refilled := onward.regionNodes_eq place
  rw [Frame.refill_self] at refilled
  refine ⟨⟨parent, left.flatMap held, right.flatMap held, place.getLast?_flatMap holds.own, ?_, ?_,
    ?_⟩, ?_, ?_, ?_⟩
  · rw [region, holds.row_of_gapAt place]
  · rw [refilled, row]
  · rw [region]
    exact fun id within apart => changes.children within (outside within apart)
  · rw [region]
    exact fun id within apart => changes.content? within (outside within apart)
  · intro id fixed
    refine ⟨changes.content? (holds.present fixed) (outside (holds.present fixed)
      (holds.not_under place fixed)), onward.parent?_eq holds fixed⟩
  · intro anchor own different
    obtain ⟨site, _, serves⟩ := settled.exists_site own
    refine holds.region_same place changes onward serves
      (serves.of_husk fun fixed => husk (holds.present fixed)) ?_
    rintro rfl
    exact different (serves.anchor_eq settled.distinct (.region place nested.boundary))

end Nested

/-! ## Binding the slots of a nested instance -/

section Slots

variable {document : Document} {living : List Hosted} {outer inner : Hosted}
  {before : Option NodeId} {after : NodeId}

/-- The region of a slot that opens the nested instance begins with the row it was put into: it has
everything in it that stands there before the region of the outer instance. -/
theorem regionNodes_of_opening_slot (hosts : Hosts document living) (isOuter : outer ∈ living)
    (isInner : inner ∈ living) (different : outer ≠ inner)
    (slot : .region before after ∈ outer.made.anchors) {first : NodeId}
    (own : .region none first ∈ inner.made.anchors)
    (opens : Anchor.Opens document inner.made.root (.region none first)) :
    let bound :=
      (Anchor.update document (.region before after) (.node inner.made.root)).document
    ∃ parent left right, left.getLast? = before ∧
      bound.children parent =
        left ++ (Anchor.regionNodes bound (.region before after) ++ after :: right) ∧
      Anchor.regionNodes bound (.region none first) =
        left ++ Anchor.regionNodes document (.region none first) := by
  have housed := hosts.housed
  obtain ⟨_, held, parent, gap, left, right, rfl, nested⟩ :=
    housed.exists_nested isOuter isInner different slot
  obtain ⟨_, settled⟩ := (housed.lives inner isInner).exists_settled
  obtain ⟨_, same, isRoot⟩ := opens
  obtain rfl := (Anchor.region.inj same).2
  obtain ⟨_, _, root, ahead, rest, _, begins, row⟩ := settled.exists_row own
  obtain rfl := List.getLast?_eq_none_iff.1 begins
  obtain rfl : root = inner.made.root := by
    have child : first ∈ document.children root := by
      rw [row]
      simp
    rw [housed.wellFormed.arranged.parent?_eq_some_iff.2 child] at isRoot
    exact Option.some.inj isRoot
  refine ⟨parent, left.flatMap held, right.flatMap held,
    nested.place.getLast?_flatMap nested.holds.own, ?_, ?_⟩
  · rw [nested.holds.regionNodes_eq nested.place, nested.holds.row_of_gapAt nested.place]
  · have whole := nested.row
    rw [row, List.nil_append, List.append_assoc, ← List.append_assoc, List.cons_append] at whole
    exact Anchor.regionNodes_of_row nested.holds.wellFormed (show _ = [] ++ _ from whole)

/-- An instance that was bound to a region of another stays inside this region.  Its slots can be
bound to any texts and absent values, and in any order, without a change to anything else; except
that a slot which opens the instance may be bound only if the region has no sibling before it. -/
theorem nested_changes_region (hosts : Hosts document living) (isOuter : outer ∈ living)
    (isInner : inner ∈ living) (different : outer ≠ inner)
    (slot : .region before after ∈ outer.made.anchors) {run : List (Anchor × Value)}
    (own : ∀ entry ∈ run, entry.1 ∈ inner.made.anchors)
    (plain : ∀ entry ∈ run, ∀ id, entry.1.kind = .region → entry.2 ≠ .node id)
    (stays : before = none ∨ ∀ entry ∈ run, ¬ entry.1.Opens document inner.made.root) :
    let nesting := Anchor.update document (.region before after) (.node inner.made.root)
    nesting.outcome = .ok () ∧
      (Instance.bindAll nesting.document run).outcome = .ok () ∧
      ChangesRegion outer before after nesting.document
        (Instance.bindAll nesting.document run).document := by
  have housed := hosts.housed
  obtain ⟨outcome, held, parent, gap, left, right, rfl, nested⟩ :=
    housed.exists_nested isOuter isInner different slot
  have stillLives := (housed.lives outer isOuter).of_holds (fun _ => ⟨held, nested.holds⟩)
    nested.husk
  obtain ⟨done, filling, formed, row, changes⟩ := nested.exists_bindAll
    (housed.lives inner isInner) own plain (stays.imp_left List.getLast?_eq_none_iff.1)
  exact ⟨outcome, done, nested.changesRegion stillLives formed changes
    (Instance.husk_bindAll run) row⟩

/-- A text in a nested element is taken out. -/
theorem nested_element_changes_region :
    ∃ document living outer inner, Hosts document living ∧ outer ∈ living ∧ inner ∈ living ∧
      .region (some 2) 4 ∈ outer.made.anchors ∧ .region none 8 ∈ inner.made.anchors ∧
      let nesting := Anchor.update document (.region (some 2) 4) (.node inner.made.root)
      ChangesRegion outer (some 2) 4 nesting.document
        (Instance.bindAll nesting.document [(.region none 8, .null)]).document := by
  have computed : (Template.compile {} ["<p>lead", "</p>"]).toOption.bind (fun outer =>
      (Template.compile {} ["<b>", "</b>"]).toOption.bind fun inner =>
        (Instance.create .empty outer [.null]).outcome.toOption.bind fun made =>
          let second := Instance.create (Instance.create .empty outer [.null]).document inner
            [.text "a"]
          second.outcome.toOption.map fun nested =>
            (outer.slots.length, inner.slots.length, made, nested, second.document.parent? 8)) =
      some (1, 1, ⟨0, [.region (some 2) 4]⟩, ⟨5, [.region none 8]⟩, some 6) := by decide +kernel
  obtain ⟨outer, outerCompiled, computed⟩ := Option.bind_eq_some_iff.1 computed
  obtain ⟨inner, innerCompiled, computed⟩ := Option.bind_eq_some_iff.1 computed
  obtain ⟨made, outerCreated, computed⟩ := Option.bind_eq_some_iff.1 computed
  obtain ⟨nested, innerCreated, result⟩ := Option.map_eq_some_iff.1 computed
  simp only [Prod.mk.injEq] at result
  obtain ⟨outerSlots, innerSlots, rfl, rfl, above⟩ := result
  obtain ⟨outerMade, _, _, _, created, hosts⟩ := (Hosts.start .empty).exists_create
    (eq_ok_of_toOption outerCompiled) (show [Value.null].length = _ from outerSlots.symm) (by simp)
  rw [eq_ok_of_toOption outerCreated, Except.ok.injEq] at created
  subst created
  obtain ⟨innerMade, _, _, _, created, hosts⟩ := hosts.exists_create
    (eq_ok_of_toOption innerCompiled) (show [Value.text "a"].length = _ from innerSlots.symm)
    (by simp)
  rw [eq_ok_of_toOption innerCreated, Except.ok.injEq] at created
  subst created
  refine ⟨_, _, _, _, hosts, List.mem_cons_of_mem _ List.mem_cons_self, List.mem_cons_self,
    by simp, by simp, ?_⟩
  refine (nested_changes_region hosts (List.mem_cons_of_mem _ List.mem_cons_self)
    List.mem_cons_self (by simp) (by simp) (by simp) (by simp) (Or.inr ?_)).2.2
  simp only [List.mem_singleton, forall_eq]
  rintro ⟨after, same, isRoot⟩
  obtain rfl := (Anchor.region.inj same).2
  rw [above] at isRoot
  exact absurd (Option.some.inj isRoot) (by decide)

/-- A slot that opens the nested instance takes out the text before the region that the instance was
put into. -/
theorem not_changesRegion_of_opening_slot :
    ∃ document living outer inner, Hosts document living ∧ outer ∈ living ∧ inner ∈ living ∧
      outer ≠ inner ∧
      .region (some 2) 4 ∈ outer.made.anchors ∧ .region none 7 ∈ inner.made.anchors ∧
      let nesting := Anchor.update document (.region (some 2) 4) (.node inner.made.root)
      nesting.outcome = .ok () ∧
      ¬ ChangesRegion outer (some 2) 4 nesting.document
        (Instance.bindAll nesting.document [(.region none 7, .null)]).document := by
  have computed : (Template.compile {} ["<p>lead", "</p>"]).toOption.bind (fun outer =>
      (Template.compile {} ["", "<b>x</b>"]).toOption.bind fun inner =>
        (Document.empty.copyFrom outer.document outer.root).toOption.bind fun copy =>
          (Instance.create .empty outer [.null]).outcome.toOption.bind fun made =>
            let second := Instance.create (Instance.create .empty outer [.null]).document inner
              [.text "a"]
            let nesting := Anchor.update second.document (.region (some 2) 4) (.node 5)
            second.outcome.toOption.map fun nested =>
              ([[outer.slots.length], [inner.slots.length], outer.skeleton copy.1 copy.2],
                [made, nested], nesting.outcome.toOption.isSome, [nesting.document.parent? 2,
                  (Instance.bindAll nesting.document [(.region none 7, .null)]).document.parent?
                    2])) =
      some ([[1], [1], [0, 1, 2, 4]], [⟨0, [.region (some 2) 4]⟩, ⟨5, [.region none 7]⟩], true,
        [some 1, none]) := by decide +kernel
  obtain ⟨outer, outerCompiled, computed⟩ := Option.bind_eq_some_iff.1 computed
  obtain ⟨inner, innerCompiled, computed⟩ := Option.bind_eq_some_iff.1 computed
  obtain ⟨⟨copied, root⟩, outerCopied, computed⟩ := Option.bind_eq_some_iff.1 computed
  obtain ⟨made, outerCreated, computed⟩ := Option.bind_eq_some_iff.1 computed
  obtain ⟨nested, innerCreated, result⟩ := Option.map_eq_some_iff.1 computed
  simp only [Prod.mk.injEq, List.cons.injEq, and_true] at result
  obtain ⟨⟨outerSlots, innerSlots, skeleton⟩, ⟨rfl, rfl⟩, accepted, old, new⟩ := result
  obtain ⟨_, accepted⟩ := Option.isSome_iff_exists.1 accepted
  obtain ⟨outerMade, _, _, copyMade, created, hosts⟩ := (Hosts.start .empty).exists_create
    (eq_ok_of_toOption outerCompiled) (show [Value.null].length = _ from outerSlots.symm) (by simp)
  rw [eq_ok_of_toOption outerCreated, Except.ok.injEq] at created
  rw [eq_ok_of_toOption outerCopied, Except.ok.injEq, Prod.mk.injEq] at copyMade
  obtain ⟨rfl, rfl⟩ := copyMade
  subst created
  obtain ⟨innerMade, _, _, _, created, hosts⟩ := hosts.exists_create
    (eq_ok_of_toOption innerCompiled) (show [Value.text "a"].length = _ from innerSlots.symm)
    (by simp)
  rw [eq_ok_of_toOption innerCreated, Except.ok.injEq] at created
  subst created
  refine ⟨_, _, _, _, hosts, List.mem_cons_of_mem _ List.mem_cons_self, List.mem_cons_self,
    by simp, by simp, by simp, eq_ok_of_toOption accepted, fun changes => ?_⟩
  have same := (changes.skeleton 2 (by simp [skeleton])).2
  rw [old, new] at same
  exact absurd same (by simp)

end Slots

end MarkupTemplate
