import MarkupTemplate.Proofs.Instance.Settled
import MarkupTemplate.Proofs.Reachable

/-!
# Creating instances

A compiled template can always be instantiated: with a value for every slot, of which those put into
regions are texts, absent, or nodes of the document, nothing is refused.  The anchors of the new
instance are in its copy of the template, and they lie there as they did before the values were
bound, unless a node of the copy itself was put into a region.
-/

namespace MarkupTemplate

open Document Relation Template

/-- The nodes that an anchor names. -/
def Anchor.nodes : Anchor → List NodeId
  | .region before after => before.toList ++ [after]
  | .attributeValue element _ => [element]

/-- One of the values puts the node into a region of the template. -/
def Template.PutsInRegion (template : Template) (values : List Value) (id : NodeId) : Prop :=
  ∃ slot, (slot, Value.node id) ∈ template.slots.zip values ∧ slot.kind = .region

/-! ## Documents that were only added to -/

/-- The nodes of the old document are the same in the new one, and no new one is above them. -/
structure Document.Spares (old new : Document) : Prop where
  size_le : old.size ≤ new.size
  content? : ∀ {id}, id < old.size → new.content? id = old.content? id
  children : ∀ {id}, id < old.size → new.children id = old.children id
  above : ∀ {id parent}, id < old.size → id ∈ new.children parent → parent < old.size

theorem Document.Spares.node?_eq {old new : Document} (spares : Spares old new)
    (oldFormed : old.WellFormed) (newFormed : new.WellFormed) {id : NodeId}
    (within : id < old.size) : new.node? id = old.node? id := by
  refine oldFormed.node?_eq newFormed (spares.content? within) (spares.children within) ?_ ?_
  · intro parent
    constructor
    · intro member
      rwa [spares.children (spares.above within member)] at member
    · intro member
      rwa [spares.children (oldFormed.arranged.parent_lt_size_of_mem member)]
  · exact fun parent member =>
      spares.children (oldFormed.arranged.parent_lt_size_of_mem member)

namespace Instance

variable {document copied : Document} {template : Template} {marker : String}
  {block : Forest (NodeId × Content)}

/-! ## Anchors and the slots they are for -/

theorem kind_eq_of_anchorAt {root : NodeId} {slot : Slot} {anchor : Anchor}
    (found : anchorAt document root slot = .ok anchor) : slot.kind = anchor.kind := by
  unfold anchorAt at found
  cases slot
  all_goals
    simp only at found
    repeat' split at found
    all_goals first
      | contradiction
      | rw [← Except.ok.inj found]
        rfl

theorem forall₂_kind_of_mapM {root : NodeId} {slots : List Slot} {anchors : List Anchor}
    (found : slots.mapM (anchorAt document root) = .ok anchors) :
    List.Forall₂ (fun slot anchor => slot.kind = anchor.kind) slots anchors :=
  (forall₂_of_mapM_eq_ok found).imp fun _ _ => kind_eq_of_anchorAt

/-- What is bound to an anchor is bound to a slot of the same kind. -/
theorem exists_slot_of_mem_zip {root : NodeId} {slots : List Slot} {anchors : List Anchor}
    (found : slots.mapM (anchorAt document root) = .ok anchors) {values : List Value}
    {anchor : Anchor} {value : Value} (member : (anchor, value) ∈ anchors.zip values) :
    ∃ slot, (slot, value) ∈ slots.zip values ∧ slot.kind = anchor.kind := by
  have kinds := forall₂_kind_of_mapM found
  clear found
  induction kinds generalizing values with
  | nil => simp at member
  | cons kind _ inductionHypothesis =>
      cases values with
      | nil => simp at member
      | cons bound remaining =>
          rw [List.zip_cons_cons, List.mem_cons] at member
          rw [List.zip_cons_cons]
          rcases member with same | later
          · obtain ⟨rfl, rfl⟩ := Prod.mk.inj same
            exact ⟨_, List.mem_cons_self, kind⟩
          · obtain ⟨slot, isBound, kind⟩ := inductionHypothesis later
            exact ⟨slot, List.mem_cons_of_mem _ isBound, kind⟩

theorem CopyOf.putsInRegion (copy : CopyOf document template marker copied block)
    {values : List Value} {anchor : Anchor} {id : NodeId}
    (member : (anchor, .node id) ∈ (anchorsOf marker none block).zip values)
    (isRegion : anchor.kind = .region) : template.PutsInRegion values id := by
  obtain ⟨slot, bound, kind⟩ := exists_slot_of_mem_zip copy.anchors member
  exact ⟨slot, bound, kind.trans isRegion⟩

/-- The anchors of an instance name nodes of its skeleton. -/
theorem CopyOf.mem_skeleton_of_mem_nodes (copy : CopyOf document template marker copied block)
    {anchor : Anchor} (own : anchor ∈ anchorsOf marker none block) {id : NodeId}
    (member : id ∈ anchor.nodes) : id ∈ template.skeleton copied document.size := by
  obtain ⟨site, _, serves⟩ := copy.settled.exists_site own
  cases serves with
  | region place _ =>
      rw [Anchor.nodes, List.mem_append, Option.mem_toList, List.mem_singleton] at member
      rcases member with before | rfl
      · exact place.begun id before
      · exact place.ended
  | attributeValue fixed _ => exact List.mem_singleton.1 member ▸ fixed

/-! ## Binding values to the slots of a copy -/

theorem husk_bindAll (bound : List (Anchor × Value)) {id : NodeId} (within : id < document.size) :
    ((bindAll document bound).document.content? id).map Content.husk =
      (document.content? id).map Content.husk := by
  induction bound generalizing document with
  | nil => rfl
  | cons first rest inductionHypothesis =>
      obtain ⟨anchor, value⟩ := first
      have husk := Anchor.husk_update anchor value within
      have still := Nat.lt_of_lt_of_le within (Anchor.size_le_update anchor value)
      rw [bindAll, Attempt.andThen]
      split
      · exact (inductionHypothesis still).trans husk
      · exact husk

/-- Whatever is refused is refused for a node. -/
theorem exists_invalidNode_of_bindAll {bound : List (Anchor × Value)} {cause : Error}
    (refused : (bindAll document bound).outcome = .error cause) :
    ∃ node defect, cause = .invalidNode node defect := by
  induction bound generalizing document with
  | nil => contradiction
  | cons first rest inductionHypothesis =>
      obtain ⟨anchor, value⟩ := first
      rw [bindAll, Attempt.andThen] at refused
      split at refused
      · exact inductionHypothesis refused
      · rename_i rejected
        rw [Except.error.inj refused] at rejected
        exact Anchor.exists_invalidNode_of_update rejected

end Instance

/-- Binding slots to texts and absent values spares everything that was there before the fixed
nodes. -/
theorem Settled.spares_bindAll {frame : Frame} {sites : List Site} {anchors : List Anchor}
    {old document : Document} (settled : Settled frame sites anchors document)
    (new : ∀ {id}, id ∈ frame.fixed → old.size ≤ id) (spares : old.Spares document)
    {bound : List (Anchor × Value)} (own : ∀ entry ∈ bound, entry.1 ∈ anchors)
    (plain : ∀ entry ∈ bound, ∀ id, entry.1.kind = .region → entry.2 ≠ .node id) :
    old.Spares (Instance.bindAll document bound).document := by
  obtain ⟨held, holds⟩ := settled.exists_holds
  -- what the slots hold, and where, is new
  have encloses : frame.Encloses id held sites (old.size ≤ ·) old.size := by
    refine ⟨fun site isSite id member => ?_, fun site _ owner owns => Or.inl ?_⟩
    · obtain ⟨_, _, serves⟩ := Frame.exists_anchor settled.serves isSite
      cases serves with
      | region place _ =>
          refine Nat.le_of_not_lt fun within => Nat.not_lt_of_le (new place.owner) ?_
          exact spares.above within (holds.mem_children place member)
      | attributeValue fixed _ => exact List.mem_singleton.1 member ▸ new fixed
    · cases site with
      | region gap => exact new owns.1
      | attributeValue => contradiction
  obtain ⟨_, _, _, changes⟩ := holds.lodges.exists_bindAll settled.distinct settled.serves
    holds.present encloses (Nat.le_trans spares.size_le) own
    (fun _ _ => Frame.staysInRow_nil _ _) plain
  refine ⟨Nat.le_trans spares.size_le changes.size_le, ?_, ?_, ?_⟩
  · intro id within
    rw [changes.content? (Nat.lt_of_lt_of_le within spares.size_le) (Nat.not_le_of_lt within),
      spares.content? within]
  · intro id within
    rw [changes.children (Nat.lt_of_lt_of_le within spares.size_le) (Nat.not_le_of_lt within)
      (Nat.ne_of_lt within), spares.children within]
  · exact fun within member =>
      spares.above within (changes.parents (Nat.lt_of_lt_of_le within spares.size_le) member)

/-! ## New instances -/

namespace Instance

variable {options : CompileOptions} {fragments : List String} {document : Document}
  {template : Template}

theorem CopyOf.spares {copied : Document} {marker : String}
    {block : Forest (NodeId × Content)} (copy : CopyOf document template marker copied block)
    (wellFormed : document.WellFormed) : document.Spares copied where
  size_le := Nat.le_of_lt (lt_size_of_content? copy.copiedIn.copied)
  content? := copy.copiedIn.content?
  children := copy.copiedIn.children
  above old member :=
    wellFormed.arranged.parent_lt_size_of_mem ((copy.copiedIn.mem_children old _).1 member)

theorem CopyOf.outcome_create {copied : Document} {marker : String}
    {block : Forest (NodeId × Content)} (copy : CopyOf document template marker copied block)
    (made : document.copyFrom template.document template.root = .ok (copied, document.size))
    {values : List Value} (count : values.length = template.slots.length)
    (old : ∀ id, template.PutsInRegion values id → id < document.size) :
    ∃ created, (create document template values).outcome = .ok created := by
  have bound : (bindAll copied ((anchorsOf marker none block).zip values)).outcome = .ok () := by
    refine copy.settled.outcome_bindAll (fun entry member => (List.of_mem_zip member).1) ?_
    rintro ⟨anchor, value⟩ member id isRegion rfl
    have before := old id (copy.putsInRegion member isRegion)
    refine ⟨Nat.lt_trans before (lt_size_of_content? copy.copiedIn.copied), fun fixed => ?_⟩
    exact Nat.not_lt_of_le (copy.size_le fixed) before
  rw [copy.create_eq made count, Attempt.andThen, bound]
  exact ⟨_, rfl⟩

section Bound

variable {copied : Document} {marker : String} {block : Forest (NodeId × Content)}
  {values : List Value} {before : Option NodeId} {after : NodeId}

/-- A region ends at a boundary, whatever is bound. -/
theorem CopyOf.boundary_bindAll (copy : CopyOf document template marker copied block)
    (own : .region before after ∈ anchorsOf marker none block) (bound : List (Anchor × Value)) :
    (bindAll copied bound).document.content? after = some .boundary := by
  obtain ⟨boundary, fixed, _⟩ := copy.settled.exists_row own
  refine Content.eq_of_husk rfl rfl ?_
  rw [husk_bindAll bound (lt_size_of_content? boundary), boundary]

/-- A region stays in its place below the root as long as no node of the skeleton is put into a
region. -/
theorem CopyOf.stands_bindAll (copy : CopyOf document template marker copied block)
    (done : (bindAll copied ((anchorsOf marker none block).zip values)).outcome = .ok ())
    (free : ∀ id, template.PutsInRegion values id →
      id ∉ template.skeleton copied document.size)
    (own : .region before after ∈ anchorsOf marker none block) :
    (bindAll copied ((anchorsOf marker none block).zip values)).document.isInclusiveAncestor
        document.size after ∧
      ∀ sibling, before = some sibling → after ∈
        (bindAll copied ((anchorsOf marker none block).zip values)).document.laterSiblings
          sibling := by
  have settled := copy.settled.of_bindAll (fun entry member => (List.of_mem_zip member).1)
    (fun entry member id isRegion isNode =>
      free id (copy.putsInRegion (isNode ▸ member) isRegion)) done
  obtain ⟨held, holds⟩ := settled.exists_holds
  obtain ⟨_, fixed, parent, left, right, _, begins, row⟩ := settled.exists_row own
  constructor
  · rw [isInclusiveAncestor_iff holds.wellFormed.arranged holds.wellFormed.acyclic]
    refine copy.holds.above holds fixed ?_
    rcases (copy.mem_skeleton_iff.1 fixed).1 with rfl | inside
    · exact ReflTransGen.refl
    · exact (copy.stands.above inside).to_reflTransGen
  · rintro sibling rfl
    obtain ⟨first, rfl⟩ := List.getLast?_eq_some_iff.1 begins
    rw [List.append_assoc, List.singleton_append] at row
    rw [holds.wellFormed.arranged.laterSiblings_eq row]
    simp

/-- Nothing that was there before the copy changes unless a node is put into a region. -/
theorem CopyOf.spares_bindAll (copy : CopyOf document template marker copied block)
    (wellFormed : document.WellFormed) (noNode : ∀ id, ¬ template.PutsInRegion values id) :
    document.Spares
      (bindAll copied ((anchorsOf marker none block).zip values)).document :=
  copy.settled.spares_bindAll copy.size_le (copy.spares wellFormed)
    (fun _ member => (List.of_mem_zip member).1)
    (fun _ member id isRegion isNode =>
      noNode id (copy.putsInRegion (isNode ▸ member) isRegion))

theorem CopyOf.node?_bindAll (copy : CopyOf document template marker copied block)
    (wellFormed : document.WellFormed) (noNode : ∀ id, ¬ template.PutsInRegion values id)
    {id : NodeId} (within : id < document.size) :
    (bindAll copied ((anchorsOf marker none block).zip values)).document.node? id =
      document.node? id :=
  (copy.spares_bindAll wellFormed noNode).node?_eq wellFormed
    (wellFormed_bindAll copy.copiedIn.wellFormed _) within

end Bound

/-- A compiled template can be instantiated in every document: only a wrong number of values, or a
node put into a region that was not in the document before, is refused.  The anchors of an instance
are in its skeleton, every region ends at a boundary, and it lies below the root between siblings
in their order, if no node of the skeleton was put into a region.  The skeleton is new, so no node
that was there before is in it.  If no node at all was put into a region, the document is only
added to. -/
theorem create_of_compiled (compiled : compile options fragments = .ok template)
    (reachable : document.Reachable) (values : List Value) :
    ∃ copied root, document.copyFrom template.document template.root = .ok (copied, root) ∧
      (∀ id ∈ template.skeleton copied root, document.size ≤ id) ∧
      (values.length ≠ template.slots.length → create document template values =
        { document
          outcome := .error (.valueCountMismatch template.slots.length values.length) }) ∧
      (values.length = template.slots.length →
        (∀ id, template.PutsInRegion values id → id < document.size) →
          ∃ made, (create document template values).outcome = .ok made) ∧
      (∀ address,
        (create document template values).outcome ≠ .error (.unresolvableAddress address)) ∧
      ∀ made, (create document template values).outcome = .ok made →
        (∀ anchor ∈ made.anchors, ∀ id ∈ anchor.nodes,
          document.size ≤ id ∧ id ∈ template.skeleton copied root) ∧
        (∀ before after, .region before after ∈ made.anchors →
          (create document template values).document.content? after = some .boundary) ∧
        ((∀ id, template.PutsInRegion values id → id ∉ template.skeleton copied root) →
          ∀ before after, .region before after ∈ made.anchors →
            (create document template values).document.isInclusiveAncestor made.root after ∧
            ∀ sibling, before = some sibling →
              after ∈ (create document template values).document.laterSiblings sibling) ∧
        ((∀ id, ¬ template.PutsInRegion values id) → ∀ id < document.size,
          (create document template values).document.node? id = document.node? id) := by
  have wellFormed := reachable.wellFormed
  obtain ⟨copied, block, copyMade, copy⟩ := exists_copyOf_of_compile wellFormed compiled
  have mismatch : values.length ≠ template.slots.length → create document template values =
      { document
        outcome := .error (.valueCountMismatch template.slots.length values.length) } := by
    intro differ
    rw [create, if_pos differ]
  refine ⟨copied, document.size, copyMade, fun id => copy.size_le, mismatch,
    copy.outcome_create copyMade, ?_, ?_⟩
  · intro address refused
    by_cases count : values.length = template.slots.length
    · rw [copy.create_eq copyMade count, Attempt.andThen] at refused
      split at refused
      · contradiction
      · rename_i rejected
        rw [Except.error.inj refused] at rejected
        obtain ⟨_, _, other⟩ := exists_invalidNode_of_bindAll rejected
        contradiction
    · rw [mismatch count] at refused
      exact absurd (Except.error.inj refused) (by simp)
  · intro made created
    obtain ⟨rfl, done, new⟩ := copy.of_create copyMade created
    rw [new]
    refine ⟨fun anchor own id member => ?_, fun before after own => ?_, ?_, ?_⟩
    · have fixed := copy.mem_skeleton_of_mem_nodes own member
      exact ⟨copy.size_le fixed, fixed⟩
    · exact copy.boundary_bindAll own _
    · exact fun free before after own => copy.stands_bindAll done free own
    · exact fun noNode id within => copy.node?_bindAll wellFormed noNode within

/-- A paragraph around a node of the document. -/
theorem create_of_paragraph :
    let document := Document.empty.perform (.createText "within")
    ∃ template made, Template.compile {} ["<p>", "</p>"] = .ok template ∧
      (create document template [.node 0]).outcome = .ok made ∧
      ∀ anchor ∈ made.anchors, ∀ id ∈ anchor.nodes, 1 ≤ id := by
  intro document
  have computed : ((Template.compile {} ["<p>", "</p>"]).toOption.map Template.slots) =
      some [.region [0, 0]] := by decide +kernel
  obtain ⟨template, compiled, slots⟩ := Option.map_eq_some_iff.1 computed
  have reachable : document.Reachable := .perform .empty (by simp [Operation.source?])
    (by simp [Operation.template?])
  obtain ⟨_, _, _, _, _, accepted, _, holds⟩ :=
    create_of_compiled (eq_ok_of_toOption compiled) reachable [.node 0]
  have count : [Value.node 0].length = template.slots.length := by
    rw [slots]
    rfl
  obtain ⟨made, created⟩ := accepted count fun id => by
    rintro ⟨slot, member, _⟩
    rw [Value.node.inj (List.mem_singleton.1 (List.of_mem_zip member).2)]
    decide
  exact ⟨template, made, eq_ok_of_toOption compiled, created, fun anchor own id member =>
    ((holds made created).1 anchor own id member).1⟩

/-- A region does not keep its place if the boundary at its end, which is copied with the template,
is itself put into a region. -/
theorem not_laterSibling_of_own_boundary :
    ∃ template made, Template.compile {} ["<p>", "", "</p>"] = .ok template ∧
      (create .empty template [.node 5, .text "x"]).outcome = .ok made ∧
      .region (some 3) 5 ∈ made.anchors ∧
      5 ∉ (create .empty template [.node 5, .text "x"]).document.laterSiblings 3 := by
  have computed : (Template.compile {} ["<p>", "", "</p>"]).toOption.map (fun template =>
      ((create .empty template [.node 5, .text "x"]).outcome.toOption.map Instance.anchors,
        (create .empty template [.node 5, .text "x"]).document.laterSiblings 3)) =
      some (some [.region none 3, .region (some 3) 5], [4]) := by decide +kernel
  obtain ⟨template, compiled, result⟩ := Option.map_eq_some_iff.1 computed
  rw [Prod.mk.injEq] at result
  obtain ⟨made, created, anchors⟩ := Option.map_eq_some_iff.1 result.1
  exact ⟨template, made, eq_ok_of_toOption compiled, eq_ok_of_toOption created, by simp [anchors],
    by simp [result.2]⟩

end Instance

end MarkupTemplate
