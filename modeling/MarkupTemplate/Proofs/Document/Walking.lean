import MarkupTemplate.Document.Walk
import MarkupTemplate.Proofs.Document.Tree

/-!
# Walks in document order

The nodes below a root can be listed with a stack, onto which the children of every node are pushed
from the last one back.  Going to the first child, or else to the next sibling of the nearest node
that has one, goes through them in the same order.  So a walker has the later part of that list
before it, and gives out the elements and texts of it.
-/

namespace MarkupTemplate

open Relation

/-! ## Rows that a link goes through -/

/-- The link leads from every node of the list to the next one, and from the last to the end. -/
def LeadsThrough (link : NodeId → Option NodeId) : List NodeId → Option NodeId → Prop
  | [], _ => True
  | id :: rest, ending => link id = rest.head?.or ending ∧ LeadsThrough link rest ending

theorem leadsThrough_append {link : NodeId → Option NodeId} {first second : List NodeId}
    {ending : Option NodeId} :
    LeadsThrough link (first ++ second) ending ↔
      LeadsThrough link first (second.head?.or ending) ∧ LeadsThrough link second ending := by
  induction first with
  | nil => simp [LeadsThrough]
  | cons id rest inductionHypothesis =>
      rw [List.cons_append, LeadsThrough, LeadsThrough, inductionHypothesis, List.head?_append,
        Option.or_assoc, and_assoc]

theorem Forest.head?_ids (forest : Forest (NodeId × Content)) :
    forest.ids.head? = forest.rootIds.head? := by
  cases forest <;> simp

namespace Document

variable {document : Document} {root parent id : NodeId} {earlier later : List NodeId}

/-! ## What stands below a node -/

theorem WellFormed.nodup_descendants (wellFormed : document.WellFormed) (root : NodeId) :
    (document.descendants root).Nodup :=
  (wellFormed.hasBelow_below root).nodup_ids wellFormed

theorem WellFormed.not_mem_descendants_self (wellFormed : document.WellFormed) (root : NodeId) :
    root ∉ document.descendants root := by
  intro member
  have hasBelow := wellFormed.hasBelow_below root
  obtain ⟨top, isTop, path⟩ := wellFormed.exists_root_above hasBelow.grows member
  rw [← hasBelow.row] at isTop
  exact wellFormed.acyclic root (TransGen.tail' path (wellFormed.arranged.isChild_iff.2 isTop))

theorem WellFormed.length_descendants_le (wellFormed : document.WellFormed) (root : NodeId) :
    (document.descendants root).length ≤ document.size := by
  have bound := (wellFormed.hasBelow_below root).length_labels_le wellFormed
  rwa [descendants, List.length_map]

theorem WellFormed.ids_eq_flatMap (wellFormed : document.WellFormed)
    {forest : Forest (NodeId × Content)} (grows : forest.GrowsIn document) :
    forest.ids = forest.rootIds.flatMap fun id => id :: document.descendants id := by
  induction forest with
  | empty => rfl
  | plant label children siblings _ siblingsHypothesis =>
      obtain ⟨_, row, inside, beside⟩ := grows
      have below : document.descendants label.1 = children.ids := by
        have hasBelow : document.HasBelow label.1 children := ⟨row, inside⟩
        rw [descendants, hasBelow.below_eq wellFormed, Forest.ids]
      rw [Forest.ids_plant, Forest.rootIds_plant, List.flatMap_cons, below,
        ← siblingsHypothesis beside]
      rfl

/-- Below a node stand its children, each with what stands below it. -/
theorem WellFormed.descendants_eq_flatMap (wellFormed : document.WellFormed) (id : NodeId) :
    document.descendants id =
      (document.children id).flatMap fun child => child :: document.descendants child := by
  have hasBelow := wellFormed.hasBelow_below id
  rw [hasBelow.row, ← wellFormed.ids_eq_flatMap hasBelow.grows]
  rfl

/-! ## Listing with a stack -/

/-- Push the children of a node on a stack, the last one first. -/
def pushChildren (document : Document) (id : NodeId) (stack : List NodeId) : List NodeId :=
  (document.chain document.prevSibling? (document.lastChild? id)).foldl
    (fun pushed child => child :: pushed) stack

/-- Pop a node and push its children, a number of times. -/
def unstack (document : Document) : Nat → List NodeId → List NodeId
  | 0, _ => []
  | _ + 1, [] => []
  | steps + 1, id :: stack => id :: document.unstack steps (document.pushChildren id stack)

theorem WellFormed.pushChildren_eq (wellFormed : document.WellFormed) (id : NodeId)
    (stack : List NodeId) : document.pushChildren id stack = document.children id ++ stack := by
  rw [pushChildren, wellFormed.arranged.chain_prevSibling?_eq, List.foldl_reverse,
    List.foldr_cons_eq_append']

/-- A stack lists its nodes from the top, each with what stands below it. -/
theorem WellFormed.unstack_eq (wellFormed : document.WellFormed) (steps : Nat)
    (stack : List NodeId) :
    document.unstack steps stack =
      (stack.flatMap fun id => id :: document.descendants id).take steps := by
  induction steps generalizing stack with
  | zero => rw [unstack, List.take_zero]
  | succ steps inductionHypothesis =>
      cases stack with
      | nil => rfl
      | cons id stack =>
          rw [unstack, wellFormed.pushChildren_eq, inductionHypothesis, List.flatMap_append,
            ← wellFormed.descendants_eq_flatMap]
          rfl

/-- So what stands below a node is found by way of last children and previous siblings as well. -/
theorem WellFormed.unstack_pushChildren (wellFormed : document.WellFormed) (root : NodeId) :
    document.unstack document.size (document.pushChildren root []) =
      document.descendants root := by
  rw [wellFormed.unstack_eq, wellFormed.pushChildren_eq, List.append_nil,
    ← wellFormed.descendants_eq_flatMap,
    List.take_of_length_le (wellFormed.length_descendants_le root)]

/-! ## The node after another -/

/-- The node that comes after everything below a node: the next sibling of the nearest node that
has one, from the node itself up to the root. -/
def behind? (document : Document) (root id : NodeId) : Option NodeId :=
  ((document.upward id).takeWhile (· ≠ root)).findSome? document.nextSibling?

theorem following?_eq (document : Document) (root id : NodeId) :
    document.following? root id =
      (document.firstChild? id).or (document.behind? root id) := by
  unfold following?
  cases document.firstChild? id <;> rfl

theorem behind?_root (document : Document) (root : NodeId) :
    document.behind? root root = none := by
  have upward : ∃ above, document.upward root = root :: above := ⟨_, rfl⟩
  obtain ⟨above, shape⟩ := upward
  rw [behind?, shape, List.takeWhile_cons_of_neg (by simp), List.findSome?_nil]

theorem WellFormed.behind?_of_child (wellFormed : document.WellFormed)
    (child : document.IsChild id parent) (different : id ≠ root) :
    document.behind? root id =
      (document.nextSibling? id).or (document.behind? root parent) := by
  rw [behind?, upward_of_child wellFormed.arranged wellFormed.acyclic child,
    List.takeWhile_cons_of_pos (by simpa using different), List.findSome?_cons]
  cases document.nextSibling? id <;> rfl

/-- In a row of trees, one node follows the other, and what comes behind the parent follows the
last. -/
theorem WellFormed.leadsThrough_ids (wellFormed : document.WellFormed)
    {forest : Forest (NodeId × Content)} (grows : forest.GrowsIn document)
    {beside : List NodeId} (row : document.children parent = beside ++ forest.rootIds)
    (outside : root ∉ forest.ids) :
    LeadsThrough (document.following? root) forest.ids (document.behind? root parent) := by
  induction forest generalizing parent beside with
  | empty => trivial
  | plant label children siblings childrenHypothesis siblingsHypothesis =>
      obtain ⟨_, below, inside, after⟩ := grows
      rw [Forest.ids_plant] at outside ⊢
      rw [List.mem_cons, List.mem_append, not_or, not_or] at outside
      rw [Forest.rootIds_plant] at row
      have child : document.IsChild label.1 parent := by
        rw [wellFormed.arranged.isChild_iff, row]
        simp
      have next : document.behind? root label.1 =
          siblings.ids.head?.or (document.behind? root parent) := by
        rw [wellFormed.behind?_of_child child (Ne.symm outside.1),
          (wellFormed.arranged.child row).2.2, Forest.head?_ids]
      have within : document.children label.1 = [] ++ children.rootIds := below
      have onward : document.children parent = (beside ++ [label.1]) ++ siblings.rootIds := by
        rw [row, List.append_assoc]
        rfl
      refine ⟨?_, leadsThrough_append.2 ⟨?_, ?_⟩⟩
      · rw [following?_eq, next, wellFormed.arranged.firstChild, below, ← Forest.head?_ids,
          List.head?_append, Option.or_assoc]
      · rw [← next]
        exact childrenHypothesis inside within outside.2.1
      · exact siblingsHypothesis after onward outside.2.2

/-- Below a root, one node follows the other in document order. -/
theorem WellFormed.following?_of_descendants (wellFormed : document.WellFormed)
    (split : document.descendants root = earlier ++ id :: later) :
    document.following? root id = later.head? := by
  have hasBelow := wellFormed.hasBelow_below root
  have row : document.children root = [] ++ (document.below root).rootIds := hasBelow.row
  have leads := wellFormed.leadsThrough_ids hasBelow.grows row
    (wellFormed.not_mem_descendants_self root)
  have ids : (document.below root).ids = earlier ++ id :: later := split
  rw [ids, behind?_root] at leads
  rw [(leadsThrough_append.1 leads).2.1, Option.or_none]

theorem WellFormed.firstChild?_eq (wellFormed : document.WellFormed) (root : NodeId) :
    document.firstChild? root = (document.descendants root).head? := by
  have hasBelow := wellFormed.hasBelow_below root
  rw [wellFormed.arranged.firstChild, hasBelow.row, ← Forest.head?_ids]
  rfl

/-- From any node on, the first element or text that follows is the first one in the list. -/
theorem WellFormed.firstVisible?_eq (wellFormed : document.WellFormed)
    (split : document.descendants root = earlier ++ later) :
    document.firstVisible? root later.head? = later.find? document.isVisible := by
  have bound := wellFormed.length_descendants_le root
  rw [split, List.length_append] at bound
  rw [firstVisible?, findAlong_eq, follow_eq_of_linked ?_ (by omega)]
  intro id before after shape
  rw [shape, ← List.append_assoc] at split
  exact wellFormed.following?_of_descendants split

/-! ## Walkers -/

/-- The elements and texts below a root, in document order. -/
def visibleBelow (document : Document) (root : NodeId) : List NodeId :=
  (document.descendants root).filter document.isVisible

end Document

namespace Walker

variable {document : Document} {walker : Walker} {id : NodeId} {later : List NodeId}

/-- The walker has come so far that the nodes are before it. -/
structure HasBefore (document : Document) (walker : Walker) (later : List NodeId) : Prop where
  split : ∃ earlier, document.descendants walker.root = earlier ++ later
  upcoming : walker.upcoming = later.find? document.isVisible

theorem hasBefore_start (wellFormed : document.WellFormed) (root : NodeId) :
    (start document root).HasBefore document (document.descendants root) where
  split := ⟨[], rfl⟩
  upcoming := by
    have whole : document.descendants root = [] ++ document.descendants root := rfl
    rw [start, wellFormed.firstChild?_eq]
    exact wellFormed.firstVisible?_eq whole

/-- A step gives out the first element or text before the walker, and leads behind it. -/
theorem HasBefore.advance (hasBefore : walker.HasBefore document later)
    (wellFormed : document.WellFormed) (given : walker.upcoming = some id) :
    ∃ passed rest, later = passed ++ id :: rest ∧
      (∀ other ∈ passed, document.isVisible other = false) ∧
      later.filter document.isVisible = id :: rest.filter document.isVisible ∧
      (walker.advance document).HasBefore document rest := by
  obtain ⟨⟨earlier, split⟩, upcoming⟩ := hasBefore
  rw [given] at upcoming
  obtain ⟨visible, passed, rest, rfl, hidden⟩ := List.find?_eq_some_iff_append.1 upcoming.symm
  have unseen : ∀ other ∈ passed, document.isVisible other = false := fun other member => by
    simpa using hidden other member
  have noneVisible : passed.filter document.isVisible = [] :=
    List.filter_eq_nil_iff.2 fun other member => by simp [unseen other member]
  have behind : document.descendants walker.root = (earlier ++ (passed ++ [id])) ++ rest := by
    rw [split]
    simp
  refine ⟨passed, rest, rfl, unseen, ?_, ⟨earlier ++ (passed ++ [id]), ?_⟩, ?_⟩
  · rw [List.filter_append, noneVisible, List.filter_cons_of_pos visible, List.nil_append]
  · rw [Walker.advance, given]
    exact behind
  · rw [← List.append_assoc] at split
    rw [Walker.advance, given]
    simp only
    rw [wellFormed.following?_of_descendants split]
    exact wellFormed.firstVisible?_eq behind

theorem HasBefore.visit_eq (hasBefore : walker.HasBefore document later)
    (wellFormed : document.WellFormed) (steps : Nat) :
    walker.visit document steps = (later.filter document.isVisible).take steps := by
  induction steps generalizing walker later with
  | zero => rw [visit, List.take_zero]
  | succ steps inductionHypothesis =>
      cases given : walker.upcoming with
      | none =>
          have noneVisible : later.filter document.isVisible = [] := by
            have ended := hasBefore.upcoming
            rw [given] at ended
            exact List.filter_eq_nil_iff.2 (List.find?_eq_none.1 ended.symm)
          rw [visit, given, noneVisible, List.take_nil]
      | some id =>
          obtain ⟨passed, rest, _, _, visible, onward⟩ := hasBefore.advance wellFormed given
          rw [visit, given, visible, List.take_succ_cons]
          exact congrArg (id :: ·) (inductionHypothesis onward)

end Walker

/-- A walk gives out the elements and texts below its root, in document order. -/
theorem Document.WellFormed.walk_eq {document : Document} (wellFormed : document.WellFormed)
    (root : NodeId) : document.walk root = document.visibleBelow root := by
  have bound := wellFormed.length_descendants_le root
  have few := List.length_filter_le document.isVisible (document.descendants root)
  rw [walk, (Walker.hasBefore_start wellFormed root).visit_eq wellFormed, visibleBelow,
    List.take_of_length_le (by omega)]

end MarkupTemplate
