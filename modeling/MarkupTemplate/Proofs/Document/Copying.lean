import Mathlib.Data.Set.Function
import MarkupTemplate.Proofs.Reachable

/-!
# Copies under new names

Copying a tree gives every node of it a new name, and the copy is the tree under these names: what
a node is stays the same, and each of its links leads to the copy of where it led.  The new names
are the numbers from the size of the document on, in the order in which the nodes stand in the
tree.  It makes no difference whether the copies are planted tree by tree, or whether the nodes
wait on a stack, each with the parent of its copy.
-/

namespace MarkupTemplate

open Relation

/-! ## Other names for the nodes of a forest -/

namespace Forest

/-- The forest with other names for its nodes. -/
def rename (name : NodeId → NodeId) (forest : Forest (NodeId × Content)) :
    Forest (NodeId × Content) :=
  forest.map fun label => (name label.1, label.2)

variable {name : NodeId → NodeId} {document renamed : Document}
  {forest : Forest (NodeId × Content)}

@[simp]
theorem rootIds_rename : (forest.rename name).rootIds = forest.rootIds.map name := by
  induction forest with
  | empty => rfl
  | plant label children siblings _ siblingsHypothesis =>
      exact congrArg (name label.1 :: ·) siblingsHypothesis

theorem length_labels_contents : forest.contents.labels.length = forest.ids.length := by
  rw [contents, ids, labels_map, List.length_map, List.length_map]

/-- Numbering a forest is renaming it, when the new names are the numbers in document order. -/
theorem numbered_contents_eq_rename {start : Nat}
    (names : forest.ids.map name = List.range' start forest.ids.length) :
    forest.contents.numbered start = forest.rename name := by
  induction forest generalizing start with
  | empty => rfl
  | plant label children siblings childrenHypothesis siblingsHypothesis =>
      rw [ids_plant, List.length_cons, List.length_append, List.range'_succ, List.map_cons,
        List.map_append, List.cons.injEq, ← List.range'_append_1] at names
      obtain ⟨first, others⟩ := names
      obtain ⟨inside, beside⟩ := List.append_inj others (by simp)
      rw [contents_plant, numbered, childrenHypothesis inside, length_labels_contents,
        siblingsHypothesis beside, ← first]
      rfl

/-- Numbered nodes stand in the order of their numbers. -/
theorem ids_numbered (start : Nat) (forest : Forest Content) :
    (forest.numbered start).ids = List.range' start forest.labels.length := by
  induction forest generalizing start with
  | empty => rfl
  | plant content children siblings childrenHypothesis siblingsHypothesis =>
      rw [numbered, ids_plant, childrenHypothesis, siblingsHypothesis, labels, List.length_cons,
        List.length_append, List.range'_succ, List.range'_append_1]

theorem rootIds_subset_ids : forest.rootIds ⊆ forest.ids := by
  induction forest with
  | empty => exact List.Subset.refl _
  | plant label children siblings _ siblingsHypothesis =>
      rw [rootIds_plant, ids_plant]
      exact List.cons_subset_cons _
        (List.Subset.trans siblingsHypothesis (List.subset_append_right _ _))

/-- Whatever stands below a node of a growing forest stands in the forest. -/
theorem GrowsIn.children_subset (grows : forest.GrowsIn document) {id : NodeId}
    (member : id ∈ forest.ids) : document.children id ⊆ forest.ids := by
  induction forest with
  | empty => simp at member
  | plant label children siblings childrenHypothesis siblingsHypothesis =>
      obtain ⟨_, row, inside, beside⟩ := grows
      rw [ids_plant] at member ⊢
      refine List.subset_cons_of_subset _ ?_
      rcases List.mem_cons.1 member with rfl | others
      · rw [row]
        exact List.Subset.trans rootIds_subset_ids (List.subset_append_left _ _)
      · rcases List.mem_append.1 others with below | after
        · exact List.Subset.trans (childrenHypothesis inside below) (List.subset_append_left _ _)
        · exact List.Subset.trans (siblingsHypothesis beside after) (List.subset_append_right _ _)

/-- Where a forest grows under other names, its nodes carry the same and have the same children
under their new names. -/
theorem GrowsIn.same_of_rename (grows : forest.GrowsIn document)
    (copied : (forest.rename name).GrowsIn renamed) {id : NodeId} (member : id ∈ forest.ids) :
    renamed.content? (name id) = document.content? id ∧
      renamed.children (name id) = (document.children id).map name := by
  induction forest with
  | empty => simp at member
  | plant label children siblings childrenHypothesis siblingsHypothesis =>
      obtain ⟨carried, row, inside, beside⟩ := grows
      obtain ⟨copiedCarried, copiedRow, copiedInside, copiedBeside⟩ := copied
      rw [ids_plant, List.mem_cons, List.mem_append] at member
      rcases member with rfl | below | after
      · refine ⟨copiedCarried.trans carried.symm, ?_⟩
        rw [row, ← rootIds_rename]
        exact copiedRow
      · exact childrenHypothesis inside copiedInside below
      · exact siblingsHypothesis beside copiedBeside after

end Forest

/-! ## Nodes -/

namespace Node

/-- The node with its links led to other names. -/
def rename (name : NodeId → NodeId) (node : Node) : Node where
  content := node.content
  parent := node.parent.map name
  firstChild := node.firstChild.map name
  lastChild := node.lastChild.map name
  prevSibling := node.prevSibling.map name
  nextSibling := node.nextSibling.map name

/-- The node without a place. -/
def uprooted (node : Node) : Node :=
  { node with parent := none, prevSibling := none, nextSibling := none }

end Node

namespace Document

variable {document source copied : Document} {root id : NodeId} {name : NodeId → NodeId}

/-- A node is what it carries and where its links lead. -/
theorem node?_of_content? {content : Content} (carried : document.content? id = some content) :
    document.node? id = some
      { content
        parent := document.parent? id
        firstChild := document.firstChild? id
        lastChild := document.lastChild? id
        prevSibling := document.prevSibling? id
        nextSibling := document.nextSibling? id } := by
  obtain ⟨node, found, rfl⟩ := Option.map_eq_some_iff.1 carried
  simp only [parent?, firstChild?, lastChild?, prevSibling?, nextSibling?, found, Option.bind_some]

/-! ## Trees under other names -/

/-- The nodes of the tree below the root stand in another document under other names. -/
structure Renames (source copied : Document) (root : NodeId) (name : NodeId → NodeId) : Prop where
  content? : ∀ {id}, ReflTransGen source.IsChild id root →
    copied.content? (name id) = source.content? id
  children : ∀ {id}, ReflTransGen source.IsChild id root →
    copied.children (name id) = (source.children id).map name

namespace Renames

/-- A node below the root is linked as in the source. -/
theorem node?_of_below (renames : Renames source copied root name)
    (sourceFormed : source.WellFormed) (copiedFormed : copied.WellFormed)
    (below : TransGen source.IsChild id root) :
    copied.node? (name id) = (source.node? id).map (Node.rename name) := by
  obtain ⟨parent, child, above⟩ := TransGen.head'_iff.1 below
  have member := sourceFormed.arranged.isChild_iff.1 child
  obtain ⟨content, carried⟩ := exists_content_of_lt (sourceFormed.arranged.lt_size_of_mem member)
  obtain ⟨earlier, later, row⟩ := List.append_of_mem member
  -- The node and its copy stand in rows that differ in the names only, so their neighbours agree.
  have copiedRow := renames.children above
  rw [row, List.map_append, List.map_cons] at copiedRow
  obtain ⟨up, prev, next⟩ := sourceFormed.arranged.child row
  obtain ⟨copiedUp, copiedPrev, copiedNext⟩ := copiedFormed.arranged.child copiedRow
  have own := renames.children below.to_reflTransGen
  rw [node?_of_content? carried,
    node?_of_content? ((renames.content? below.to_reflTransGen).trans carried), copiedUp,
    copiedPrev, copiedNext, copiedFormed.arranged.firstChild, copiedFormed.arranged.lastChild, own,
    up, prev, next, sourceFormed.arranged.firstChild, sourceFormed.arranged.lastChild,
    List.getLast?_map, List.head?_map, List.head?_map, List.getLast?_map]
  rfl

/-- A root without a place is linked to its children as in the source. -/
theorem node?_root (renames : Renames source copied root name) (sourceFormed : source.WellFormed)
    (copiedFormed : copied.WellFormed) (orphan : copied.parent? (name root) = none) :
    copied.node? (name root) = (source.node? root).map fun node =>
      (node.rename name).uprooted := by
  have same : copied.content? (name root) = source.content? root := renames.content? .refl
  have own : copied.children (name root) = (source.children root).map name :=
    renames.children .refl
  obtain ⟨up, prev, next⟩ := copiedFormed.arranged.orphan fun parent member => by
    rw [copiedFormed.arranged.parent?_eq_some_iff.2 member] at orphan
    contradiction
  cases carried : source.content? root with
  | none =>
      rw [carried] at same
      rw [Option.map_eq_none_iff.1 same, Option.map_eq_none_iff.1 carried]
      rfl
  | some content =>
      rw [node?_of_content? carried, node?_of_content? (same.trans carried), up, prev, next,
        copiedFormed.arranged.firstChild, copiedFormed.arranged.lastChild, own,
        sourceFormed.arranged.firstChild, sourceFormed.arranged.lastChild, List.head?_map,
        List.getLast?_map]
      rfl

end Renames

/-! ## The names that a copy gives -/

/-- The node and everything below it, in document order. -/
def subtree (document : Document) (id : NodeId) : List NodeId :=
  id :: document.descendants id

/-- The name of a node's copy, when the tree at the root is copied into the document. -/
def nameOfCopy (document source : Document) (root id : NodeId) : NodeId :=
  document.size + (source.subtree root).idxOf id

@[simp]
theorem nameOfCopy_root (document source : Document) (root : NodeId) :
    document.nameOfCopy source root root = document.size := by
  simp [nameOfCopy, subtree]

namespace WellFormed

variable (wellFormed : source.WellFormed)

include wellFormed

theorem mem_descendants_iff : id ∈ source.descendants root ↔ TransGen source.IsChild id root := by
  have below := wellFormed.hasBelow_below root
  change id ∈ (source.below root).ids ↔ _
  constructor
  · exact (below.stands wellFormed).above
  · intro path
    induction path using TransGen.head_induction_on with
    | single child =>
        have member := wellFormed.arranged.isChild_iff.1 child
        rw [below.row] at member
        exact Forest.rootIds_subset_ids member
    | head child _ inside =>
        exact below.grows.children_subset inside (wellFormed.arranged.isChild_iff.1 child)

theorem mem_subtree_iff : id ∈ source.subtree root ↔ ReflTransGen source.IsChild id root := by
  rw [subtree, List.mem_cons, wellFormed.mem_descendants_iff, reflTransGen_iff_eq_or_transGen,
    eq_comm]

theorem nodup_subtree : (source.subtree root).Nodup := by
  refine List.nodup_cons.2 ⟨?_, (wellFormed.hasBelow_below root).nodup_ids wellFormed⟩
  rw [wellFormed.mem_descendants_iff]
  exact wellFormed.acyclic root

/-- The names of the copies are the numbers from the size of the document on. -/
theorem map_nameOfCopy (document : Document) (root : NodeId) :
    (source.subtree root).map (document.nameOfCopy source root) =
      List.range' document.size (source.subtree root).length := by
  refine List.ext_getElem (by simp) fun index within _ => ?_
  rw [List.length_map] at within
  rw [List.getElem_map, List.getElem_range', nameOfCopy, wellFormed.nodup_subtree.idxOf_getElem,
    Nat.one_mul]

end WellFormed

/-! ## Copied trees -/

theorem CopiedIn.node?_eq {content : Content} {forest : Forest Content}
    (copy : CopiedIn document copied root content forest) (wellFormed : document.WellFormed)
    (within : id < document.size) : copied.node? id = document.node? id := by
  refine wellFormed.node?_eq copy.wellFormed (copy.content? within) (copy.children within)
    (copy.mem_children within) ?_
  intro parent member
  exact copy.children (wellFormed.arranged.parent_lt_size_of_mem member)

/-- Copying creates the root and plants the trees below it. -/
theorem copyFrom_of_content? {content : Content} (carried : source.content? root = some content)
    (document : Document) :
    document.copyFrom source root = .ok
      ((document.create content).1.plant document.size (source.below root).contents,
        document.size) := by
  rw [copyFrom, carried]
  rfl

/-- A node of the source can be copied, with everything below it. -/
theorem WellFormed.exists_copy (wellFormed : document.WellFormed) (sourceFormed : source.WellFormed)
    {content : Content} (carried : source.content? root = some content) :
    ∃ copied, document.copyFrom source root = .ok (copied, document.size) ∧
      copied.size = document.size + (source.subtree root).length ∧
      CopiedIn document copied document.size content (source.below root).contents := by
  have made := copyFrom_of_content? carried document
  refine ⟨_, made, ?_, ?_⟩
  · rw [size_plant, size_create, Forest.length_labels_contents]
    exact Nat.add_right_comm _ _ _
  · obtain ⟨_, same, _, copy⟩ := copiedIn_of_copyFrom wellFormed sourceFormed made
    rw [carried, Option.some.injEq] at same
    exact same ▸ copy

/-- The copy of a tree is the tree under the names that the copy gives. -/
theorem CopiedIn.renames {content : Content}
    (copy : CopiedIn document copied document.size content (source.below root).contents)
    (sourceFormed : source.WellFormed) (carried : source.content? root = some content) :
    Renames source copied root (document.nameOfCopy source root) := by
  have below := sourceFormed.hasBelow_below root
  have names := sourceFormed.map_nameOfCopy document root
  rw [subtree, List.map_cons, List.length_cons, List.range'_succ, List.cons.injEq] at names
  have renamed := copy.hasBelow
  rw [Forest.numbered_contents_eq_rename names.2] at renamed
  have same : ∀ {id}, ReflTransGen source.IsChild id root →
      copied.content? (document.nameOfCopy source root id) = source.content? id ∧
        copied.children (document.nameOfCopy source root id) =
          (source.children id).map (document.nameOfCopy source root) := by
    intro id path
    rcases reflTransGen_iff_eq_or_transGen.1 path with rfl | strictly
    · rw [nameOfCopy_root, carried, below.row, ← Forest.rootIds_rename]
      exact ⟨copy.copied, renamed.row⟩
    · exact below.grows.same_of_rename renamed.grows (sourceFormed.mem_descendants_iff.2 strictly)
  exact ⟨fun path => (same path).1, fun path => (same path).2⟩

/-! ## Copying with a stack -/

/-- Push the children of a node on a stack, the last one first, each with the parent that its copy
will have. -/
def pushPending (source : Document) (id parent : NodeId) (stack : List (NodeId × NodeId)) :
    List (NodeId × NodeId) :=
  (source.chain source.prevSibling? (source.lastChild? id)).foldl
    (fun pushed child => (child, parent) :: pushed) stack

/-- Pop a node, create its copy as the last child of the parent that it waited with, and push its
children, until nothing is left on the stack.  There is no result if this takes more steps than the
limit. -/
def copyPending (source : Document) : Nat → Document → List (NodeId × NodeId) → Option Document
  | _, document, [] => some document
  | 0, _, _ :: _ => none
  | limit + 1, document, (id, parent) :: stack => do
      let content ← source.content? id
      let created := document.createIn parent content
      copyPending source limit created.1 (source.pushPending id created.2 stack)

/-- Copy a node and then, with a stack, everything below it. -/
def copyWithStack (document source : Document) (id : NodeId) : Option (Document × NodeId) := do
  let content ← source.content? id
  let created := document.create content
  let copied ← source.copyPending source.size created.1 (source.pushPending id created.2 [])
  return (copied, created.2)

theorem WellFormed.pushPending_eq (sourceFormed : source.WellFormed) (id parent : NodeId)
    (stack : List (NodeId × NodeId)) :
    source.pushPending id parent stack = (source.children id).map (·, parent) ++ stack := by
  rw [pushPending, sourceFormed.arranged.chain_prevSibling?_eq, List.foldl_reverse,
    List.foldr_cons_eq_append]

/-- A row of trees on top of the stack is planted before anything below it is popped. -/
theorem WellFormed.copyPending_append (sourceFormed : source.WellFormed)
    {forest : Forest (NodeId × Content)} (grows : forest.GrowsIn source) (document : Document)
    (parent : NodeId) (limit : Nat) (stack : List (NodeId × NodeId)) :
    source.copyPending (forest.ids.length + limit) document
        (forest.rootIds.map (·, parent) ++ stack) =
      source.copyPending limit (document.plant parent forest.contents) stack := by
  induction forest generalizing document parent limit stack with
  | empty => rw [Forest.ids_empty, List.length_nil, Nat.zero_add]; rfl
  | plant label children siblings childrenHypothesis siblingsHypothesis =>
      obtain ⟨carried, row, inside, beside⟩ := grows
      have steps : (Forest.plant label children siblings).ids.length + limit =
          children.ids.length + (siblings.ids.length + limit) + 1 := by
        rw [Forest.ids_plant, List.length_cons, List.length_append]
        omega
      rw [steps, Forest.rootIds_plant, List.map_cons, List.cons_append, copyPending, carried]
      simp only [bind, Option.bind_some]
      rw [sourceFormed.pushPending_eq, row, childrenHypothesis inside,
        siblingsHypothesis beside]
      rfl

/-- Copying with a stack comes to the same as planting the trees, and takes no more steps than the
source has nodes. -/
theorem WellFormed.copyFrom_eq_copyWithStack (sourceFormed : source.WellFormed)
    (document : Document) (root : NodeId) :
    document.copyFrom source root =
      match document.copyWithStack source root with
      | some copied => .ok copied
      | none => .error (.invalidNode root .notInSource) := by
  cases carried : source.content? root with
  | none => rw [copyFrom, copyWithStack, carried]; rfl
  | some content =>
      have below := sourceFormed.hasBelow_below root
      obtain ⟨spare, enough⟩ : ∃ spare, source.size = (source.below root).ids.length + spare := by
        have bound := below.length_labels_le sourceFormed
        rw [← List.length_map Prod.fst] at bound
        exact ⟨_, (Nat.add_sub_of_le bound).symm⟩
      have planted := sourceFormed.copyPending_append below.grows
        (document.create content).1 document.size spare []
      rw [← enough, ← below.row, ← sourceFormed.pushPending_eq, copyPending] at planted
      have created : (document.create content).2 = document.size := rfl
      rw [copyFrom_of_content? carried, copyWithStack, carried]
      simp only [bind, Option.bind_some, created, planted]
      rfl

/-! ## Copies in other documents -/

section Elsewhere

variable {large small : Document} {shift : Nat}

/-- From the number of the shift on, the large document holds what the small one does. -/
structure Holds (large small : Document) (shift : Nat) : Prop where
  size : large.size = small.size + shift
  node? : ∀ id, large.node? (id + shift) = (small.node? id).map (Node.rename (· + shift))

namespace Holds

theorem link (holds : large.Holds small shift) (link : Node → Option NodeId)
    (leads : ∀ node, link (node.rename (· + shift)) = (link node).map (· + shift)) (id : NodeId) :
    (large.node? (id + shift)).bind link = ((small.node? id).bind link).map (· + shift) := by
  rw [holds.node?]
  cases small.node? id with
  | none => rfl
  | some node => exact leads node

theorem create (holds : large.Holds small shift) (content : Content) :
    (large.create content).1.Holds (small.create content).1 shift := by
  refine ⟨by rw [size_create, size_create, holds.size]; omega, fun id => ?_⟩
  rw [node?_create, node?_create, holds.size, holds.node?]
  by_cases fresh : id = small.size
  · rw [if_pos (by rw [fresh]), if_pos fresh]
    rfl
  · rw [if_neg fun same => fresh (Nat.add_right_cancel same), if_neg fresh]

theorem createIn (holds : large.Holds small shift) (parent : NodeId) (content : Content) :
    (large.createIn (parent + shift) content).1.Holds (small.createIn parent content).1 shift := by
  refine ⟨by rw [size_createIn, size_createIn, holds.size]; omega, fun id => ?_⟩
  have created := holds.create content
  have last := created.link Node.lastChild (fun _ => rfl) parent
  have here : large.size = small.size + shift := holds.size
  rw [createIn_fst, createIn_fst, node?_attach, node?_attach, created.node?, preceding?, preceding?,
    lastChild?, last, here, ← lastChild?]
  cases (small.create content).1.node? id with
  | none => rfl
  | some node =>
      cases (small.create content).1.lastChild? parent <;>
        simp [Node.afterAttach, Node.rename, apply_ite (Option.map _)]

theorem plant (holds : large.Holds small shift) (parent : NodeId) (forest : Forest Content) :
    (large.plant (parent + shift) forest).Holds (small.plant parent forest) shift := by
  induction forest generalizing large small parent with
  | empty => exact holds
  | plant content children siblings childrenHypothesis siblingsHypothesis =>
      have created := holds.createIn parent content
      have inner := childrenHypothesis created small.size
      rw [← holds.size] at inner
      exact siblingsHypothesis inner parent

/-- What was found before the small limit is found in both. -/
theorem follow_shifted {link other : NodeId → Option NodeId}
    (leads : ∀ id, other (id + shift) = (link id).map (· + shift)) {limit larger : Nat}
    {start : Option NodeId} (ended : (follow link limit start).length < limit)
    (within : limit ≤ larger) :
    follow other larger (start.map (· + shift)) = (follow link limit start).map (· + shift) := by
  induction limit generalizing larger start with
  | zero => simp at ended
  | succ limit inductionHypothesis =>
      obtain ⟨larger, rfl⟩ :=
        Nat.exists_eq_add_one.2 (Nat.lt_of_lt_of_le limit.succ_pos within)
      cases start with
      | none => rfl
      | some id =>
          simp only [follow, List.length_cons, Nat.add_lt_add_iff_right] at ended
          rw [Option.map_some, follow, follow, List.map_cons, leads]
          exact congrArg (_ :: ·) (inductionHypothesis ended (Nat.le_of_succ_le_succ within))

theorem children (holds : large.Holds small shift) (wellFormed : small.WellFormed) (id : NodeId) :
    large.children (id + shift) = (small.children id).map (· + shift) := by
  have ended := wellFormed.arranged.length_le_size id
  have start := holds.link Node.firstChild (fun _ => rfl) id
  unfold Document.children chain at ended ⊢
  rw [firstChild?, start]
  refine follow_shifted (holds.link Node.nextSibling fun _ => rfl)
    (Nat.lt_succ_of_le ended) ?_
  rw [holds.size]
  omega

theorem content? (holds : large.Holds small shift) (id : NodeId) :
    large.content? (id + shift) = small.content? id := by
  rw [Document.content?, Document.content?, holds.node?, Option.map_map]
  rfl

end Holds

/-- In whatever document a tree is copied into, the copy is the tree under other names. -/
theorem exists_renames (sourceFormed : source.WellFormed) (document : Document)
    {content : Content} (carried : source.content? root = some content) :
    ∃ copied, document.copyFrom source root = .ok (copied, document.size) ∧
      Renames source copied root (document.nameOfCopy source root) := by
  -- The document need not be well-formed.  So the copy is first made alone, and then shifted to
  -- where it begins here.
  obtain ⟨small, made, size, copy⟩ := wellFormed_empty.exists_copy sourceFormed carried
  have renames := copy.renames sourceFormed carried
  rw [copyFrom_of_content? carried, Except.ok.injEq, Prod.mk.injEq] at made
  have holds : ((document.create content).1.plant document.size
      (source.below root).contents).Holds small document.size := by
    rw [← made.1]
    have start : document.Holds empty document.size := by
      refine ⟨(Nat.zero_add _).symm, fun id => ?_⟩
      have missing : document.node? (id + document.size) = none :=
        Array.getElem?_eq_none (Nat.le_add_left _ _)
      rw [missing]
      rfl
    have planted := (start.create content).plant empty.size (source.below root).contents
    rwa [← start.size] at planted
  have name : ∀ id, document.nameOfCopy source root id =
      empty.nameOfCopy source root id + document.size := by
    intro id
    rw [nameOfCopy, nameOfCopy, Nat.add_comm]
    exact congrArg (· + document.size) (Nat.zero_add _).symm
  refine ⟨_, copyFrom_of_content? carried document, fun path => ?_, fun path => ?_⟩
  · rw [name, holds.content?, renames.content? path]
  · rw [name, holds.children copy.wellFormed, renames.children path, List.map_map]
    exact List.map_congr_left fun child _ => (name child).symm

end Elsewhere

/-! ## Copying beside other trees -/

/-- The new document holds a copy of the source's tree at the root, beside all that the old one
held. -/
structure CopiesTree (old new source : Document) (root : NodeId) : Prop where
  kept : ∀ id, id < old.size → new.node? id = old.node? id
  size : new.size = old.size + (source.subtree root).length
  /-- The copies are numbered on in document order. -/
  names : (source.subtree root).map (old.nameOfCopy source root) =
    List.range' old.size (source.subtree root).length
  bijective : Set.BijOn (old.nameOfCopy source root)
    {id | ReflTransGen source.IsChild id root} {id | old.size ≤ id ∧ id < new.size}
  /-- The root's copy has no place, and the root's content and children. -/
  top : new.node? (old.nameOfCopy source root root) = (source.node? root).map fun node =>
    (node.rename (old.nameOfCopy source root)).uprooted
  /-- Every other copy carries what its node carries, and its links lead to the copies of where
  the node's links lead. -/
  below : ∀ id, TransGen source.IsChild id root →
    new.node? (old.nameOfCopy source root id) =
      (source.node? id).map (Node.rename (old.nameOfCopy source root))

theorem CopiedIn.copiesTree {content : Content}
    (copy : CopiedIn document copied document.size content (source.below root).contents)
    (size : copied.size = document.size + (source.subtree root).length)
    (wellFormed : document.WellFormed) (sourceFormed : source.WellFormed)
    (carried : source.content? root = some content) :
    CopiesTree document copied source root := by
  have renames := copy.renames sourceFormed carried
  have names := sourceFormed.map_nameOfCopy document root
  refine ⟨fun id within => copy.node?_eq wellFormed within, size, names, ?_, ?_, ?_⟩
  · have image : ∀ other, other ∈ (source.subtree root).map (document.nameOfCopy source root) ↔
        document.size ≤ other ∧ other < copied.size := by
      intro other
      rw [names, List.mem_range'_1, size]
    have distinct : ((source.subtree root).map (document.nameOfCopy source root)).Nodup := by
      rw [names]
      exact List.nodup_range'
    refine ⟨?_, ?_, ?_⟩
    · intro id path
      exact (image _).1 (List.mem_map_of_mem (sourceFormed.mem_subtree_iff.2 path))
    · intro first firstPath second secondPath same
      exact List.inj_on_of_nodup_map distinct (sourceFormed.mem_subtree_iff.2 firstPath)
        (sourceFormed.mem_subtree_iff.2 secondPath) same
    · intro other within
      obtain ⟨id, member, named⟩ := List.mem_map.1 ((image other).2 within)
      exact ⟨id, sourceFormed.mem_subtree_iff.1 member, named⟩
  · refine renames.node?_root sourceFormed copy.wellFormed ?_
    rw [nameOfCopy_root]
    exact copy.orphan
  · exact fun id path => renames.node?_of_below sourceFormed copy.wellFormed path

/-- Only a node of the source can be copied, and an attempt at another leaves the document as it
was.  The copy is the node's tree under new names, and nothing that was there before changes. -/
theorem copyFrom_copiesTree (wellFormed : document.WellFormed) (sourceFormed : source.WellFormed)
    (root : NodeId) :
    (source.node? root = none →
        document.copyFrom source root = .error (.invalidNode root .notInSource) ∧
          document.perform (.copyFrom source root) = document) ∧
      (source.node? root ≠ none →
        ∃ copied, document.copyFrom source root = .ok (copied, document.size) ∧
          document.perform (.copyFrom source root) = copied ∧
          CopiesTree document copied source root) := by
  constructor
  · intro missing
    have refused : document.copyFrom source root = .error (.invalidNode root .notInSource) := by
      rw [copyFrom, content?, missing]
      rfl
    exact ⟨refused, by rw [perform, refused]; rfl⟩
  · intro present
    obtain ⟨node, found⟩ := Option.ne_none_iff_exists'.1 present
    have carried : source.content? root = some node.content := by
      rw [content?, found]
      rfl
    obtain ⟨copied, made, size, copy⟩ := wellFormed.exists_copy sourceFormed carried
    exact ⟨copied, made, by rw [perform, made]; rfl,
      copy.copiesTree size wellFormed sourceFormed carried⟩

/-- A list of two items, copied next to a paragraph. -/
theorem copyFrom_copiesTree_of_list :
    let document := (Document.empty.parse false "<p>kept</p>").document
    let source := (Document.empty.parse false "<ul id=a><li>1</li><li>2<b>!</b></li></ul>").document
    source.subtree 1 = [1, 2, 3, 4, 5, 6, 7] ∧
      ∃ copied, document.copyFrom source 1 = .ok (copied, 3) ∧
        CopiesTree document copied source 1 := by
  intro document source
  have formed : ∀ markup, (Document.empty.parse false markup).document.WellFormed := fun markup =>
    (wellFormed_empty.copiedIn_parse false markup).wellFormed
  have size : document.size = 3 := by decide +kernel
  have present : source.node? 1 ≠ none := by decide +kernel
  obtain ⟨copied, made, _, copies⟩ :=
    (copyFrom_copiesTree (formed "<p>kept</p>") (formed _) 1).2 present
  exact ⟨by decide +kernel, copied, size ▸ made, copies⟩

end Document

end MarkupTemplate
