import Mathlib.Data.List.Nodup
import Mathlib.Data.List.Perm.Subperm
import MarkupTemplate.Document.Edit

/-!
# Links as lists of children

The five links of every node say the same thing several times over.  This module reads them as one
thing: a list of children for every node.  A document is arranged by such lists when its links are
exactly those that the lists prescribe, and then the lists are what following the links finds.
-/

namespace MarkupTemplate.Document

/-! ## Nodes -/

theorem node?_isSome_iff {document : Document} {id : NodeId} :
    (document.node? id).isSome ↔ id < document.size := by
  simp [node?, size]

theorem exists_node_of_lt {document : Document} {id : NodeId} (within : id < document.size) :
    ∃ node, document.node? id = some node :=
  Option.isSome_iff_exists.1 (node?_isSome_iff.2 within)

theorem ext_node? {left right : Document} (same : ∀ id, left.node? id = right.node? id) :
    left = right := by
  obtain ⟨leftNodes⟩ := left
  obtain ⟨rightNodes⟩ := right
  exact congrArg Document.mk (Array.ext_getElem? same)

/-! ## Documents arranged by lists of children -/

/-- The links of the document are those that the lists of children prescribe. -/
structure Arranged (document : Document) (kids : NodeId → List NodeId) : Prop where
  firstChild : ∀ id, document.firstChild? id = (kids id).head?
  lastChild : ∀ id, document.lastChild? id = (kids id).getLast?
  child : ∀ {parent id earlier later}, kids parent = earlier ++ id :: later →
    document.parent? id = some parent ∧ document.prevSibling? id = earlier.getLast? ∧
      document.nextSibling? id = later.head?
  orphan : ∀ {id}, (∀ parent, id ∉ kids parent) →
    document.parent? id = none ∧ document.prevSibling? id = none ∧
      document.nextSibling? id = none
  nodup : ∀ id, (kids id).Nodup

namespace Arranged

variable {document : Document} {kids : NodeId → List NodeId}

theorem parent?_eq_some_iff (arranged : Arranged document kids) {id parent : NodeId} :
    document.parent? id = some parent ↔ id ∈ kids parent := by
  constructor
  · intro above
    by_contra absent
    by_cases somewhere : ∃ other, id ∈ kids other
    · obtain ⟨other, member⟩ := somewhere
      obtain ⟨earlier, later, shape⟩ := List.append_of_mem member
      have same := (arranged.child shape).1
      rw [above, Option.some.injEq] at same
      exact absent (same ▸ member)
    · have nowhere : ∀ other, id ∉ kids other := fun other member => somewhere ⟨other, member⟩
      rw [(arranged.orphan nowhere).1] at above
      contradiction
  · intro member
    obtain ⟨earlier, later, shape⟩ := List.append_of_mem member
    exact (arranged.child shape).1

theorem eq_of_mem (arranged : Arranged document kids) {id left right : NodeId}
    (inLeft : id ∈ kids left) (inRight : id ∈ kids right) : left = right := by
  have first := arranged.parent?_eq_some_iff.2 inLeft
  rw [arranged.parent?_eq_some_iff.2 inRight] at first
  exact (Option.some.inj first).symm

theorem lt_size_of_mem (arranged : Arranged document kids) {id parent : NodeId}
    (member : id ∈ kids parent) : id < document.size := by
  have above := arranged.parent?_eq_some_iff.2 member
  by_contra outside
  have missing : document.node? id = none := Array.getElem?_eq_none (Nat.le_of_not_lt outside)
  simp [parent?, missing] at above

theorem parent_lt_size_of_mem (arranged : Arranged document kids) {id parent : NodeId}
    (member : id ∈ kids parent) : parent < document.size := by
  by_contra outside
  have missing : document.node? parent = none :=
    Array.getElem?_eq_none (Nat.le_of_not_lt outside)
  have none_first := arranged.firstChild parent
  simp only [firstChild?, missing, Option.bind_none] at none_first
  rw [List.head?_eq_none_iff.1 none_first.symm] at member
  contradiction

theorem length_le_size (arranged : Arranged document kids) (id : NodeId) :
    (kids id).length ≤ document.size := by
  have within : kids id ⊆ List.range document.size := by
    intro child member
    exact List.mem_range.2 (arranged.lt_size_of_mem member)
  have bound := ((arranged.nodup id).subperm within).length_le
  rwa [List.length_range] at bound

end Arranged

/-! ## Following links -/

/-- Following a link along a list in which each member is linked to the next finds the list. -/
theorem follow_eq_of_linked {link : NodeId → Option NodeId} {limit : Nat} {ids : List NodeId}
    (linked : ∀ id earlier later, ids = earlier ++ id :: later → link id = later.head?)
    (within : ids.length ≤ limit) :
    follow link limit ids.head? = ids := by
  induction ids generalizing limit with
  | nil => cases limit <;> rfl
  | cons id rest inductionHypothesis =>
    cases limit with
    | zero => simp at within
    | succ limit =>
      have next : link id = rest.head? := linked id [] rest rfl
      have onward : follow link limit rest.head? = rest := by
        apply inductionHypothesis
        · intro other earlier later shape
          exact linked other (id :: earlier) later (by rw [shape]; rfl)
        · simpa using within
      simp only [List.head?_cons, follow, next, onward]

namespace Arranged

variable {document : Document} {kids : NodeId → List NodeId}

theorem children_eq (arranged : Arranged document kids) (id : NodeId) :
    document.children id = kids id := by
  have bound := arranged.length_le_size id
  unfold children chain
  rw [arranged.firstChild id]
  exact follow_eq_of_linked (fun _ _ _ shape => (arranged.child shape).2.2) (by omega)

/-- Followed backward from the last child, the links find the children in reverse. -/
theorem chain_prevSibling?_eq (arranged : Arranged document kids) (id : NodeId) :
    document.chain document.prevSibling? (document.lastChild? id) = (kids id).reverse := by
  have bound := arranged.length_le_size id
  unfold chain
  rw [arranged.lastChild, ← List.head?_reverse]
  refine follow_eq_of_linked ?_ (by rw [List.length_reverse]; omega)
  intro other after before split
  have straight : kids id = before.reverse ++ other :: after.reverse := by
    have flipped := congrArg List.reverse split
    simpa using flipped
  rw [(arranged.child straight).2.1, List.getLast?_reverse]

theorem earlierSiblings_eq (arranged : Arranged document kids) {id parent : NodeId}
    {earlier later : List NodeId} (shape : kids parent = earlier ++ id :: later) :
    document.earlierSiblings id = earlier.reverse := by
  have bound := arranged.length_le_size parent
  rw [shape, List.length_append, List.length_cons] at bound
  unfold earlierSiblings chain
  rw [(arranged.child shape).2.1, ← List.head?_reverse]
  refine follow_eq_of_linked ?_ (by rw [List.length_reverse]; omega)
  intro other after before split
  have straight : earlier = before.reverse ++ other :: after.reverse := by
    have flipped := congrArg List.reverse split
    simpa using flipped
  have place : kids parent = before.reverse ++ other :: (after.reverse ++ id :: later) := by
    rw [shape, straight]
    simp
  rw [(arranged.child place).2.1, List.getLast?_reverse]

theorem laterSiblings_eq (arranged : Arranged document kids) {id parent : NodeId}
    {earlier later : List NodeId} (shape : kids parent = earlier ++ id :: later) :
    document.laterSiblings id = later := by
  have bound := arranged.length_le_size parent
  rw [shape, List.length_append, List.length_cons] at bound
  unfold laterSiblings chain
  rw [(arranged.child shape).2.2]
  refine follow_eq_of_linked ?_ (by omega)
  intro other before after split
  have place : kids parent = (earlier ++ id :: before) ++ other :: after := by
    rw [shape, split]
    simp
  exact (arranged.child place).2.2

theorem lt_size_of_linked (arranged : Arranged document kids) {id other : NodeId}
    (linked : document.parent? id = some other ∨ document.firstChild? id = some other ∨
      document.lastChild? id = some other ∨ document.prevSibling? id = some other ∨
      document.nextSibling? id = some other) : other < document.size := by
  rcases linked with above | first | last | beside
  · exact arranged.parent_lt_size_of_mem (arranged.parent?_eq_some_iff.1 above)
  · rw [arranged.firstChild] at first
    exact arranged.lt_size_of_mem (List.mem_of_mem_head? first)
  · rw [arranged.lastChild] at last
    exact arranged.lt_size_of_mem (List.mem_of_mem_getLast? last)
  · by_cases placed : ∃ parent, id ∈ kids parent
    · obtain ⟨parent, member⟩ := placed
      obtain ⟨earlier, later, shape⟩ := List.append_of_mem member
      obtain ⟨_, prev, next⟩ := arranged.child shape
      rw [prev, next] at beside
      have sibling : other ∈ kids parent := by
        rw [shape]
        rcases beside with inEarlier | inLater
        · exact List.mem_append_left _ (List.mem_of_mem_getLast? inEarlier)
        · exact List.mem_append_right _ (List.mem_cons_of_mem _ (List.mem_of_mem_head? inLater))
      exact arranged.lt_size_of_mem sibling
    · obtain ⟨_, prev, next⟩ := arranged.orphan fun parent member => placed ⟨parent, member⟩
      rw [prev, next] at beside
      simp at beside

end Arranged

end MarkupTemplate.Document
