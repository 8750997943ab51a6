import MarkupTemplate.Proofs.Document.Ancestry
import MarkupTemplate.Proofs.Document.Placement

/-!
# Well-formed documents

A document is well formed when its links arrange the nodes in rows of children without cycles, when
only elements and fragments have children, when no fragment is a child, and when no element has
two attributes of one name.  Creating a node, moving it and taking it out of its place keep a
document well formed, and this module says what each of them makes of the rows of children.
-/

namespace MarkupTemplate

/-- No two attributes have the same name. -/
def Content.HasDistinctNames (content : Content) : Prop :=
  (content.attributes.map Attribute.name).Nodup

namespace Document

open Relation

structure WellFormed (document : Document) : Prop where
  arranged : document.Arranged document.children
  acyclic : document.Acyclic
  container : ∀ {id content}, document.content? id = some content →
    document.children id ≠ [] → content.mayHaveChildren = true
  fragment : ∀ {id}, document.content? id = some .fragment → document.parent? id = none
  distinct : ∀ {id content}, document.content? id = some content → content.HasDistinctNames

/-! ## What nodes are after an edit -/

theorem content?_eq_none_iff {document : Document} {id : NodeId} :
    document.content? id = none ↔ document.size ≤ id := by
  unfold content?
  rw [Option.map_eq_none_iff, ← not_iff_not, ← ne_eq, ← Option.isSome_iff_ne_none,
    node?_isSome_iff, Nat.not_le]

theorem lt_size_of_content? {document : Document} {id : NodeId} {content : Content}
    (present : document.content? id = some content) : id < document.size := by
  by_contra missing
  rw [content?_eq_none_iff.2 (Nat.le_of_not_lt missing)] at present
  contradiction

theorem exists_content_of_lt {document : Document} {id : NodeId}
    (within : id < document.size) : ∃ content, document.content? id = some content := by
  obtain ⟨node, found⟩ := exists_node_of_lt within
  exact ⟨node.content, by unfold content?; rw [found]; rfl⟩

/-- Documents with the same contents are of the same size. -/
theorem size_eq_of_content? {first second : Document}
    (same : ∀ id, first.content? id = second.content? id) : first.size = second.size := by
  refine Nat.le_antisymm (content?_eq_none_iff.1 ?_) (content?_eq_none_iff.1 ?_)
  · rw [same]
    exact content?_eq_none_iff.2 (Nat.le_refl _)
  · rw [← same]
    exact content?_eq_none_iff.2 (Nat.le_refl _)

@[simp]
theorem content?_create (document : Document) (content : Content) (id : NodeId) :
    (document.create content).1.content? id =
      if id = document.size then some content else document.content? id := by
  unfold content?
  rw [node?_create]
  split <;> rfl

@[simp]
theorem content?_setContent (document : Document) (id other : NodeId) (content : Content) :
    (document.setContent id content).content? other =
      if id = other ∧ other < document.size then some content else document.content? other := by
  unfold content? setContent
  rw [node?_update]
  by_cases same : id = other
  · subst same
    cases present : document.node? id with
    | none =>
        have missing : ¬ id < document.size := by simp [← node?_isSome_iff, present]
        simp [missing]
    | some node =>
        have within : id < document.size := by simp [← node?_isSome_iff, present]
        simp [within]
  · simp [same]

/-- What a node is already need not be changed. -/
theorem setContent_eq_self {document : Document} {id : NodeId} {content : Content}
    (present : document.content? id = some content) :
    document.setContent id content = document := by
  apply ext_node?
  intro other
  unfold setContent
  rw [node?_update]
  split
  · rename_i same
    subst same
    obtain ⟨node, found, rfl⟩ := Option.map_eq_some_iff.1 present
    rw [found]
    rfl
  · rfl

@[simp]
theorem content?_detach (document : Document) (id other : NodeId) :
    (document.detach id).content? other = document.content? other := by
  cases found : document.node? id with
  | none => simp only [detach, found]
  | some taken =>
      unfold content?
      rw [node?_detach found, Option.map_map]
      rfl

@[simp]
theorem content?_attach (document : Document) (parent : NodeId) (before : Option NodeId)
    (id other : NodeId) :
    (document.attach parent before id).content? other = document.content? other := by
  unfold content?
  rw [node?_attach, Option.map_map]
  rfl

@[simp]
theorem size_setFollower (document : Document) (parent previous follower : Option NodeId) :
    (document.setFollower parent previous follower).size = document.size := by
  unfold setFollower
  split <;> simp

@[simp]
theorem size_setPreceder (document : Document) (parent next preceder : Option NodeId) :
    (document.setPreceder parent next preceder).size = document.size := by
  unfold setPreceder
  split <;> simp

@[simp]
theorem size_detach (document : Document) (id : NodeId) :
    (document.detach id).size = document.size := by
  unfold detach
  split <;> simp

@[simp]
theorem size_attach (document : Document) (parent : NodeId) (before : Option NodeId)
    (id : NodeId) : (document.attach parent before id).size = document.size := by
  simp [attach]

@[simp]
theorem content?_move (document : Document) (parent : NodeId) (before : Option NodeId)
    (id other : NodeId) :
    (document.move parent before id).content? other = document.content? other := by
  simp [move]

@[simp]
theorem size_move (document : Document) (parent : NodeId) (before : Option NodeId)
    (id : NodeId) : (document.move parent before id).size = document.size := by
  simp [move]

@[simp]
theorem size_setContent (document : Document) (id : NodeId) (content : Content) :
    (document.setContent id content).size = document.size :=
  size_update document id _

/-! ## Documents with the same links -/

/-- The two documents have the same links. -/
structure SameLinks (left right : Document) : Prop where
  parent : ∀ id, left.parent? id = right.parent? id
  firstChild : ∀ id, left.firstChild? id = right.firstChild? id
  lastChild : ∀ id, left.lastChild? id = right.lastChild? id
  prevSibling : ∀ id, left.prevSibling? id = right.prevSibling? id
  nextSibling : ∀ id, left.nextSibling? id = right.nextSibling? id

theorem Arranged.of_sameLinks {left right : Document} {kids : NodeId → List NodeId}
    (arranged : right.Arranged kids) (same : SameLinks left right) : left.Arranged kids where
  firstChild id := (same.firstChild id).trans (arranged.firstChild id)
  lastChild id := (same.lastChild id).trans (arranged.lastChild id)
  child shape := by
    rw [same.parent, same.prevSibling, same.nextSibling]
    exact arranged.child shape
  orphan outside := by
    rw [same.parent, same.prevSibling, same.nextSibling]
    exact arranged.orphan outside
  nodup := arranged.nodup

theorem Acyclic.of_sameLinks {left right : Document} (acyclic : right.Acyclic)
    (same : SameLinks left right) : left.Acyclic := by
  intro id cycle
  refine acyclic id (TransGen.mono ?_ id id cycle)
  intro lower upper child
  unfold IsChild at child ⊢
  rwa [← same.parent]

theorem sameLinks_update (document : Document) (id : NodeId) (change : Node → Node)
    (keeps : ∀ node : Node, ∃ content, change node = { node with content }) :
    SameLinks (document.update id change) document := by
  have field : ∀ {link : Node → Option NodeId} (other : NodeId),
      (∀ (node : Node) (content : Content), link { node with content } = link node) →
        ((document.update id change).node? other).bind link =
          (document.node? other).bind link := by
    intro link other ignores
    rw [node?_update]
    split
    · cases document.node? other with
      | none => rfl
      | some node =>
          obtain ⟨content, same⟩ := keeps node
          simp [same, ignores]
    · rfl
  exact ⟨fun other => field other fun _ _ => rfl, fun other => field other fun _ _ => rfl,
    fun other => field other fun _ _ => rfl, fun other => field other fun _ _ => rfl,
    fun other => field other fun _ _ => rfl⟩

theorem sameLinks_create (document : Document) (content : Content) :
    SameLinks (document.create content).1 document := by
  have field : ∀ {link : Node → Option NodeId} (id : NodeId), link { content } = none →
      ((document.create content).1.node? id).bind link = (document.node? id).bind link := by
    intro link id empty
    rw [node?_create]
    split
    · rename_i fresh
      have missing : document.node? id = none := Array.getElem?_eq_none (Nat.le_of_eq fresh.symm)
      simp [missing, empty]
    · rfl
  exact ⟨fun id => field id rfl, fun id => field id rfl, fun id => field id rfl,
    fun id => field id rfl, fun id => field id rfl⟩

namespace Arranged

variable {document : Document} {kids : NodeId → List NodeId}

theorem children_eq_kids (arranged : document.Arranged kids) : document.children = kids :=
  funext arranged.children_eq

theorem children_of_missing (arranged : document.Arranged kids) {id : NodeId}
    (missing : document.size ≤ id) : kids id = [] := by
  by_contra nonempty
  obtain ⟨child, rest, shape⟩ := List.exists_cons_of_ne_nil nonempty
  have member : child ∈ kids id := by
    rw [shape]
    exact List.mem_cons_self
  exact absurd (arranged.parent_lt_size_of_mem member) (Nat.not_lt_of_le missing)

end Arranged

end Document

end MarkupTemplate
