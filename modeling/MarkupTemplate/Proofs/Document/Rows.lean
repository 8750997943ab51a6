import MarkupTemplate.Proofs.Document.WellFormed

/-!
# Rows of children under edits

What creating a node, changing what it is, moving it and taking it out of its place make of the
rows of children, and that each of them keeps a document well formed.
-/

namespace MarkupTemplate.Document

open Relation

/-! ## The rows after an edit -/

namespace Arranged

variable {document : Document} {kids : NodeId → List NodeId}

theorem create (arranged : document.Arranged kids) (content : Content) :
    (document.create content).1.Arranged kids :=
  arranged.of_sameLinks (sameLinks_create document content)

theorem setContent (arranged : document.Arranged kids) (id : NodeId) (content : Content) :
    (document.setContent id content).Arranged kids :=
  arranged.of_sameLinks (sameLinks_update document id _ fun _ => ⟨content, rfl⟩)

theorem move (arranged : document.Arranged kids) {parent id : NodeId}
    {earlier later : List NodeId} (shape : (kids parent).erase id = earlier ++ later)
    (container : parent < document.size) (present : id < document.size) :
    (document.move parent later.head? id).Arranged
      (Function.update (fun other => (kids other).erase id) parent (earlier ++ id :: later)) := by
  have taken := arranged.detach id
  refine taken.attach shape ?_ ?_ ?_
  · rwa [size_detach]
  · rwa [size_detach]
  · intro other
    exact (arranged.nodup other).not_mem_erase

theorem not_mem_of_missing (arranged : document.Arranged kids) {id : NodeId}
    (missing : document.size ≤ id) (parent : NodeId) : id ∉ kids parent :=
  fun member => absurd (arranged.lt_size_of_mem member) (Nat.not_lt_of_le missing)

theorem isChild_iff (arranged : document.Arranged kids) {lower upper : NodeId} :
    document.IsChild lower upper ↔ lower ∈ kids upper :=
  arranged.parent?_eq_some_iff

theorem acyclic_of_subset {before : Document} {oldKids : NodeId → List NodeId}
    (arranged : document.Arranged kids) (old : before.Arranged oldKids) (acyclic : before.Acyclic)
    (subset : ∀ parent, kids parent ⊆ oldKids parent) : document.Acyclic := by
  intro id cycle
  refine acyclic id (TransGen.mono ?_ id id cycle)
  intro lower upper child
  exact old.isChild_iff.2 (subset upper (arranged.isChild_iff.1 child))

end Arranged

/-! ## Well-formed documents stay well formed -/

theorem wellFormed_empty : WellFormed empty := by
  have arranged : empty.Arranged fun _ => [] := by
    constructor <;> simp [empty, firstChild?, lastChild?, parent?, prevSibling?, nextSibling?,
      node?]
  have absent : ∀ id, empty.content? id = none := by
    intro id
    simp [empty, content?, node?]
  constructor
  · rwa [arranged.children_eq_kids]
  · intro id cycle
    obtain ⟨upper, child, _⟩ := TransGen.head'_iff.1 cycle
    simp [IsChild, parent?, node?, empty] at child
  · intro id content present
    rw [absent] at present
    contradiction
  · intro id present
    rw [absent] at present
    contradiction
  · intro id content present
    rw [absent] at present
    contradiction

namespace WellFormed

variable {document : Document}

/-- The parts of well-formedness, said of any lists that arrange the document. -/
theorem of_arranged {kids : NodeId → List NodeId} (arranged : document.Arranged kids)
    (acyclic : document.Acyclic)
    (container : ∀ {id content}, document.content? id = some content →
      kids id ≠ [] → content.mayHaveChildren = true)
    (fragment : ∀ {id parent}, document.content? id = some .fragment → id ∉ kids parent)
    (distinct : ∀ {id content}, document.content? id = some content →
      content.HasDistinctNames) :
    WellFormed document := by
  constructor
  · rwa [arranged.children_eq_kids]
  · exact acyclic
  · rwa [arranged.children_eq_kids]
  · intro id present
    exact (arranged.orphan fun parent => fragment present).1
  · exact distinct

theorem fragment_not_mem (wellFormed : WellFormed document) {id : NodeId}
    (fragment : document.content? id = some .fragment) (parent : NodeId) :
    id ∉ document.children parent := by
  intro member
  have above := wellFormed.arranged.parent?_eq_some_iff.2 member
  rw [wellFormed.fragment fragment] at above
  contradiction

/-! ### Creating nodes -/

theorem children_create (wellFormed : WellFormed document) (content : Content) :
    (document.create content).1.children = document.children :=
  (wellFormed.arranged.create content).children_eq_kids

theorem create (wellFormed : WellFormed document) {content : Content}
    (distinct : content.HasDistinctNames) : WellFormed (document.create content).1 := by
  have arranged := wellFormed.arranged.create content
  refine of_arranged arranged ?_ ?_ ?_ ?_
  · exact wellFormed.acyclic.of_sameLinks (sameLinks_create document content)
  · intro id created present nonempty
    rw [content?_create] at present
    split at present
    · rename_i fresh
      exact absurd (wellFormed.arranged.children_of_missing (Nat.le_of_eq fresh.symm)) nonempty
    · exact wellFormed.container present nonempty
  · intro id parent present
    rw [content?_create] at present
    split at present
    · rename_i fresh
      exact wellFormed.arranged.not_mem_of_missing (Nat.le_of_eq fresh.symm) parent
    · exact wellFormed.fragment_not_mem present parent
  · intro id created present
    rw [content?_create] at present
    split at present
    · rw [Option.some.injEq] at present
      rwa [← present]
    · exact wellFormed.distinct present

/-! ### Changing what a node is -/

theorem children_setContent (wellFormed : WellFormed document) (id : NodeId)
    (content : Content) :
    (document.setContent id content).children = document.children :=
  (wellFormed.arranged.setContent id content).children_eq_kids

theorem setContent (wellFormed : WellFormed document) {id : NodeId} {old new : Content}
    (present : document.content? id = some old)
    (container : old.mayHaveChildren = new.mayHaveChildren)
    (fragment : new = .fragment → old = .fragment) (distinct : new.HasDistinctNames) :
    WellFormed (document.setContent id new) := by
  refine of_arranged (wellFormed.arranged.setContent id new) ?_ ?_ ?_ ?_
  · exact wellFormed.acyclic.of_sameLinks
      (sameLinks_update document id _ fun _ => ⟨new, rfl⟩)
  · intro other content found nonempty
    rw [content?_setContent] at found
    split at found
    · rename_i here
      obtain ⟨rfl, _⟩ := here
      rw [Option.some.injEq] at found
      rw [← found, ← container]
      exact wellFormed.container present nonempty
    · exact wellFormed.container found nonempty
  · intro other parent found
    rw [content?_setContent] at found
    split at found
    · rename_i here
      obtain ⟨rfl, _⟩ := here
      rw [Option.some.injEq] at found
      rw [fragment found] at present
      exact wellFormed.fragment_not_mem present parent
    · exact wellFormed.fragment_not_mem found parent
  · intro other content found
    rw [content?_setContent] at found
    split at found
    · rw [Option.some.injEq] at found
      rwa [← found]
    · exact wellFormed.distinct found

/-! ### Taking nodes out of their places -/

theorem children_detach (wellFormed : WellFormed document) (id : NodeId) :
    (document.detach id).children = fun parent => (document.children parent).erase id :=
  (wellFormed.arranged.detach id).children_eq_kids

theorem detach (wellFormed : WellFormed document) (id : NodeId) :
    WellFormed (document.detach id) := by
  have arranged := wellFormed.arranged.detach id
  refine of_arranged arranged ?_ ?_ ?_ ?_
  · exact arranged.acyclic_of_subset wellFormed.arranged wellFormed.acyclic
      fun parent => List.erase_subset
  · intro other content found nonempty
    rw [content?_detach] at found
    refine wellFormed.container found fun empty => nonempty ?_
    rw [empty]
    rfl
  · intro other parent found member
    rw [content?_detach] at found
    exact wellFormed.fragment_not_mem found parent (List.mem_of_mem_erase member)
  · intro other content found
    rw [content?_detach] at found
    exact wellFormed.distinct found

/-! ### Moving nodes -/

/-- The node may become a child of the parent. -/
structure Insertable (document : Document) (parent id : NodeId) : Prop where
  container : ∃ content, document.content? parent = some content ∧
    content.mayHaveChildren = true
  inserted : ∃ content, document.content? id = some content ∧ content ≠ .fragment
  apart : ¬ ReflTransGen document.IsChild parent id

section Moving

variable {parent id : NodeId} {earlier later : List NodeId}

theorem arranged_move (wellFormed : WellFormed document)
    (insertable : Insertable document parent id)
    (shape : (document.children parent).erase id = earlier ++ later) :
    (document.move parent later.head? id).Arranged
      (Function.update (fun other => (document.children other).erase id) parent
        (earlier ++ id :: later)) := by
  obtain ⟨_, container, _⟩ := insertable.container
  obtain ⟨_, inserted, _⟩ := insertable.inserted
  exact wellFormed.arranged.move shape (lt_size_of_content? container)
    (lt_size_of_content? inserted)

theorem children_move (wellFormed : WellFormed document)
    (insertable : Insertable document parent id)
    (shape : (document.children parent).erase id = earlier ++ later) :
    (document.move parent later.head? id).children =
      Function.update (fun other => (document.children other).erase id) parent
        (earlier ++ id :: later) :=
  (wellFormed.arranged_move insertable shape).children_eq_kids

/-- After a move a node has its old parent, or it is the moved node below its new parent. -/
theorem isChild_of_isChild_move (wellFormed : WellFormed document)
    (insertable : Insertable document parent id)
    (shape : (document.children parent).erase id = earlier ++ later) {lower upper : NodeId}
    (child : (document.move parent later.head? id).IsChild lower upper) :
    document.IsChild lower upper ∨ lower = id ∧ upper = parent := by
  have member := (wellFormed.arranged_move insertable shape).isChild_iff.1 child
  by_cases same : upper = parent
  · subst same
    rw [Function.update_self, List.mem_append, List.mem_cons, or_left_comm,
      ← List.mem_append, ← shape] at member
    rcases member with rfl | old
    · exact Or.inr ⟨rfl, rfl⟩
    · exact Or.inl (wellFormed.arranged.isChild_iff.2 (List.mem_of_mem_erase old))
  · rw [Function.update_of_ne same] at member
    exact Or.inl (wellFormed.arranged.isChild_iff.2 (List.mem_of_mem_erase member))

theorem move (wellFormed : WellFormed document) (insertable : Insertable document parent id)
    (shape : (document.children parent).erase id = earlier ++ later) :
    WellFormed (document.move parent later.head? id) := by
  have arranged := wellFormed.arranged_move insertable shape
  refine of_arranged arranged ?_ ?_ ?_ ?_
  · exact acyclic_of_regrafted (wellFormed.isChild_of_isChild_move insertable shape)
      insertable.apart wellFormed.acyclic
  · intro other content found nonempty
    rw [content?_move] at found
    by_cases same : other = parent
    · subst same
      obtain ⟨known, container, may⟩ := insertable.container
      rw [found, Option.some.injEq] at container
      rwa [container]
    · rw [Function.update_of_ne same] at nonempty
      refine wellFormed.container found fun empty => nonempty ?_
      rw [empty]
      rfl
  · intro other upper found member
    rw [content?_move] at found
    rcases wellFormed.isChild_of_isChild_move insertable shape
        (arranged.isChild_iff.2 member) with old | ⟨rfl, rfl⟩
    · exact wellFormed.fragment_not_mem found upper (wellFormed.arranged.isChild_iff.1 old)
    · obtain ⟨known, inserted, notFragment⟩ := insertable.inserted
      rw [found, Option.some.injEq] at inserted
      exact notFragment inserted.symm
  · intro other content found
    rw [content?_move] at found
    exact wellFormed.distinct found

end Moving

/-! ### Nodes that stay as they are -/

theorem node?_eq {old new : Document} (oldFormed : old.WellFormed)
    (newFormed : new.WellFormed) {id : NodeId} (content : new.content? id = old.content? id)
    (row : new.children id = old.children id)
    (parents : ∀ parent, id ∈ new.children parent ↔ id ∈ old.children parent)
    (rows : ∀ parent, id ∈ old.children parent → new.children parent = old.children parent) :
    new.node? id = old.node? id := by
  have links : new.parent? id = old.parent? id ∧ new.prevSibling? id = old.prevSibling? id ∧
      new.nextSibling? id = old.nextSibling? id := by
    by_cases placed : ∃ parent, id ∈ old.children parent
    · obtain ⟨parent, member⟩ := placed
      obtain ⟨earlier, later, shape⟩ := List.append_of_mem member
      obtain ⟨above, prev, next⟩ := oldFormed.arranged.child shape
      rw [← rows parent member] at shape
      obtain ⟨newAbove, newPrev, newNext⟩ := newFormed.arranged.child shape
      exact ⟨newAbove.trans above.symm, newPrev.trans prev.symm, newNext.trans next.symm⟩
    · push Not at placed
      obtain ⟨above, prev, next⟩ := oldFormed.arranged.orphan placed
      obtain ⟨newAbove, newPrev, newNext⟩ := newFormed.arranged.orphan fun parent member =>
        placed parent ((parents parent).1 member)
      exact ⟨newAbove.trans above.symm, newPrev.trans prev.symm, newNext.trans next.symm⟩
  have first := (newFormed.arranged.firstChild id).trans
    ((congrArg List.head? row).trans (oldFormed.arranged.firstChild id).symm)
  have last := (newFormed.arranged.lastChild id).trans
    ((congrArg List.getLast? row).trans (oldFormed.arranged.lastChild id).symm)
  obtain ⟨above, prev, next⟩ := links
  unfold content? at content
  unfold parent? at above
  unfold prevSibling? at prev
  unfold nextSibling? at next
  unfold firstChild? at first
  unfold lastChild? at last
  cases before : old.node? id with
  | none =>
      rw [before] at content
      exact Option.map_eq_none_iff.1 content
  | some oldNode =>
      rw [before] at content above prev next first last
      obtain ⟨newNode, found, same⟩ := Option.map_eq_some_iff.1 content
      rw [found] at above prev next first last ⊢
      obtain ⟨⟩ := oldNode
      obtain ⟨⟩ := newNode
      simp_all

/-- A well-formed document is determined by what its nodes are and by the rows of children. -/
theorem eq_of_same {old new : Document} (oldFormed : old.WellFormed) (newFormed : new.WellFormed)
    (content : new.content? = old.content?) (children : new.children = old.children) :
    new = old := by
  apply ext_node?
  intro id
  refine oldFormed.node?_eq newFormed (congrFun content id) (congrFun children id) ?_ ?_
  · exact fun parent => by rw [children]
  · exact fun parent _ => congrFun children parent

end WellFormed

end MarkupTemplate.Document
