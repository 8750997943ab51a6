import MarkupTemplate.Proofs.Document.Carrying
import MarkupTemplate.Proofs.Document.Planting

/-!
# Blocks of trees

An algorithm that goes through a tree and edits it on the way changes one block of neighbouring
trees at a time.  A block stands in the row of its parent between what is before and after it; to
rework a block is to put other trees in its place and to leave everything outside of it alone.
Reworking the blocks of a row one after the other reworks the row.
-/

namespace MarkupTemplate.Document

open Relation

/-! ## Blocks -/

/-- The block stands in the row of the parent, between these nodes. -/
structure Stands (document : Document) (parent : NodeId) (earlier later : List NodeId)
    (block : Forest (NodeId × Content)) : Prop where
  wellFormed : document.WellFormed
  row : document.children parent = earlier ++ (block.rootIds ++ later)
  grows : block.GrowsIn document

namespace Stands

variable {document : Document} {parent : NodeId} {earlier later : List NodeId}
  {block first second : Forest (NodeId × Content)}

theorem subset (stands : document.Stands parent earlier later block) :
    block.rootIds ⊆ document.children parent := by
  rw [stands.row]
  exact fun id member => List.mem_append_right _ (List.mem_append_left _ member)

theorem nodup_ids (stands : document.Stands parent earlier later block) : block.ids.Nodup := by
  refine stands.wellFormed.nodup_ids stands.grows stands.subset ?_
  have distinct := stands.wellFormed.arranged.nodup parent
  rw [stands.row] at distinct
  exact (List.nodup_append'.1 (List.nodup_append'.1 distinct).2.1).1

theorem above (stands : document.Stands parent earlier later block) {id : NodeId}
    (member : id ∈ block.ids) : TransGen document.IsChild id parent := by
  obtain ⟨root, isRoot, path⟩ := stands.wellFormed.exists_root_above stands.grows member
  exact TransGen.tail' path (stands.wellFormed.arranged.isChild_iff.2 (stands.subset isRoot))

theorem parent_not_mem (stands : document.Stands parent earlier later block) :
    parent ∉ block.ids := fun member => stands.wellFormed.acyclic parent (stands.above member)

theorem ne_parent (stands : document.Stands parent earlier later block) {id : NodeId}
    (member : id ∈ block.ids) : id ≠ parent := by
  rintro rfl
  exact stands.parent_not_mem member

theorem left (stands : document.Stands parent earlier later (first ++ second)) :
    document.Stands parent earlier (second.rootIds ++ later) first := by
  refine ⟨stands.wellFormed, ?_, (Forest.growsIn_append.1 stands.grows).1⟩
  rw [stands.row, Forest.rootIds_append, List.append_assoc]

theorem right (stands : document.Stands parent earlier later (first ++ second)) :
    document.Stands parent (earlier ++ first.rootIds) later second := by
  refine ⟨stands.wellFormed, ?_, (Forest.growsIn_append.1 stands.grows).2⟩
  rw [stands.row, Forest.rootIds_append, List.append_assoc, List.append_assoc]

theorem inside {label : NodeId × Content} {children : Forest (NodeId × Content)}
    (stands : document.Stands parent earlier later (Forest.single label children)) :
    document.Stands label.1 [] [] children := by
  obtain ⟨_, row, grows⟩ := Forest.growsIn_single.1 stands.grows
  exact ⟨stands.wellFormed, by simpa using row, grows⟩

theorem content? {label : NodeId × Content} {children : Forest (NodeId × Content)}
    (stands : document.Stands parent earlier later (Forest.single label children)) :
    document.content? label.1 = some label.2 :=
  (Forest.growsIn_single.1 stands.grows).1

theorem disjoint (stands : document.Stands parent earlier later (first ++ second)) {id : NodeId}
    (inFirst : id ∈ first.ids) : id ∉ second.ids := by
  have distinct := stands.nodup_ids
  rw [Forest.ids_append] at distinct
  exact fun inSecond => (List.nodup_append'.1 distinct).2.2 inFirst inSecond

/-- The parent of a node of a block is in the block, or it is the parent of the block. -/
theorem parent_mem (stands : document.Stands parent earlier later block) {id upper : NodeId}
    (member : id ∈ block.ids) (child : id ∈ document.children upper) :
    upper = parent ∨ upper ∈ block.ids := by
  induction block generalizing parent earlier later with
  | empty => simp at member
  | plant label children siblings childrenHypothesis siblingsHypothesis =>
      rw [Forest.plant_eq_single_append] at stands
      rw [Forest.ids_plant, List.mem_cons, List.mem_append] at member ⊢
      rcases member with rfl | below | after
      · refine Or.inl (stands.wellFormed.arranged.eq_of_mem child ?_)
        exact stands.left.subset (List.mem_singleton_self label.1)
      · rcases childrenHypothesis stands.left.inside below with same | inside
        · exact Or.inr (Or.inl same)
        · exact Or.inr (Or.inr (Or.inl inside))
      · rcases siblingsHypothesis stands.right after with same | inside
        · exact Or.inl same
        · exact Or.inr (Or.inr (Or.inr inside))

end Stands

theorem HasBelow.stands {document : Document} {id : NodeId}
    {forest : Forest (NodeId × Content)} (hasBelow : document.HasBelow id forest)
    (wellFormed : document.WellFormed) : document.Stands id [] [] forest :=
  ⟨wellFormed, by simpa using hasBelow.row, hasBelow.grows⟩

theorem Stands.hasBelow {document : Document} {id : NodeId} {forest : Forest (NodeId × Content)}
    (stands : document.Stands id [] [] forest) : document.HasBelow id forest :=
  ⟨by simpa using stands.row, stands.grows⟩

/-! ## Reworking blocks -/

/-- One block takes the place of another, and nothing outside of them changes.  The nodes of the
new block are among those of the old one, or they are new. -/
structure Reworks (old new : Document) (parent : NodeId) (earlier later : List NodeId)
    (before after : Forest (NodeId × Content)) : Prop where
  stands : new.Stands parent earlier later after
  size_le : old.size ≤ new.size
  content? : ∀ {id : Nat}, id < old.size → id ∉ before.ids → new.content? id = old.content? id
  children : ∀ {id : Nat}, id < old.size → id ∉ before.ids → id ≠ parent →
    new.children id = old.children id
  ids : ∀ {id : Nat}, id ∈ after.ids → id ∈ before.ids ∨ old.size ≤ id

namespace Reworks

variable {old mid new : Document} {parent : NodeId} {earlier later : List NodeId}
  {before between after beforeFirst beforeSecond afterFirst afterSecond :
    Forest (NodeId × Content)}

theorem refl (stands : old.Stands parent earlier later before) :
    Reworks old old parent earlier later before before :=
  ⟨stands, Nat.le_refl _, fun _ _ => rfl, fun _ _ _ => rfl, fun member => Or.inl member⟩

theorem trans (first : Reworks old mid parent earlier later before between)
    (second : Reworks mid new parent earlier later between after) :
    Reworks old new parent earlier later before after := by
  have outside : ∀ {id : Nat}, id < old.size → id ∉ before.ids → id ∉ between.ids := by
    intro id within absent member
    rcases first.ids member with inBefore | fresh
    · exact absent inBefore
    · omega
  refine ⟨second.stands, Nat.le_trans first.size_le second.size_le, ?_, ?_, ?_⟩
  · intro id within absent
    rw [second.content? (Nat.lt_of_lt_of_le within first.size_le) (outside within absent),
      first.content? within absent]
  · intro id within absent different
    rw [second.children (Nat.lt_of_lt_of_le within first.size_le) (outside within absent) different,
      first.children within absent different]
  · intro id member
    rcases second.ids member with inBetween | fresh
    · exact first.ids inBetween
    · exact Or.inr (Nat.le_trans first.size_le fresh)

theorem stands_right (first : Reworks old mid parent earlier (beforeSecond.rootIds ++ later)
      beforeFirst afterFirst)
    (stands : old.Stands parent earlier later (beforeFirst ++ beforeSecond)) :
    mid.Stands parent (earlier ++ afterFirst.rootIds) later beforeSecond := by
  have inSecond := stands.right.grows
  have apart : ∀ {id}, id ∈ beforeSecond.ids → id ∉ beforeFirst.ids :=
    fun inSecond inFirst => stands.disjoint inFirst inSecond
  refine ⟨first.stands.wellFormed, ?_, inSecond.of_same ?_ ?_⟩
  · rw [first.stands.row, List.append_assoc]
  · exact fun id member => first.content? (inSecond.lt_size member) (apart member)
  · exact fun id member => first.children (inSecond.lt_size member) (apart member)
      (stands.right.ne_parent member)

/-- Two blocks side by side are reworked one after the other. -/
theorem append (stands : old.Stands parent earlier later (beforeFirst ++ beforeSecond))
    (first : Reworks old mid parent earlier (beforeSecond.rootIds ++ later)
      beforeFirst afterFirst)
    (second : Reworks mid new parent (earlier ++ afterFirst.rootIds) later
      beforeSecond afterSecond) :
    Reworks old new parent earlier later (beforeFirst ++ beforeSecond)
      (afterFirst ++ afterSecond) := by
  have inSecond := stands.right.grows
  have afterApart : ∀ {id}, id ∈ afterFirst.ids → id ∉ beforeSecond.ids := by
    intro id member inBefore
    rcases first.ids member with inFirst | fresh
    · exact stands.disjoint inFirst inBefore
    · have within := inSecond.lt_size inBefore
      exact absurd within (Nat.not_lt_of_le fresh)
  have firstGrows : afterFirst.GrowsIn new := by
    refine first.stands.grows.of_same ?_ ?_
    · exact fun id member => second.content? (first.stands.grows.lt_size member)
        (afterApart member)
    · exact fun id member => second.children (first.stands.grows.lt_size member)
        (afterApart member) (first.stands.ne_parent member)
  refine ⟨⟨second.stands.wellFormed, ?_, ?_⟩, Nat.le_trans first.size_le second.size_le,
    ?_, ?_, ?_⟩
  · rw [second.stands.row, Forest.rootIds_append, List.append_assoc, List.append_assoc]
  · exact Forest.growsIn_append.2 ⟨firstGrows, second.stands.grows⟩
  · intro id within absent
    rw [Forest.ids_append, List.mem_append, not_or] at absent
    rw [second.content? (Nat.lt_of_lt_of_le within first.size_le) absent.2,
      first.content? within absent.1]
  · intro id within absent different
    rw [Forest.ids_append, List.mem_append, not_or] at absent
    rw [second.children (Nat.lt_of_lt_of_le within first.size_le) absent.2 different,
      first.children within absent.1 different]
  · intro id member
    rw [Forest.ids_append, List.mem_append] at member ⊢
    rcases member with inFirst | inSecond
    · rcases first.ids inFirst with old | fresh
      · exact Or.inl (Or.inl old)
      · exact Or.inr fresh
    · rcases second.ids inSecond with old | fresh
      · exact Or.inl (Or.inr old)
      · exact Or.inr (Nat.le_trans first.size_le fresh)

/-- What is reworked inside of a longer block reworks this block. -/
theorem first_of_two (stands : old.Stands parent earlier later (before ++ beforeSecond))
    (reworks : Reworks old new parent earlier (beforeSecond.rootIds ++ later) before after) :
    Reworks old new parent earlier later (before ++ beforeSecond) (after ++ beforeSecond) :=
  append stands reworks (refl (reworks.stands_right stands))

theorem second_of_two (stands : old.Stands parent earlier later (beforeFirst ++ before))
    (reworks : Reworks old new parent (earlier ++ beforeFirst.rootIds) later before after) :
    Reworks old new parent earlier later (beforeFirst ++ before) (beforeFirst ++ after) :=
  append stands (refl stands.left) reworks

/-- What is reworked below a node reworks the node's tree. -/
theorem single {label : NodeId × Content} {children other : Forest (NodeId × Content)}
    (stands : old.Stands parent earlier later (Forest.single label children))
    (reworks : Reworks old new label.1 [] [] children other) :
    Reworks old new parent earlier later (Forest.single label children)
      (Forest.single label other) := by
  have inside := stands.inside
  have here : label.1 ∈ (Forest.single label children).ids := by simp
  have labelOld : label.1 < old.size := stands.grows.lt_size here
  have parentOld : parent < old.size := stands.wellFormed.arranged.parent_lt_size_of_mem
    (stands.subset (List.mem_singleton_self label.1))
  have parentOutside : parent ∉ children.ids := by
    intro member
    exact stands.parent_not_mem (by simp [member])
  have different := stands.ne_parent here
  refine ⟨⟨reworks.stands.wellFormed, ?_, ?_⟩, reworks.size_le, ?_, ?_, ?_⟩
  · rw [reworks.children parentOld parentOutside (Ne.symm different), stands.row]
    rfl
  · refine Forest.growsIn_single.2 ⟨?_, ?_, reworks.stands.grows⟩
    · rw [reworks.content? labelOld inside.parent_not_mem, stands.content?]
    · simpa using reworks.stands.row
  · intro id within absent
    rw [Forest.ids_single, List.mem_cons, not_or] at absent
    exact reworks.content? within absent.2
  · intro id within absent _
    rw [Forest.ids_single, List.mem_cons, not_or] at absent
    exact reworks.children within absent.2 absent.1
  · intro id member
    rw [Forest.ids_single, List.mem_cons] at member ⊢
    rcases member with same | inOther
    · exact Or.inl (Or.inl same)
    · rcases reworks.ids inOther with old | fresh
      · exact Or.inl (Or.inr old)
      · exact Or.inr fresh

end Reworks

/-! ## Edits as reworked blocks -/

namespace Stands

variable {document : Document} {parent : NodeId} {earlier later : List NodeId}
  {id : NodeId} {content : Content} {children : Forest (NodeId × Content)}

theorem reworks_setContent
    (stands : document.Stands parent earlier later (Forest.single (id, content) children))
    (new : Content) (container : content.mayHaveChildren = new.mayHaveChildren)
    (fragment : new ≠ .fragment) (distinct : new.HasDistinctNames) :
    Reworks document (document.setContent id new) parent earlier later
      (Forest.single (id, content) children) (Forest.single (id, new) children) := by
  have present := stands.content?
  have rows := stands.wellFormed.children_setContent id new
  have within : id < document.size := lt_size_of_content? present
  have inside := stands.inside
  refine ⟨⟨?_, ?_, ?_⟩, by simp, ?_, ?_, ?_⟩
  · exact stands.wellFormed.setContent present container (fun same => absurd same fragment)
      distinct
  · rw [rows, stands.row]
    rfl
  · refine Forest.growsIn_single.2 ⟨?_, ?_, inside.grows.of_same ?_ ?_⟩
    · simp [within]
    · rw [rows]
      exact (Forest.growsIn_single.1 stands.grows).2.1
    · intro other member
      have different : id ≠ other := by
        rintro rfl
        exact inside.parent_not_mem member
      simp [different]
    · exact fun other _ => congrFun rows other
  · intro other _ absent
    rw [Forest.ids_single, List.mem_cons, not_or] at absent
    have different : id ≠ other := Ne.symm absent.1
    simp [different]
  · exact fun _ _ _ => congrFun rows _
  · intro other member
    exact Or.inl member

theorem reworks_createAfter
    (stands : document.Stands parent earlier later (Forest.single (id, content) children))
    {new : Content} (fragment : new ≠ .fragment) (distinct : new.HasDistinctNames) :
    Reworks document (document.createAfter id new).1 parent earlier later
      (Forest.single (id, content) children)
      (Forest.single (id, content) children ++ Forest.single (document.size, new) .empty) := by
  have shape : document.children parent = earlier ++ id :: later := stands.row
  have rows := stands.wellFormed.children_createAfter distinct fragment shape
  have made := stands.wellFormed.createAfter_of_child shape new
  have contents : ∀ other, (document.createAfter id new).1.content? other =
      if other = document.size then some new else document.content? other := by
    intro other
    rw [made]
    simp
  have size : (document.createAfter id new).1.size = document.size + 1 := by
    rw [made]
    simp
  have here : id ∈ (Forest.single (id, content) children).ids := by simp
  have parentOld : parent < document.size := stands.wellFormed.arranged.parent_lt_size_of_mem
    (stands.subset (List.mem_singleton_self id))
  refine ⟨⟨?_, ?_, ?_⟩, by rw [size]; exact Nat.le_succ _, ?_, ?_, ?_⟩
  · exact stands.wellFormed.createAfter distinct fragment id
  · rw [rows, Function.update_self]
    rfl
  · refine Forest.growsIn_append.2 ⟨stands.grows.of_same ?_ ?_, ?_⟩
    · intro other member
      rw [contents, if_neg (Nat.ne_of_lt (stands.grows.lt_size member))]
    · intro other member
      rw [rows, Function.update_of_ne (stands.ne_parent member)]
    · refine Forest.growsIn_single.2 ⟨?_, ?_, trivial⟩
      · rw [contents, if_pos rfl]
      · rw [rows, Function.update_of_ne (Nat.ne_of_gt parentOld)]
        exact stands.wellFormed.children_size
  · intro other within _
    rw [contents, if_neg (Nat.ne_of_lt within)]
  · intro other _ _ different
    rw [rows, Function.update_of_ne different]
  · intro other member
    rw [Forest.ids_append, List.mem_append] at member
    rcases member with old | new
    · exact Or.inl old
    · rw [Forest.ids_single, Forest.ids_empty, List.mem_singleton] at new
      exact Or.inr (Nat.le_of_eq new.symm)

theorem reworks_detach
    (stands : document.Stands parent earlier later (Forest.single (id, content) children)) :
    Reworks document (document.detach id) parent earlier later
      (Forest.single (id, content) children) .empty := by
  have shape : document.children parent = earlier ++ id :: later := stands.row
  have rows := stands.wellFormed.children_detach id
  have distinct := stands.wellFormed.arranged.nodup parent
  rw [shape] at distinct
  have fresh : id ∉ earlier := fun member =>
    (List.nodup_append'.1 distinct).2.2 member List.mem_cons_self
  have inRow : id ∈ document.children parent := stands.subset (List.mem_singleton_self id)
  refine ⟨⟨stands.wellFormed.detach id, ?_, trivial⟩, by simp, ?_, ?_, ?_⟩
  · rw [rows]
    simp only [shape]
    rw [List.erase_append_right _ fresh, List.erase_cons_head]
    rfl
  · intro other _ _
    exact content?_detach document id other
  · intro other _ _ different
    rw [rows]
    refine List.erase_of_not_mem ?_
    intro member
    exact different (stands.wellFormed.arranged.eq_of_mem member inRow)
  · intro other member
    simp at member

end Stands

end MarkupTemplate.Document
