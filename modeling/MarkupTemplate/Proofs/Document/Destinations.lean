import MarkupTemplate.Proofs.Document.Edits

/-!
# Destinations

A node can be inserted at the end of a row of children, or before or after a member of it.  Said of
the row as a list, the three ways are one: what is inserted is put into the list where the
destination says, after the inserted node was taken from wherever it stood.  Nothing is said of
links, although the links are what an insertion changes, and the place is looked up before the
node leaves its old one.
-/

namespace MarkupTemplate

/-- Where a node is inserted. -/
inductive Destination where
  | lastIn (parent : NodeId)
  | before (reference : NodeId)
  | after (reference : NodeId)
  deriving DecidableEq, Repr

/-- Insert a node at a destination. -/
def Document.insertAt (document : Document) (destination : Destination) (id : NodeId) :
    Except Error Document :=
  match destination with
  | .lastIn parent => document.append parent id
  | .before reference => document.insertBefore reference id
  | .after reference => document.insertAfter reference id

namespace Destination

open Document Relation

/-- The node whose row of children the destination is in. -/
def parent? (document : Document) : Destination → Option NodeId
  | .lastIn parent => some parent
  | .before reference => document.parent? reference
  | .after reference => document.parent? reference

/-- The member of the row that the destination is in front of. -/
def next? (document : Document) : Destination → Option NodeId
  | .lastIn _ => none
  | .before reference => some reference
  | .after reference => document.nextSibling? reference

/-- The row with more nodes at the destination. -/
def put (destination : Destination) (ids row : List NodeId) : List NodeId :=
  match destination with
  | .lastIn _ => row ++ ids
  | .before reference =>
      row.flatMap fun other => if other = reference then ids ++ [other] else [other]
  | .after reference =>
      row.flatMap fun other => if other = reference then other :: ids else [other]

/-- The destination is directly beside the node. -/
def Beside (destination : Destination) (id : NodeId) : Prop :=
  destination = .before id ∨ destination = .after id

variable {document edited : Document} {destination : Destination} {parent id reference : NodeId}
  {ids row earlier later : List NodeId}

/-! ## Rows with more nodes -/

section Growing

variable {grow : NodeId → List NodeId} (alone : ∀ id, id ≠ reference → grow id = [id])

include alone

theorem flatMap_eq_self (absent : reference ∉ row) : row.flatMap grow = row := by
  have same : row.flatMap grow = row.flatMap fun id => [id] :=
    List.flatMap_congr fun id member => alone id fun equal => absent (equal ▸ member)
  rw [same, List.flatMap_singleton']

/-- Where all members but one stay alone, the row grows at that one. -/
theorem flatMap_middle (absent : reference ∉ earlier) (absentToo : reference ∉ later) :
    (earlier ++ reference :: later).flatMap grow = earlier ++ (grow reference ++ later) := by
  rw [List.flatMap_append, List.flatMap_cons, flatMap_eq_self alone absent,
    flatMap_eq_self alone absentToo]

end Growing

theorem put_before (absent : reference ∉ earlier) (absentToo : reference ∉ later) :
    (Destination.before reference).put ids (earlier ++ reference :: later) =
      earlier ++ (ids ++ reference :: later) := by
  have grown : (earlier ++ reference :: later).flatMap
      (fun other => if other = reference then ids ++ [other] else [other]) = _ :=
    flatMap_middle (fun _ different => if_neg different) absent absentToo
  simp only [↓reduceIte, List.append_assoc, List.singleton_append] at grown
  exact grown

/-- A row without the reference stays as it is. -/
theorem put_after_of_not_mem (absent : reference ∉ row) :
    (Destination.after reference).put ids row = row :=
  flatMap_eq_self (fun _ different => if_neg different) absent

theorem put_after (absent : reference ∉ earlier) (absentToo : reference ∉ later) :
    (Destination.after reference).put ids (earlier ++ reference :: later) =
      earlier ++ reference :: (ids ++ later) := by
  have grown : (earlier ++ reference :: later).flatMap
      (fun other => if other = reference then other :: ids else [other]) = _ :=
    flatMap_middle (fun _ different => if_neg different) absent absentToo
  simp only [↓reduceIte, List.cons_append] at grown
  exact grown

theorem erase_middle (distinct : (earlier ++ reference :: later).Nodup)
    (different : id ≠ reference) :
    (earlier ++ reference :: later).erase id = earlier.erase id ++ reference :: later.erase id := by
  have apart := (List.nodup_append'.1 distinct).2.2
  by_cases inEarlier : id ∈ earlier
  · have outside : id ∉ later := fun inLater =>
      apart inEarlier (List.mem_cons_of_mem reference inLater)
    rw [List.erase_append_left _ inEarlier, List.erase_of_not_mem outside]
  · rw [List.erase_append_right _ inEarlier, List.erase_of_not_mem inEarlier,
      List.erase_cons_tail (by simpa using Ne.symm different)]

/-- Rows without a node, with the row that it stands in put back, are the rows with it. -/
theorem update_erased (wellFormed : document.WellFormed) (member : id ∈ document.children parent) :
    Function.update (fun other => (document.children other).erase id) parent
        (document.children parent) =
      document.children := by
  refine Function.update_eq_iff.2 ⟨rfl, fun other different => ?_⟩
  exact List.erase_of_not_mem fun inOther =>
    different (wellFormed.arranged.eq_of_mem inOther member)

/-! ## Insertions at a destination -/

theorem insertAt_of_orphan (orphan : destination.parent? document = none) :
    ∃ cause, document.insertAt destination id = .error cause := by
  cases destination with
  | lastIn parent => contradiction
  | before reference =>
      have alone : document.parent? reference = none := orphan
      refine ⟨.invalidNode reference .referenceHasNoParent, ?_⟩
      simp only [insertAt, insertBefore, alone]
  | after reference =>
      have alone : document.parent? reference = none := orphan
      refine ⟨.invalidNode reference .referenceHasNoParent, ?_⟩
      simp only [insertAt, insertAfter, alone]

theorem insertAt_eq_insert (inside : destination.parent? document = some parent) :
    document.insertAt destination id =
      document.insert parent (destination.next? document) id := by
  cases destination with
  | lastIn other =>
      obtain rfl : other = parent := Option.some.inj inside
      rfl
  | before reference =>
      have above : document.parent? reference = some parent := inside
      simp only [insertAt, insertBefore, above, next?]
  | after reference =>
      have above : document.parent? reference = some parent := inside
      simp only [insertAt, insertAfter, above, next?]

/-- An insertion into a row is refused exactly if the row's node cannot have children, the inserted
node is missing, or it would come to stand below itself. -/
theorem insert_refused_iff (wellFormed : document.WellFormed) {before : Option NodeId} :
    (∃ cause, document.insert parent before id = .error cause) ↔
      document.content? parent = none ∨
      (∃ container, document.content? parent = some container ∧
        container.mayHaveChildren = false) ∨
      document.content? id = none ∨ ReflTransGen document.IsChild parent id := by
  rw [← isInclusiveAncestor_iff wellFormed.arranged wellFormed.acyclic]
  constructor
  · rintro ⟨cause, refused⟩
    by_contra none_holds
    push Not at none_holds
    obtain ⟨above, may, found, apart⟩ := none_holds
    obtain ⟨container, holder⟩ := Option.ne_none_iff_exists'.1 above
    obtain ⟨content, present⟩ := Option.ne_none_iff_exists'.1 found
    have mayHave : container.mayHaveChildren = true := by simpa using may container holder
    unfold Document.insert at refused
    simp only [holder, present, mayHave, Bool.not_true, Bool.false_eq_true, ↓reduceIte,
      apart] at refused
    split at refused
    · contradiction
    · split at refused <;> contradiction
  · intro some_holds
    cases outcome : document.insert parent before id with
    | error cause => exact ⟨cause, rfl⟩
    | ok edited =>
        obtain ⟨container, content, holder, may, present, apart, _⟩ :=
          WellFormed.insert_cases outcome
        rcases some_holds with missing | ⟨other, found, mayNot⟩ | missing | above
        · rw [holder] at missing
          contradiction
        · rw [holder, Option.some.injEq] at found
          rw [← found, may] at mayNot
          contradiction
        · rw [present] at missing
          contradiction
        · rw [apart] at above
          contradiction

/-- A node in the row of its parent, and what stands around it. -/
theorem exists_row (wellFormed : document.WellFormed)
    (above : document.parent? reference = some parent) :
    ∃ earlier later, document.children parent = earlier ++ reference :: later ∧
      reference ∉ earlier ∧ reference ∉ later ∧
      document.nextSibling? reference = later.head? := by
  obtain ⟨earlier, later, shape⟩ :=
    List.append_of_mem (wellFormed.arranged.parent?_eq_some_iff.1 above)
  have distinct := wellFormed.arranged.nodup parent
  rw [shape, List.nodup_middle, List.nodup_cons, List.mem_append, not_or] at distinct
  exact ⟨earlier, later, shape, distinct.1.1, distinct.1.2,
    (wellFormed.arranged.child shape).2.2⟩

section Places

variable (wellFormed : document.WellFormed) (inside : destination.parent? document = some parent)

include wellFormed inside

/-- A destination parts the row of its parent, and more nodes come between the parts. -/
theorem exists_place :
    ∃ earlier later, document.children parent = earlier ++ later ∧
      later.head? = destination.next? document ∧
      ∀ ids, destination.put ids (document.children parent) = earlier ++ ids ++ later := by
  cases destination with
  | lastIn other =>
      refine ⟨document.children parent, [], (List.append_nil _).symm, rfl, fun ids => ?_⟩
      rw [List.append_nil]
      rfl
  | before reference =>
      obtain ⟨earlier, later, shape, absent, absentToo, _⟩ :=
        exists_row wellFormed inside
      refine ⟨earlier, reference :: later, shape, rfl, fun ids => ?_⟩
      rw [shape, put_before absent absentToo, List.append_assoc]
  | after reference =>
      obtain ⟨earlier, later, shape, absent, absentToo, next⟩ :=
        exists_row wellFormed inside
      refine ⟨earlier ++ [reference], later, by rw [shape]; simp, next.symm, fun ids => ?_⟩
      rw [shape, put_after absent absentToo]
      simp

/-- A destination that is not beside a node parts the row also without this node, unless the node
already stands in front of the next one. -/
theorem exists_place_of_erased (apart : ¬ destination.Beside id)
    (notNext : destination.next? document ≠ some id) :
    ∃ earlier later, (document.children parent).erase id = earlier ++ later ∧
      later.head? = destination.next? document ∧
      destination.put [id] ((document.children parent).erase id) = earlier ++ id :: later := by
  cases destination with
  | lastIn other =>
      exact ⟨(document.children parent).erase id, [], (List.append_nil _).symm, rfl, rfl⟩
  | before reference =>
      have different : id ≠ reference := by
        rintro rfl
        exact apart (Or.inl rfl)
      obtain ⟨earlier, later, shape, absent, absentToo, _⟩ :=
        exists_row wellFormed inside
      have erased := erase_middle (shape ▸ wellFormed.arranged.nodup parent) different
      refine ⟨earlier.erase id, reference :: later.erase id, by rw [shape, erased], rfl, ?_⟩
      rw [shape, erased, put_before (fun member => absent (List.mem_of_mem_erase member))
        fun member => absentToo (List.mem_of_mem_erase member)]
      rfl
  | after reference =>
      have different : id ≠ reference := by
        rintro rfl
        exact apart (Or.inr rfl)
      obtain ⟨earlier, later, shape, absent, absentToo, next⟩ :=
        exists_row wellFormed inside
      have erased := erase_middle (shape ▸ wellFormed.arranged.nodup parent) different
      refine ⟨earlier.erase id ++ [reference], later.erase id, by rw [shape, erased]; simp, ?_, ?_⟩
      · have notFirst : later.head? ≠ some id := next ▸ notNext
        refine Eq.trans ?_ next.symm
        cases later with
        | nil => rfl
        | cons first rest =>
            rw [List.erase_cons_tail (by simpa using notFirst)]
            rfl
      · rw [shape, erased, put_after (fun member => absent (List.mem_of_mem_erase member))
          fun member => absentToo (List.mem_of_mem_erase member)]
        simp

/-- A node that already stands where it would be put stays there. -/
theorem put_erased_of_next (apart : ¬ destination.Beside id)
    (next : destination.next? document = some id) :
    destination.put [id] ((document.children parent).erase id) = document.children parent := by
  cases destination with
  | lastIn other => contradiction
  | before reference =>
      exact absurd (Or.inl (congrArg Destination.before (Option.some.inj next))) apart
  | after reference =>
      have different : id ≠ reference := by
        rintro rfl
        exact apart (Or.inr rfl)
      obtain ⟨earlier, later, shape, absent, absentToo, follows⟩ :=
        exists_row wellFormed inside
      obtain ⟨rest, rfl⟩ : ∃ rest, later = id :: rest := by
        have first : later.head? = some id := follows.symm.trans next
        exact List.head?_eq_some_iff.1 first
      have distinct := wellFormed.arranged.nodup parent
      rw [shape] at distinct
      have outside : id ∉ earlier := fun member =>
        (List.nodup_append'.1 distinct).2.2 member (by simp)
      rw [shape, erase_middle distinct different, List.erase_of_not_mem outside,
        List.erase_cons_head, put_after absent fun member =>
          absentToo (List.mem_cons_of_mem id member)]
      rfl

end Places

/-! ## What an insertion does to the rows -/

section Effects

variable (wellFormed : document.WellFormed) (inside : destination.parent? document = some parent)
  (inserted : document.insertAt destination id = .ok edited)

include inside inserted

theorem content?_insertAt (other : NodeId) :
    edited.content? other = document.content? other := by
  rw [insertAt_eq_insert inside] at inserted
  exact content?_insert inserted other

include wellFormed

theorem wellFormed_insertAt : edited.WellFormed := by
  rw [insertAt_eq_insert inside] at inserted
  obtain ⟨earlier, later, shape, next, _⟩ := exists_place wellFormed inside
  rw [← next] at inserted
  exact wellFormed.insert shape inserted

/-- What an insertion that is not refused knows of the node and its new parent. -/
theorem insertable_insertAt (notFragment : document.content? id ≠ some .fragment) :
    WellFormed.Insertable document parent id ∧
      (destination.next? document = some id ∧ edited = document ∨
        destination.next? document ≠ some id ∧
          edited = document.move parent (destination.next? document) id) := by
  rw [insertAt_eq_insert inside] at inserted
  obtain ⟨container, content, holder, may, found, notAbove, outcome⟩ :=
    WellFormed.insert_cases inserted
  have known : content ≠ .fragment := by
    rintro rfl
    exact notFragment found
  refine ⟨⟨⟨container, holder, may⟩, ⟨content, found, known⟩, ?_⟩, ?_⟩
  · rw [← isInclusiveAncestor_iff wellFormed.arranged wellFormed.acyclic, notAbove]
    exact Bool.false_ne_true
  · rcases outcome with ⟨fragment, _⟩ | ⟨_, next, same⟩ | ⟨_, next, moved⟩
    · exact absurd fragment known
    · exact Or.inl ⟨next, same⟩
    · exact Or.inr ⟨next, moved⟩

/-- A node that is put beside itself stays where it is. -/
theorem insertAt_of_beside (beside : destination.Beside id) : edited = document := by
  have above : document.parent? id = some parent := by
    rcases beside with rfl | rfl <;> exact inside
  have notFragment : document.content? id ≠ some .fragment := by
    intro fragment
    rw [wellFormed.fragment fragment] at above
    contradiction
  have formed := wellFormed_insertAt wellFormed inside inserted
  obtain ⟨insertable, ⟨_, same⟩ | ⟨notNext, moved⟩⟩ :=
    insertable_insertAt wellFormed inside inserted notFragment
  · exact same
  · rcases beside with rfl | rfl
    · exact absurd rfl notNext
    · obtain ⟨earlier, later, shape, absent, absentToo, next⟩ :=
        exists_row wellFormed above
      have erased : (document.children parent).erase id = earlier ++ later := by
        rw [shape, List.erase_append_right _ absent, List.erase_cons_head]
      refine wellFormed.eq_of_same formed (funext (content?_insertAt inside inserted)) ?_
      have follows : (Destination.after id).next? document = later.head? := next
      rw [moved, follows, wellFormed.children_move insertable erased, ← shape,
        update_erased wellFormed (wellFormed.arranged.parent?_eq_some_iff.1 above)]

/-- An inserted node leaves the row that it stood in, and is put into the row of its new parent. -/
theorem children_insertAt (notFragment : document.content? id ≠ some .fragment)
    (apart : ¬ destination.Beside id) :
    edited.children =
      Function.update (fun other => (document.children other).erase id) parent
        (destination.put [id] ((document.children parent).erase id)) := by
  obtain ⟨insertable, ⟨next, same⟩ | ⟨notNext, moved⟩⟩ :=
    insertable_insertAt wellFormed inside inserted notFragment
  · rw [same, put_erased_of_next wellFormed inside apart next]
    have member : id ∈ document.children parent := by
      obtain ⟨earlier, later, shape, first, _⟩ := exists_place wellFormed inside
      rw [next] at first
      rw [shape]
      exact List.mem_append_right _ (List.mem_of_mem_head? first)
    exact (update_erased wellFormed member).symm
  · obtain ⟨earlier, later, shape, next, placed⟩ :=
      exists_place_of_erased wellFormed inside apart notNext
    rw [moved, ← next, wellFormed.children_move insertable shape, placed]

/-- The children of an inserted fragment leave it, and are put in order into the row of their new
parent. -/
theorem children_insertAt_of_fragment (fragment : document.content? id = some .fragment) :
    edited.children =
      Function.update (Function.update document.children id []) parent
        (destination.put (document.children id) (document.children parent)) := by
  rw [insertAt_eq_insert inside] at inserted
  obtain ⟨container, content, holder, may, found, notAbove, outcome⟩ :=
    WellFormed.insert_cases inserted
  obtain ⟨earlier, later, shape, next, placed⟩ := exists_place wellFormed inside
  have apart : ¬ ReflTransGen document.IsChild parent id := by
    rw [← isInclusiveAncestor_iff wellFormed.arranged wellFormed.acyclic, notAbove]
    exact Bool.false_ne_true
  have different : id ≠ parent := by
    rintro rfl
    exact apart ReflTransGen.refl
  rw [fragment, Option.some.injEq] at found
  rcases outcome with ⟨_, drained⟩ | ⟨known, _⟩ | ⟨known, _⟩
  · rw [drained, ← next, placed]
    exact (wellFormed.drain holder may rfl different apart shape).2
  · exact absurd found.symm known
  · exact absurd found.symm known

end Effects

end Destination

end MarkupTemplate
