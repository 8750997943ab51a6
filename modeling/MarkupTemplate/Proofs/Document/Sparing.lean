import MarkupTemplate.Proofs.Document.Walking
import MarkupTemplate.Proofs.Mutations

/-!
# Operations that spare nodes

Some nodes of a document are held fast, while a caller splits, changes, inserts and removes others.
In the row of a held node, the held nodes then stay where they are, and runs of nodes come in the
place of the others.  This composes from one operation to the next, and the same is true of
everything below a held node, in document order.
-/

namespace MarkupTemplate

open Relation

/-! ## Operations on other nodes -/

/-- The operation makes new nodes, and changes none that is there. -/
inductive Operation.Creates : Operation → Prop
  | element (name : String) : Creates (.createElement name)
  | text (data : String) : Creates (.createText data)
  | fragment : Creates .createFragment
  | boundary : Creates .createBoundary
  | parse (strict : Bool) (markup : String) : Creates (.parse strict markup)
  | copyFrom {source : Document} (formed : source.WellFormed) (id : NodeId) :
      Creates (.copyFrom source id)

/-- The operation makes new nodes, or it splits, changes, inserts or removes nodes that are not
held, and inserts them directly after such nodes only. -/
inductive Operation.Spares (held : NodeId → Prop) : Operation → Prop
  | create {operation : Operation} (creates : operation.Creates) : Spares held operation
  | splitText {id : NodeId} (free : ¬ held id) (position : Nat) :
      Spares held (.splitText id position)
  | setData {id : NodeId} (free : ¬ held id) (data : String) : Spares held (.setData id data)
  | insertAfter {reference id : NodeId} (freeReference : ¬ held reference) (free : ¬ held id) :
      Spares held (.insertAfter reference id)
  | detach {id : NodeId} (free : ¬ held id) : Spares held (.detach id)

theorem erase_eq_flatMap {row : List NodeId} (distinct : row.Nodup) (id : NodeId) :
    row.erase id = row.flatMap fun other => if other = id then [] else [other] := by
  rw [distinct.erase_eq_filter, ← List.filterMap_eq_filter, List.filterMap_eq_flatMap_toList]
  refine List.flatMap_congr fun other _ => ?_
  by_cases same : other = id <;> simp [same, Option.guard]

namespace Document

/-! ## What is kept of the held nodes -/

/-- The held nodes carry what they carried, and in their rows, the held nodes stand where they
stood; runs of nodes have come in the place of others. -/
structure Keeps (held : NodeId → Prop) (old new : Document) : Prop where
  wellFormed : new.WellFormed
  content? : ∀ id, held id → new.content? id = old.content? id
  children : ∃ grow : NodeId → List NodeId, (∀ id, held id → grow id = [id]) ∧
    ∀ id, held id → new.children id = (old.children id).flatMap grow

variable {held : NodeId → Prop} {document old middle new : Document}

namespace Keeps

/-- Nothing that is held has changed. -/
theorem of_same (wellFormed : new.WellFormed)
    (content : ∀ id, held id → new.content? id = old.content? id)
    (children : ∀ id, held id → new.children id = old.children id) : Keeps held old new where
  wellFormed := wellFormed
  content? := content
  children := by
    refine ⟨fun id => [id], fun _ _ => rfl, fun id holds => ?_⟩
    rw [children id holds, List.flatMap_singleton']

theorem refl (wellFormed : document.WellFormed) : Keeps held document document :=
  of_same wellFormed (fun _ _ => rfl) fun _ _ => rfl

theorem trans (first : Keeps held old middle) (second : Keeps held middle new) :
    Keeps held old new := by
  obtain ⟨grow, alone, rows⟩ := first.children
  obtain ⟨growAgain, aloneAgain, rowsAgain⟩ := second.children
  refine ⟨second.wellFormed, fun id holds => ?_, fun id => (grow id).flatMap growAgain,
    fun id holds => ?_, fun id holds => ?_⟩
  · rw [second.content? id holds, first.content? id holds]
  · simp only [alone id holds, List.flatMap_singleton, aloneAgain id holds]
  · rw [rowsAgain id holds, rows id holds, List.flatMap_assoc]

/-- What is kept by an edit is kept if the edit may be refused. -/
theorem afterEdit (wellFormed : document.WellFormed) {edit : Except Error Document}
    (edited : ∀ {after}, edit = .ok after → Keeps held document after) :
    Keeps held document (document.afterEdit edit) := by
  cases edit with
  | error cause => exact .refl wellFormed
  | ok after => exact edited rfl

theorem lt_size (keeps : Keeps held old new) {id : NodeId} (holds : held id)
    (present : id < old.size) : id < new.size := by
  obtain ⟨content, carried⟩ := exists_content_of_lt present
  exact lt_size_of_content? ((keeps.content? id holds).trans carried)

end Keeps

/-! ## What each operation keeps -/

theorem ne_of_held {id other : NodeId} (free : ¬ held id) (holds : held other) : other ≠ id :=
  fun same => free (same ▸ holds)

theorem exists_setContent_of_setData {id : NodeId} {data : String}
    (changed : document.setData id data = .ok new) :
    ∃ content, new = document.setContent id content := by
  unfold setData at changed
  split at changed
  · contradiction
  · exact ⟨.text data, (Except.ok.inj changed).symm⟩
  · exact ⟨.comment data, (Except.ok.inj changed).symm⟩
  · contradiction

namespace WellFormed

variable (wellFormed : document.WellFormed)

include wellFormed

theorem keeps_setData {id : NodeId} (free : ¬ held id) (data : String) :
    Keeps held document (document.perform (.setData id data)) := by
  refine .afterEdit wellFormed fun changed => ?_
  obtain ⟨content, rfl⟩ := exists_setContent_of_setData changed
  refine .of_same (wellFormed.setData changed) (fun other holds => ?_) fun other _ => ?_
  · rw [content?_setContent, if_neg fun here => ne_of_held free holds here.1.symm]
  · rw [wellFormed.children_setContent]

theorem keeps_detach {id : NodeId} (free : ¬ held id) :
    Keeps held document (document.perform (.detach id)) := by
  have removes := removes wellFormed id
  refine ⟨wellFormed.detach id, fun other _ => removes.content? other,
    fun other => if other = id then [] else [other], fun other holds => ?_, fun other _ => ?_⟩
  · exact if_neg (ne_of_held free holds)
  · rw [← erase_eq_flatMap (wellFormed.arranged.nodup other)]
    exact congrFun (wellFormed.children_detach id) other

/-! ### Inserting -/

section Inserting

variable {parent reference id : NodeId} (freeReference : ¬ held reference) (free : ¬ held id)
  (member : reference ∈ document.children parent) (formed : new.WellFormed)
  (contents : ∀ other, new.content? other = document.content? other)

include freeReference free member formed contents

/-- A node that is inserted leaves its row, and comes into the place of the one before it. -/
theorem keeps_of_moved
    (rows : new.children = Function.update (fun other => (document.children other).erase id) parent
      ((Destination.after reference).put [id] ((document.children parent).erase id))) :
    Keeps held document new := by
  refine ⟨formed, fun other _ => contents other, fun other =>
      (if other = id then [] else [other]).flatMap
        fun other => if other = reference then other :: [id] else [other],
    fun other holds => ?_, fun other _ => ?_⟩
  · simp only [if_neg (ne_of_held free holds), List.flatMap_singleton,
      if_neg (ne_of_held freeReference holds)]
  · rw [← List.flatMap_assoc, ← erase_eq_flatMap (wellFormed.arranged.nodup other), rows]
    by_cases same : other = parent
    · rw [same, Function.update_self]
      rfl
    · rw [Function.update_of_ne same]
      exact (Destination.put_after_of_not_mem fun inOther =>
        same (wellFormed.arranged.eq_of_mem (List.mem_of_mem_erase inOther) member)).symm

/-- The children of a fragment that is inserted come into the place of the node before them. -/
theorem keeps_of_drained
    (rows : new.children = Function.update (Function.update document.children id []) parent
      ((Destination.after reference).put (document.children id) (document.children parent))) :
    Keeps held document new := by
  refine ⟨formed, fun other _ => contents other,
    fun other => if other = reference then other :: document.children id else [other],
    fun other holds => if_neg (ne_of_held freeReference holds), fun other holds => ?_⟩
  rw [rows]
  by_cases same : other = parent
  · rw [same, Function.update_self]
    rfl
  · rw [Function.update_of_ne same, Function.update_of_ne (ne_of_held free holds)]
    exact (Destination.put_after_of_not_mem fun inOther =>
      same (wellFormed.arranged.eq_of_mem inOther member)).symm

end Inserting

theorem keeps_insertAfter {reference id : NodeId} (freeReference : ¬ held reference)
    (free : ¬ held id) : Keeps held document (document.perform (.insertAfter reference id)) := by
  have inserts := insertsAt wellFormed (.after reference) id
  have formed : (document.perform (.insertAfter reference id)).WellFormed :=
    wellFormed.perform (by simp [Operation.source?]) (by simp [Operation.template?])
  cases outcome : document.insertAt (.after reference) id with
  | error cause =>
      have unchanged : document.perform (.insertAfter reference id) = document :=
        inserts.unchanged ⟨cause, outcome⟩
      rw [unchanged]
      exact .refl wellFormed
  | ok edited =>
      obtain ⟨parent, inside⟩ := exists_parent_of_insertAt outcome
      have member : reference ∈ document.children parent :=
        wellFormed.arranged.parent?_eq_some_iff.1 inside
      by_cases beside : (Destination.after reference).Beside id
      · have stays : document.perform (.insertAfter reference id) = document :=
          inserts.stays beside
        rw [stays]
        exact .refl wellFormed
      · by_cases fragment : document.content? id = some .fragment
        · exact wellFormed.keeps_of_drained freeReference free member formed inserts.content?
            (inserts.drains outcome inside fragment)
        · exact wellFormed.keeps_of_moved freeReference free member formed inserts.content?
            (inserts.moves outcome inside fragment beside)

/-! ### Making new nodes -/

variable (present : ∀ id, held id → id < document.size)

include present

theorem keeps_create {content : Content} (plain : content.attributes = []) :
    Keeps held document (document.create content).1 := by
  refine .of_same (wellFormed.create (Content.hasDistinctNames_of_attributes_eq_nil plain)) ?_ ?_
  · intro id holds
    rw [content?_create, if_neg (Nat.ne_of_lt (present id holds))]
  · intro id _
    rw [wellFormed.children_create]

omit wellFormed in
theorem keeps_of_copiedIn {root : NodeId} {content : Content} {forest : Forest Content}
    (copied : CopiedIn document new root content forest) : Keeps held document new :=
  .of_same copied.wellFormed (fun id holds => copied.content? (present id holds))
    fun id holds => copied.children (present id holds)

theorem keeps_creates {operation : Operation} (creates : operation.Creates) :
    Keeps held document (document.perform operation) := by
  cases creates with
  | element name => exact wellFormed.keeps_create present rfl
  | text data => exact wellFormed.keeps_create present rfl
  | fragment => exact wellFormed.keeps_create present rfl
  | boundary => exact wellFormed.keeps_create present rfl
  | parse strict markup =>
      exact keeps_of_copiedIn present (wellFormed.copiedIn_parse strict markup)
  | @copyFrom source formed id =>
      refine .afterEdit wellFormed fun made => ?_
      cases copied : document.copyFrom source id with
      | error cause =>
          rw [copied] at made
          contradiction
      | ok copy =>
          rw [copied] at made
          obtain ⟨_, _, _, copiedIn⟩ := copiedIn_of_copyFrom wellFormed formed copied
          rw [← Except.ok.inj made]
          exact keeps_of_copiedIn present copiedIn

theorem keeps_splitText {id : NodeId} (free : ¬ held id) (position : Nat) :
    Keeps held document (document.perform (.splitText id position)) := by
  have splits := splitsAt wellFormed id position
  by_cases refused : ∃ cause, document.splitText id position = .error cause
  · rw [splits.unchanged refused]
    exact .refl wellFormed
  · obtain ⟨head, tail, text, measured⟩ := not_not.1 fun uncut => refused (splits.refused.2 uncut)
    obtain ⟨_, contents, rows, _⟩ := splits.divides text measured
    refine ⟨wellFormed.perform (by simp [Operation.source?]) (by simp [Operation.template?]),
      fun other holds => ?_,
      fun other => if other = id then other :: [document.size] else [other],
      fun other holds => ?_, fun other holds => ?_⟩
    · have notLast : other ≠ document.size := Nat.ne_of_lt (present other holds)
      rw [contents, Function.update_of_ne notLast, Function.update_of_ne (ne_of_held free holds)]
    · exact if_neg (ne_of_held free holds)
    · rw [rows]
      rfl

/-! ### Any number of operations -/

/-- An operation that spares nodes keeps them and their rows. -/
theorem keeps_perform {operation : Operation} (spares : operation.Spares held) :
    Keeps held document (document.perform operation) := by
  cases spares with
  | create creates => exact wellFormed.keeps_creates present creates
  | splitText free position => exact wellFormed.keeps_splitText present free position
  | setData free data => exact wellFormed.keeps_setData free data
  | insertAfter freeReference free => exact wellFormed.keeps_insertAfter freeReference free
  | detach free => exact wellFormed.keeps_detach free

/-- So do any number of them. -/
theorem keeps_foldl {operations : List Operation}
    (spare : ∀ operation ∈ operations, operation.Spares held) :
    Keeps held document (operations.foldl Document.perform document) := by
  induction operations generalizing document with
  | nil => exact .refl wellFormed
  | cons operation later inductionHypothesis =>
      rw [List.forall_mem_cons] at spare
      have first := wellFormed.keeps_perform present spare.1
      exact first.trans (inductionHypothesis first.wellFormed
        (fun id holds => first.lt_size holds (present id holds)) spare.2)

end WellFormed

/-! ## What stands below a held node -/

open Classical in
/-- Below a held node, held nodes stay in their places if no node but them has anything below it. -/
theorem Keeps.exists_spread (keeps : Keeps held old new) (oldFormed : old.WellFormed)
    {root : NodeId} (holds : held root)
    (inner : ∀ id ∈ old.descendants root, held id ∨ old.descendants id = []) :
    ∃ spread : NodeId → List NodeId, (∀ id, held id → spread id = [id]) ∧
      new.descendants root = (old.descendants root).flatMap spread := by
  obtain ⟨grow, alone, rows⟩ := keeps.children
  refine ⟨fun id => if held id then [id] else
    (grow id).flatMap fun other => other :: new.descendants other, fun id here => if_pos here, ?_⟩
  revert holds inner
  refine induction_on_children oldFormed.arranged oldFormed.acyclic (motive := fun id => held id →
    (∀ other ∈ old.descendants id, held other ∨ old.descendants other = []) →
      new.descendants id = (old.descendants id).flatMap _) ?_ root
  intro upper inductionHypothesis holds inner
  rw [keeps.wellFormed.descendants_eq_flatMap, rows upper holds,
    oldFormed.descendants_eq_flatMap upper, List.flatMap_assoc, List.flatMap_assoc]
  refine List.flatMap_congr fun child member => ?_
  have within : ∀ other ∈ child :: old.descendants child, other ∈ old.descendants upper := by
    intro other below
    rw [oldFormed.descendants_eq_flatMap upper]
    exact List.mem_flatMap.2 ⟨child, member, below⟩
  by_cases here : held child
  · rw [alone child here, List.flatMap_singleton, List.flatMap_cons, if_pos here,
      inductionHypothesis child member here fun other below =>
        inner other (within other (List.mem_cons_of_mem child below))]
    rfl
  · have bare := (inner child (within child List.mem_cons_self)).resolve_left here
    rw [bare, List.flatMap_singleton, if_neg here]

/-- Behind a node, everything stays as it is if all of it is held. -/
theorem Keeps.exists_earlier (keeps : Keeps held old new) (oldFormed : old.WellFormed)
    {root id : NodeId} (holds : held root)
    (inner : ∀ other ∈ old.descendants root, held other ∨ old.descendants other = [])
    {earlier later : List NodeId} (split : old.descendants root = earlier ++ id :: later)
    (behind : ∀ other ∈ later, held other) :
    ∃ before, new.descendants root = before ++ later := by
  obtain ⟨spread, alone, spreads⟩ := keeps.exists_spread oldFormed holds inner
  have same : later.flatMap spread = later := by
    rw [List.flatMap_congr fun other member => alone other (behind other member),
      List.flatMap_singleton']
  refine ⟨earlier.flatMap spread ++ spread id, ?_⟩
  rw [spreads, split, List.flatMap_append, List.flatMap_cons, same, List.append_assoc]

end Document

end MarkupTemplate
