import MarkupTemplate.Proofs.Document.Destinations
import MarkupTemplate.Proofs.Reachable

/-!
# Mutations of a tree

Inserting, removing and splitting rewrite five links in each of several nodes.  On the rows of
children they are operations on lists: putting nodes into a list, erasing one from it, and putting
a new one behind another.  The rows say all that links say, so this is all that happens; and a
refused mutation changes nothing.
-/

namespace MarkupTemplate

open Relation

/-- The operation that inserts a node at the destination. -/
def Destination.insertion : Destination → NodeId → Operation
  | .lastIn parent, id => .append parent id
  | .before reference, id => .insertBefore reference id
  | .after reference, id => .insertAfter reference id

namespace Document

/-! ## What the mutations do -/

/-- The node does not fit into the row of the parent: there is no such parent or it cannot have
children, there is no such node, or the node is the parent or lies above it. -/
def Misfits (document : Document) (parent id : NodeId) : Prop :=
  document.content? parent = none ∨
    (∃ container, document.content? parent = some container ∧ container.mayHaveChildren = false) ∨
    document.content? id = none ∨ ReflTransGen document.IsChild parent id

/-- What an insertion does: it is refused or puts the node into the row at the destination. -/
structure InsertsAt (document : Document) (destination : Destination) (id : NodeId) : Prop where
  refused : (∃ cause, document.insertAt destination id = .error cause) ↔
    destination.parent? document = none ∨
      ∃ parent, destination.parent? document = some parent ∧ document.Misfits parent id
  unchanged : (∃ cause, document.insertAt destination id = .error cause) →
    document.perform (destination.insertion id) = document
  content? : ∀ other,
    (document.perform (destination.insertion id)).content? other = document.content? other
  /-- A node stays if it is put beside itself. -/
  stays : destination.Beside id → document.perform (destination.insertion id) = document
  /-- Any other node leaves its row, and comes to stand at the destination. -/
  moves : ∀ {edited parent}, document.insertAt destination id = .ok edited →
    destination.parent? document = some parent → document.content? id ≠ some .fragment →
    ¬ destination.Beside id →
      (document.perform (destination.insertion id)).children =
        Function.update (fun other => (document.children other).erase id) parent
          (destination.put [id] ((document.children parent).erase id))
  /-- Of a fragment, the children leave it, and come to stand at the destination in order. -/
  drains : ∀ {edited parent}, document.insertAt destination id = .ok edited →
    destination.parent? document = some parent → document.content? id = some .fragment →
      (document.perform (destination.insertion id)).children =
        Function.update (Function.update document.children id []) parent
          (destination.put (document.children id) (document.children parent))

/-- What taking a node out of its place does: it leaves the row of its parent. -/
structure Removes (document : Document) (id : NodeId) : Prop where
  children : ∀ other, (document.perform (.detach id)).children other =
    if document.parent? id = some other then (document.children other).erase id
    else document.children other
  parent? : (document.perform (.detach id)).parent? id = none
  content? : ∀ other, (document.perform (.detach id)).content? other = document.content? other
  below : (document.perform (.detach id)).below id = document.below id

/-- What splitting a text does: it is refused or puts the rest behind what is left. -/
structure SplitsAt (document : Document) (id : NodeId) (position : Nat) : Prop where
  refused : (∃ cause, document.splitText id position = .error cause) ↔
    ¬ ∃ head tail, document.content? id = some (.text (String.ofList (head ++ tail))) ∧
      Text.byteSize head = position
  unchanged : (∃ cause, document.splitText id position = .error cause) →
    document.perform (.splitText id position) = document
  divides : ∀ {head tail}, document.content? id = some (.text (String.ofList (head ++ tail))) →
    Text.byteSize head = position →
      document.splitText id position =
        .ok (document.perform (.splitText id position), document.size) ∧
      (document.perform (.splitText id position)).content? =
        Function.update (Function.update document.content? id (some (.text (String.ofList head))))
          document.size (some (.text (String.ofList tail))) ∧
      (document.perform (.splitText id position)).children =
        (fun other => (Destination.after id).put [document.size] (document.children other)) ∧
      (document.perform (.splitText id position)).parent? document.size = document.parent? id

variable {document edited : Document} {destination : Destination} {parent id : NodeId}

/-! ## Inserting -/

theorem perform_insertion (destination : Destination) (id : NodeId) :
    document.perform (destination.insertion id) =
      document.afterEdit (document.insertAt destination id) := by
  cases destination <;> rfl

theorem perform_insertion_of_ok (inserted : document.insertAt destination id = .ok edited) :
    document.perform (destination.insertion id) = edited := by
  rw [perform_insertion, inserted]
  rfl

theorem perform_insertion_of_error {cause : Error}
    (refused : document.insertAt destination id = .error cause) :
    document.perform (destination.insertion id) = document := by
  rw [perform_insertion, refused]
  rfl

theorem exists_parent_of_insertAt (inserted : document.insertAt destination id = .ok edited) :
    ∃ parent, destination.parent? document = some parent := by
  cases inside : destination.parent? document with
  | some parent => exact ⟨parent, rfl⟩
  | none =>
      obtain ⟨cause, refused⟩ : ∃ cause, document.insertAt destination id = .error cause :=
        Destination.insertAt_of_orphan inside
      rw [inserted] at refused
      contradiction

theorem insertAt_refused_iff (wellFormed : document.WellFormed) :
    (∃ cause, document.insertAt destination id = .error cause) ↔
      destination.parent? document = none ∨
        ∃ parent, destination.parent? document = some parent ∧ document.Misfits parent id := by
  cases inside : destination.parent? document with
  | none => simpa using Destination.insertAt_of_orphan inside
  | some parent =>
      rw [Destination.insertAt_eq_insert inside]
      simpa [Misfits] using Destination.insert_refused_iff wellFormed

theorem insertsAt (wellFormed : document.WellFormed) (destination : Destination) (id : NodeId) :
    document.InsertsAt destination id where
  refused := insertAt_refused_iff wellFormed
  unchanged := by
    rintro ⟨cause, refused⟩
    exact perform_insertion_of_error refused
  content? := by
    intro other
    cases outcome : document.insertAt destination id with
    | error cause => rw [perform_insertion_of_error outcome]
    | ok edited =>
        obtain ⟨parent, inside⟩ := exists_parent_of_insertAt outcome
        rw [perform_insertion_of_ok outcome, Destination.content?_insertAt inside outcome]
  stays := by
    intro beside
    cases outcome : document.insertAt destination id with
    | error cause => exact perform_insertion_of_error outcome
    | ok edited =>
        obtain ⟨parent, inside⟩ := exists_parent_of_insertAt outcome
        rw [perform_insertion_of_ok outcome]
        exact Destination.insertAt_of_beside wellFormed inside outcome beside
  moves := by
    intro edited parent inserted inside notFragment apart
    rw [perform_insertion_of_ok inserted]
    exact Destination.children_insertAt wellFormed inside inserted notFragment apart
  drains := by
    intro edited parent inserted inside fragment
    rw [perform_insertion_of_ok inserted]
    exact Destination.children_insertAt_of_fragment wellFormed inside inserted fragment

/-! ## Removing -/

theorem removes (wellFormed : document.WellFormed) (id : NodeId) : document.Removes id := by
  have formed := wellFormed.detach id
  have rows := wellFormed.children_detach id
  refine ⟨fun other => ?_, ?_, fun other => content?_detach document id other, ?_⟩
  · have row : (document.perform (.detach id)).children other =
        (document.children other).erase id := congrFun rows other
    rw [row]
    split
    · rfl
    · rename_i elsewhere
      exact List.erase_of_not_mem fun member =>
        elsewhere (wellFormed.arranged.parent?_eq_some_iff.2 member)
  · refine (formed.arranged.orphan fun parent => ?_).1
    rw [rows]
    exact (wellFormed.arranged.nodup parent).not_mem_erase
  · refine below_eq_of_same wellFormed formed (fun other _ => content?_detach document id other) ?_
    intro other under
    rw [rows]
    refine List.erase_of_not_mem fun member => ?_
    exact wellFormed.acyclic id
      (TransGen.head' (wellFormed.arranged.isChild_iff.2 member) under)

/-! ## Splitting -/

section Splitting

variable {head tail : List Char} {position : Nat}

theorem splitText_refused_iff :
    (∃ cause, document.splitText id position = .error cause) ↔
      ¬ ∃ head tail, document.content? id = some (.text (String.ofList (head ++ tail))) ∧
        Text.byteSize head = position := by
  constructor
  · rintro ⟨cause, refused⟩ ⟨head, tail, present, measured⟩
    rw [splitText_of_text present measured] at refused
    contradiction
  · intro uncut
    cases outcome : document.splitText id position with
    | error cause => exact ⟨cause, rfl⟩
    | ok halves =>
        unfold splitText at outcome
        split at outcome
        · contradiction
        · rename_i data present
          split at outcome
          · rename_i head tail cut
            obtain ⟨whole, measured⟩ := Text.splitAtByte?_eq_some_iff.1 cut
            refine absurd ⟨head, tail, ?_, measured⟩ uncut
            rw [present, ← whole, String.ofList_toList]
          · contradiction
        · contradiction

theorem content?_divide {old : String} (present : document.content? id = some (.text old))
    (left right : String) :
    (document.divide id left right).1.content? =
      Function.update (Function.update document.content? id (some (.text left)))
        document.size (some (.text right)) := by
  have within := lt_size_of_content? present
  funext other
  rw [divide, content?_createAfter, size_setContent, content?_setContent]
  by_cases fresh : other = document.size
  · subst fresh
    rw [if_pos rfl, Function.update_self]
  · rw [if_neg fresh, Function.update_of_ne fresh]
    by_cases same : other = id
    · subst same
      rw [if_pos ⟨rfl, within⟩, Function.update_self]
    · rw [if_neg fun here => same here.1.symm, Function.update_of_ne same]

theorem children_divide (wellFormed : document.WellFormed) {old : String}
    (present : document.content? id = some (.text old)) (left right : String) :
    (document.divide id left right).1.children = fun other =>
      (Destination.after id).put [document.size] (document.children other) := by
  have formed := wellFormed.setText present left
  have rows := wellFormed.children_setContent id (.text left)
  funext other
  by_cases placed : ∃ parent, id ∈ document.children parent
  · obtain ⟨parent, member⟩ := placed
    obtain ⟨earlier, later, shape, absent, absentToo, _⟩ := Destination.exists_row wellFormed
      (wellFormed.arranged.parent?_eq_some_iff.2 member)
    have distinct : (Content.text right).HasDistinctNames :=
      Content.hasDistinctNames_of_attributes_eq_nil rfl
    have kept := (congrFun rows parent).trans shape
    have grown := formed.children_createAfter distinct (by simp) kept
    rw [divide, grown, rows, size_setContent]
    by_cases same : other = parent
    · subst same
      rw [Function.update_self, shape, Destination.put_after absent absentToo]
      rfl
    · rw [Function.update_of_ne same, Destination.put_after_of_not_mem]
      exact fun inOther => same (wellFormed.arranged.eq_of_mem inOther member)
  · push Not at placed
    have orphan : ∀ parent, id ∉ (document.setContent id (.text left)).children parent := by
      rwa [rows]
    rw [divide, formed.createAfter_of_orphan orphan, formed.children_create, rows,
      Destination.put_after_of_not_mem (placed other)]

/-- The new text has the parent of the one that was split. -/
theorem parent?_divide (wellFormed : document.WellFormed) {old : String}
    (present : document.content? id = some (.text old)) (left right : String) :
    (document.divide id left right).1.parent? document.size = document.parent? id := by
  have rows := children_divide wellFormed present left right
  have arranged := (wellFormed.divide present left right).arranged
  rw [rows] at arranged
  apply Option.ext
  intro parent
  rw [arranged.parent?_eq_some_iff, wellFormed.arranged.parent?_eq_some_iff]
  have fresh := wellFormed.not_mem_children_size parent
  constructor
  · intro inserted
    by_contra absent
    rw [Destination.put_after_of_not_mem absent] at inserted
    exact fresh inserted
  · intro member
    obtain ⟨earlier, later, shape, absent, absentToo, _⟩ := Destination.exists_row wellFormed
      (wellFormed.arranged.parent?_eq_some_iff.2 member)
    rw [shape, Destination.put_after absent absentToo]
    simp

theorem splitsAt (wellFormed : document.WellFormed) (id : NodeId) (position : Nat) :
    document.SplitsAt id position where
  refused := splitText_refused_iff
  unchanged := by
    rintro ⟨cause, refused⟩
    simp only [perform, refused]
    rfl
  divides := by
    intro head tail present measured
    have split := splitText_of_text present measured
    have performed : document.perform (.splitText id position) =
        (document.divide id (String.ofList head) (String.ofList tail)).1 := by
      simp only [perform, split]
      rfl
    have fresh : (document.divide id (String.ofList head) (String.ofList tail)).2 =
        document.size := by
      rw [divide, createAfter_snd, size_setContent]
    rw [performed]
    refine ⟨?_, content?_divide present _ _, children_divide wellFormed present _ _,
      parent?_divide wellFormed present _ _⟩
    rw [split, ← fresh]

end Splitting

/-! ## All mutations -/

/-- Mutations of a tree act on its rows of children as operations on lists do, and on nothing
else. -/
theorem mutations_act_on_rows (wellFormed : document.WellFormed) :
    (∀ destination id, document.InsertsAt destination id) ∧
      (∀ id, document.Removes id) ∧ ∀ id position, document.SplitsAt id position :=
  ⟨insertsAt wellFormed, removes wellFormed, splitsAt wellFormed⟩

/-- In a row of an element and a text, the text is put before its neighbour, and cut in two. -/
theorem mutations_of_two_siblings :
    let document := ((((empty.perform .createFragment).perform (.createElement "p")).perform
      (.createText "aé")).perform (.append 0 1)).perform (.append 0 2)
    document.children 0 = [1, 2] ∧
      (document.perform (.insertBefore 1 2)).children 0 = [2, 1] ∧
      (document.perform (.insertAfter 2 2)).children 0 = [1, 2] ∧
      (document.perform (.detach 1)).children 0 = [2] ∧
      (document.perform (.splitText 2 1)).children 0 = [1, 2, 3] ∧
      (∀ destination id, document.InsertsAt destination id) ∧
      (∀ id, document.Removes id) ∧ ∀ id position, document.SplitsAt id position := by
  intro document
  have reachable : document.Reachable :=
    ((((Reachable.empty.onward rfl rfl).onward rfl rfl).onward rfl rfl).onward rfl rfl).onward
      rfl rfl
  exact ⟨by decide, by decide, by decide, by decide, by decide,
    mutations_act_on_rows reachable.wellFormed⟩

end Document

end MarkupTemplate
