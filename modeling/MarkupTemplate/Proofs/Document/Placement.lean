import Mathlib.Logic.Function.Basic
import MarkupTemplate.Proofs.Document.Links

/-!
# Places among children

Taking a node out of its place erases it from the list of children that holds it, and putting it
in a place inserts it there.  Both are shown for the links as they are rewritten: first what
becomes of every single node, then of every link, and from that of the lists.
-/

namespace MarkupTemplate.Document

/-! ## Nodes after a change of links -/

/-- A node after another one was taken out of its place. -/
def Node.afterDetach (id : NodeId) (taken : Node) (other : NodeId) (node : Node) : Node :=
  { node with
    parent := if other = id then none else node.parent
    firstChild :=
      if taken.prevSibling = none ∧ taken.parent = some other then taken.nextSibling
      else node.firstChild
    lastChild :=
      if taken.nextSibling = none ∧ taken.parent = some other then taken.prevSibling
      else node.lastChild
    prevSibling :=
      if taken.nextSibling = some other then taken.prevSibling
      else if other = id then none else node.prevSibling
    nextSibling :=
      if taken.prevSibling = some other then taken.nextSibling
      else if other = id then none else node.nextSibling }

theorem node?_detach {document : Document} {id : NodeId} {taken : Node}
    (found : document.node? id = some taken) (other : NodeId) :
    (document.detach id).node? other =
      (document.node? other).map (Node.afterDetach id taken other) := by
  unfold detach setFollower setPreceder
  rw [found]
  rcases present : document.node? other with _ | ⟨content, parent, first, last, before, after⟩ <;>
    cases previous : taken.prevSibling <;> cases next : taken.nextSibling <;>
      cases above : taken.parent <;>
        simp [node?_update, present, Node.afterDetach, previous, next, above] <;> grind

/-- A node after another one was put in a place among the children of a parent. -/
def Node.afterAttach (parent : NodeId) (previous before : Option NodeId) (id other : NodeId)
    (node : Node) : Node :=
  { node with
    parent := if other = id then some parent else node.parent
    firstChild := if previous = none ∧ other = parent then some id else node.firstChild
    lastChild := if before = none ∧ other = parent then some id else node.lastChild
    prevSibling :=
      if before = some other then some id
      else if other = id then previous else node.prevSibling
    nextSibling :=
      if previous = some other then some id
      else if other = id then before else node.nextSibling }

/-- The node before a place among the children of a parent. -/
def preceding? (document : Document) (parent : NodeId) : Option NodeId → Option NodeId
  | some next => document.prevSibling? next
  | none => document.lastChild? parent

private theorem attach_eq (document : Document) (parent : NodeId) (before : Option NodeId)
    (id : NodeId) :
    document.attach parent before id =
      ((document.update id fun node =>
        { node with
          parent := some parent
          prevSibling := document.preceding? parent before
          nextSibling := before }).setFollower (some parent)
            (document.preceding? parent before) (some id)).setPreceder
              (some parent) before (some id) := by
  cases before <;> rfl

theorem node?_attach (document : Document) (parent : NodeId) (before : Option NodeId)
    (id other : NodeId) :
    (document.attach parent before id).node? other =
      (document.node? other).map
        (Node.afterAttach parent (document.preceding? parent before) before id other) := by
  rw [attach_eq]
  generalize document.preceding? parent before = previous
  unfold setFollower setPreceder
  rcases present : document.node? other with _ | ⟨content, above, first, last, earlier, later⟩ <;>
    cases previous <;> cases before <;>
      simp [node?_update, present, Node.afterAttach] <;> grind

/-! ## Taking a node out of its place -/

namespace Arranged

variable {document : Document} {kids : NodeId → List NodeId}

theorem detach_eq_self (arranged : Arranged document kids) {id : NodeId}
    (orphan : ∀ parent, id ∉ kids parent) : document.detach id = document := by
  obtain ⟨above, previous, next⟩ := arranged.orphan orphan
  cases found : document.node? id with
  | none => simp only [Document.detach, found]
  | some taken =>
      simp only [parent?, prevSibling?, nextSibling?, found, Option.bind_some]
        at above previous next
      obtain ⟨content, parent, first, last, before, after⟩ := taken
      simp only at above previous next
      subst above previous next
      apply ext_node?
      intro other
      rw [node?_detach found]
      by_cases same : other = id
      · subst same
        simp [found, Node.afterDetach]
      · cases document.node? other <;> simp [Node.afterDetach, same]

section Placed

variable {parent id : NodeId} {earlier later : List NodeId}

theorem exists_taken (arranged : Arranged document kids)
    (shape : kids parent = earlier ++ id :: later) :
    ∃ taken, document.node? id = some taken ∧ taken.parent = some parent ∧
      taken.prevSibling = earlier.getLast? ∧ taken.nextSibling = later.head? := by
  have member : id ∈ kids parent := by rw [shape]; simp
  obtain ⟨taken, found⟩ := exists_node_of_lt (arranged.lt_size_of_mem member)
  have links := arranged.child shape
  simp only [parent?, prevSibling?, nextSibling?, found, Option.bind_some] at links
  exact ⟨taken, found, links⟩

theorem parent?_detach (arranged : Arranged document kids)
    (shape : kids parent = earlier ++ id :: later) (other : NodeId) :
    (document.detach id).parent? other =
      if other = id then none else document.parent? other := by
  obtain ⟨taken, found, -⟩ := arranged.exists_taken shape
  unfold parent?
  rw [node?_detach found, Option.bind_map, Function.comp_def]
  split <;> simp_all [Node.afterDetach]

theorem firstChild?_detach (arranged : Arranged document kids)
    (shape : kids parent = earlier ++ id :: later) (other : NodeId) :
    (document.detach id).firstChild? other =
      if earlier = [] ∧ other = parent then later.head? else document.firstChild? other := by
  obtain ⟨taken, found, above, previous, next⟩ := arranged.exists_taken shape
  have member : id ∈ kids parent := by rw [shape]; simp
  obtain ⟨container, present⟩ := exists_node_of_lt (arranged.parent_lt_size_of_mem member)
  unfold firstChild?
  rw [node?_detach found, Option.bind_map, Function.comp_def]
  by_cases same : other = parent
  · subst same
    simp [present, Node.afterDetach, above, previous, next]
  · simp [Node.afterDetach, above, Ne.symm same, same]

theorem lastChild?_detach (arranged : Arranged document kids)
    (shape : kids parent = earlier ++ id :: later) (other : NodeId) :
    (document.detach id).lastChild? other =
      if later = [] ∧ other = parent then earlier.getLast? else document.lastChild? other := by
  obtain ⟨taken, found, above, previous, next⟩ := arranged.exists_taken shape
  have member : id ∈ kids parent := by rw [shape]; simp
  obtain ⟨container, present⟩ := exists_node_of_lt (arranged.parent_lt_size_of_mem member)
  unfold lastChild?
  rw [node?_detach found, Option.bind_map, Function.comp_def]
  by_cases same : other = parent
  · subst same
    simp [present, Node.afterDetach, above, previous, next]
  · simp [Node.afterDetach, above, Ne.symm same, same]

theorem prevSibling?_detach (arranged : Arranged document kids)
    (shape : kids parent = earlier ++ id :: later) (other : NodeId) :
    (document.detach id).prevSibling? other =
      if later.head? = some other then earlier.getLast?
      else if other = id then none else document.prevSibling? other := by
  obtain ⟨taken, found, above, previous, next⟩ := arranged.exists_taken shape
  unfold prevSibling?
  rw [node?_detach found, Option.bind_map, Function.comp_def]
  by_cases follows : later.head? = some other
  · have member : other ∈ kids parent := by
      rw [shape]
      exact List.mem_append_right earlier (List.mem_cons_of_mem id (List.mem_of_mem_head? follows))
    obtain ⟨sibling, present⟩ := exists_node_of_lt (arranged.lt_size_of_mem member)
    simp [present, Node.afterDetach, previous, next, follows]
  · by_cases same : other = id
    · subst same
      simp [found, Node.afterDetach, next, follows]
    · simp [Node.afterDetach, next, follows, same]

theorem nextSibling?_detach (arranged : Arranged document kids)
    (shape : kids parent = earlier ++ id :: later) (other : NodeId) :
    (document.detach id).nextSibling? other =
      if earlier.getLast? = some other then later.head?
      else if other = id then none else document.nextSibling? other := by
  obtain ⟨taken, found, above, previous, next⟩ := arranged.exists_taken shape
  unfold nextSibling?
  rw [node?_detach found, Option.bind_map, Function.comp_def]
  by_cases precedes : earlier.getLast? = some other
  · have member : other ∈ kids parent := by
      rw [shape]
      exact List.mem_append_left _ (List.mem_of_getLast? precedes)
    obtain ⟨sibling, present⟩ := exists_node_of_lt (arranged.lt_size_of_mem member)
    simp [present, Node.afterDetach, previous, next, precedes]
  · by_cases same : other = id
    · subst same
      simp [found, Node.afterDetach, previous, precedes]
    · simp [Node.afterDetach, previous, precedes, same]

end Placed

/-- Where a member of two lists in a row stands: in the second or in the first. -/
private theorem member_of_append_eq {earlier later before after : List NodeId} {child : NodeId}
    (split : earlier ++ later = before ++ child :: after) :
    (∃ between, before = earlier ++ between ∧ later = between ++ child :: after) ∨
      ∃ between, earlier = before ++ child :: between ∧ after = between ++ later := by
  rcases List.append_eq_append_iff.1 split with ⟨between, left, right⟩ | ⟨between, left, right⟩
  · exact Or.inl ⟨between, left, right⟩
  · cases between with
    | nil => exact Or.inl ⟨[], by simpa using left.symm, by simpa using right.symm⟩
    | cons first rest =>
        simp only [List.cons_append, List.cons.injEq] at right
        obtain ⟨rfl, rfl⟩ := right
        exact Or.inr ⟨rest, left, rfl⟩

private theorem head?_ne_some {ids : List NodeId} {id : NodeId} (absent : id ∉ ids) :
    ids.head? ≠ some id :=
  fun first => absent (List.mem_of_mem_head? first)

private theorem getLast?_ne_some {ids : List NodeId} {id : NodeId} (absent : id ∉ ids) :
    ids.getLast? ≠ some id :=
  fun last => absent (List.mem_of_getLast? last)

section Placed

variable {parent id child : NodeId} {earlier later before between after : List NodeId}

theorem links_detach_of_later (arranged : Arranged document kids)
    (shape : kids parent = earlier ++ id :: (between ++ child :: after)) :
    (document.detach id).parent? child = some parent ∧
      (document.detach id).prevSibling? child = (earlier ++ between).getLast? ∧
      (document.detach id).nextSibling? child = after.head? := by
  have nodup := arranged.nodup parent
  rw [shape, List.nodup_middle, List.nodup_cons, List.mem_append, not_or,
    List.nodup_append'] at nodup
  obtain ⟨⟨_, notLater⟩, _, nodupLater, disjoint⟩ := nodup
  have childLater : child ∈ between ++ child :: after := by simp
  have different : child ≠ id := fun equal => notLater (equal ▸ childLater)
  have notLast := getLast?_ne_some fun childEarlier => disjoint childEarlier childLater
  have place : kids parent = (earlier ++ id :: between) ++ child :: after := by
    rw [shape]
    simp
  obtain ⟨above, previous, next⟩ := arranged.child place
  rw [arranged.parent?_detach shape, arranged.prevSibling?_detach shape,
    arranged.nextSibling?_detach shape, if_neg different, if_neg different, if_neg notLast,
    if_neg different]
  cases between with
  | nil => exact ⟨above, by simp, next⟩
  | cons first between =>
      have notFirst : first ≠ child := by
        rintro rfl
        simp at nodupLater
      refine ⟨above, ?_, next⟩
      rw [if_neg (by simpa using notFirst), previous]
      simp [List.getLast?_append]

theorem links_detach_of_earlier (arranged : Arranged document kids)
    (shape : kids parent = (before ++ child :: between) ++ id :: later) :
    (document.detach id).parent? child = some parent ∧
      (document.detach id).prevSibling? child = before.getLast? ∧
      (document.detach id).nextSibling? child = (between ++ later).head? := by
  have nodup := arranged.nodup parent
  rw [shape, List.nodup_middle, List.nodup_cons, List.mem_append, not_or,
    List.nodup_append'] at nodup
  obtain ⟨⟨notEarlier, _⟩, nodupEarlier, _, disjoint⟩ := nodup
  have childEarlier : child ∈ before ++ child :: between := by simp
  have different : child ≠ id := fun equal => notEarlier (equal ▸ childEarlier)
  have notFirst := head?_ne_some fun childLater => disjoint childEarlier childLater
  have place : kids parent = before ++ child :: (between ++ id :: later) := by
    rw [shape]
    simp
  obtain ⟨above, previous, next⟩ := arranged.child place
  rw [arranged.parent?_detach shape, arranged.prevSibling?_detach shape,
    arranged.nextSibling?_detach shape, if_neg different, if_neg notFirst, if_neg different,
    if_neg different]
  refine ⟨above, previous, ?_⟩
  rcases List.eq_nil_or_concat' between with rfl | ⟨rest, last, rfl⟩
  · simp
  · have notLast : last ≠ child := by
      rintro rfl
      simp [List.nodup_append] at nodupEarlier
    have ends : (before ++ child :: (rest ++ [last])).getLast? = some last := by
      simp [List.getLast?_cons]
    rw [ends, if_neg (by simpa using notLast), next]
    simp [List.head?_append]

/-- The links of a node among the children of another parent stay. -/
theorem links_detach_of_apart (arranged : Arranged document kids)
    (shape : kids parent = earlier ++ id :: later) (apart : child ∉ kids parent) :
    (document.detach id).parent? child = document.parent? child ∧
      (document.detach id).prevSibling? child = document.prevSibling? child ∧
      (document.detach id).nextSibling? child = document.nextSibling? child := by
  rw [shape, List.mem_append, List.mem_cons, not_or, not_or] at apart
  obtain ⟨notEarlier, different, notLater⟩ := apart
  rw [arranged.parent?_detach shape, arranged.prevSibling?_detach shape,
    arranged.nextSibling?_detach shape, if_neg different, if_neg (head?_ne_some notLater),
    if_neg different, if_neg (getLast?_ne_some notEarlier), if_neg different]
  exact ⟨rfl, rfl, rfl⟩

theorem links_detach_self (arranged : Arranged document kids)
    (shape : kids parent = earlier ++ id :: later) :
    (document.detach id).parent? id = none ∧ (document.detach id).prevSibling? id = none ∧
      (document.detach id).nextSibling? id = none := by
  have nodup := arranged.nodup parent
  rw [shape, List.nodup_middle, List.nodup_cons, List.mem_append, not_or] at nodup
  rw [arranged.parent?_detach shape, arranged.prevSibling?_detach shape,
    arranged.nextSibling?_detach shape, if_pos rfl, if_neg (head?_ne_some nodup.1.2), if_pos rfl,
    if_neg (getLast?_ne_some nodup.1.1), if_pos rfl]
  exact ⟨rfl, rfl, rfl⟩

end Placed

theorem detach (arranged : Arranged document kids) (id : NodeId) :
    Arranged (document.detach id) fun parent => (kids parent).erase id := by
  by_cases placed : ∃ parent, id ∈ kids parent
  · obtain ⟨parent, member⟩ := placed
    obtain ⟨earlier, later, shape⟩ := List.append_of_mem member
    have nodup := arranged.nodup parent
    rw [shape, List.nodup_middle, List.nodup_cons, List.mem_append, not_or] at nodup
    have closed : (kids parent).erase id = earlier ++ later := by
      rw [shape, List.erase_append_right _ nodup.1.1, List.erase_cons_head]
    have elsewhere : ∀ other, other ≠ parent → (kids other).erase id = kids other := by
      intro other different
      exact List.erase_of_not_mem fun inOther => different (arranged.eq_of_mem inOther member)
    constructor
    · intro other
      have old := arranged.firstChild other
      rw [arranged.firstChild?_detach shape]
      by_cases same : other = parent
      · subst same
        rw [closed]
        cases earlier <;> simp_all
      · rw [elsewhere other same]
        simp [same, old]
    · intro other
      have old := arranged.lastChild other
      rw [arranged.lastChild?_detach shape]
      by_cases same : other = parent
      · subst same
        rw [closed]
        cases later <;> simp_all
      · rw [elsewhere other same]
        simp [same, old]
    · intro other child before after split
      by_cases same : other = parent
      · subst same
        simp only [closed] at split
        rcases member_of_append_eq split with ⟨between, rfl, rfl⟩ | ⟨between, rfl, rfl⟩
        · exact arranged.links_detach_of_later shape
        · exact arranged.links_detach_of_earlier shape
      · rw [elsewhere other same] at split
        have apart : child ∉ kids parent := by
          intro inParent
          exact same (arranged.eq_of_mem (by rw [split]; simp) inParent)
        obtain ⟨above, previous, next⟩ := arranged.links_detach_of_apart shape apart
        rw [above, previous, next]
        exact arranged.child split
    · intro child outside
      by_cases same : child = id
      · rw [same]
        exact arranged.links_detach_self shape
      · have stays : ∀ other, child ∉ kids other := fun other inOther =>
          outside other ((List.mem_erase_of_ne same).2 inOther)
        obtain ⟨above, previous, next⟩ := arranged.links_detach_of_apart shape (stays parent)
        rw [above, previous, next]
        exact arranged.orphan stays
    · intro other
      exact (arranged.nodup other).erase id
  · push Not at placed
    rw [arranged.detach_eq_self placed]
    have same : (fun parent => (kids parent).erase id) = kids := by
      funext parent
      exact List.erase_of_not_mem (placed parent)
    rwa [same]

/-! ## Putting a node in a place -/

section Placing

variable {parent id : NodeId} {earlier later : List NodeId}

theorem preceding?_eq (arranged : Arranged document kids)
    (shape : kids parent = earlier ++ later) :
    document.preceding? parent later.head? = earlier.getLast? := by
  cases later with
  | nil => simpa [preceding?, shape] using arranged.lastChild parent
  | cons next rest => exact (arranged.child shape).2.1

theorem node?_attach_eq (arranged : Arranged document kids)
    (shape : kids parent = earlier ++ later) (id other : NodeId) :
    (document.attach parent later.head? id).node? other =
      (document.node? other).map
        (Node.afterAttach parent earlier.getLast? later.head? id other) := by
  rw [node?_attach, arranged.preceding?_eq shape]

theorem parent?_attach (arranged : Arranged document kids)
    (shape : kids parent = earlier ++ later) (present : id < document.size) (other : NodeId) :
    (document.attach parent later.head? id).parent? other =
      if other = id then some parent else document.parent? other := by
  obtain ⟨node, found⟩ := exists_node_of_lt present
  unfold parent?
  rw [arranged.node?_attach_eq shape, Option.bind_map, Function.comp_def]
  by_cases same : other = id
  · subst same
    simp [found, Node.afterAttach]
  · simp [Node.afterAttach, same]

theorem firstChild?_attach (arranged : Arranged document kids)
    (shape : kids parent = earlier ++ later) (container : parent < document.size)
    (other : NodeId) :
    (document.attach parent later.head? id).firstChild? other =
      if earlier = [] ∧ other = parent then some id else document.firstChild? other := by
  obtain ⟨node, found⟩ := exists_node_of_lt container
  unfold firstChild?
  rw [arranged.node?_attach_eq shape, Option.bind_map, Function.comp_def]
  by_cases same : other = parent
  · subst same
    simp [found, Node.afterAttach]
  · simp [Node.afterAttach, same]

theorem lastChild?_attach (arranged : Arranged document kids)
    (shape : kids parent = earlier ++ later) (container : parent < document.size)
    (other : NodeId) :
    (document.attach parent later.head? id).lastChild? other =
      if later = [] ∧ other = parent then some id else document.lastChild? other := by
  obtain ⟨node, found⟩ := exists_node_of_lt container
  unfold lastChild?
  rw [arranged.node?_attach_eq shape, Option.bind_map, Function.comp_def]
  by_cases same : other = parent
  · subst same
    simp [found, Node.afterAttach]
  · simp [Node.afterAttach, same]

theorem prevSibling?_attach (arranged : Arranged document kids)
    (shape : kids parent = earlier ++ later) (present : id < document.size) (other : NodeId) :
    (document.attach parent later.head? id).prevSibling? other =
      if later.head? = some other then some id
      else if other = id then earlier.getLast? else document.prevSibling? other := by
  unfold prevSibling?
  rw [arranged.node?_attach_eq shape, Option.bind_map, Function.comp_def]
  by_cases follows : later.head? = some other
  · have member : other ∈ kids parent := by
      rw [shape]
      exact List.mem_append_right earlier (List.mem_of_mem_head? follows)
    obtain ⟨sibling, found⟩ := exists_node_of_lt (arranged.lt_size_of_mem member)
    simp [found, Node.afterAttach, follows]
  · by_cases same : other = id
    · subst same
      obtain ⟨node, found⟩ := exists_node_of_lt present
      simp [found, Node.afterAttach, follows]
    · simp [Node.afterAttach, follows, same]

theorem nextSibling?_attach (arranged : Arranged document kids)
    (shape : kids parent = earlier ++ later) (present : id < document.size) (other : NodeId) :
    (document.attach parent later.head? id).nextSibling? other =
      if earlier.getLast? = some other then some id
      else if other = id then later.head? else document.nextSibling? other := by
  unfold nextSibling?
  rw [arranged.node?_attach_eq shape, Option.bind_map, Function.comp_def]
  by_cases precedes : earlier.getLast? = some other
  · have member : other ∈ kids parent := by
      rw [shape]
      exact List.mem_append_left later (List.mem_of_getLast? precedes)
    obtain ⟨sibling, found⟩ := exists_node_of_lt (arranged.lt_size_of_mem member)
    simp [found, Node.afterAttach, precedes]
  · by_cases same : other = id
    · subst same
      obtain ⟨node, found⟩ := exists_node_of_lt present
      simp [found, Node.afterAttach, precedes]
    · simp [Node.afterAttach, precedes, same]

section Siblings

variable {child : NodeId} {before between after : List NodeId}

theorem links_attach_self (arranged : Arranged document kids)
    (shape : kids parent = earlier ++ later) (present : id < document.size)
    (fresh : id ∉ kids parent) :
    (document.attach parent later.head? id).parent? id = some parent ∧
      (document.attach parent later.head? id).prevSibling? id = earlier.getLast? ∧
      (document.attach parent later.head? id).nextSibling? id = later.head? := by
  rw [shape, List.mem_append, not_or] at fresh
  rw [arranged.parent?_attach shape present, arranged.prevSibling?_attach shape present,
    arranged.nextSibling?_attach shape present, if_pos rfl, if_neg (head?_ne_some fresh.2),
    if_pos rfl, if_neg (getLast?_ne_some fresh.1), if_pos rfl]
  exact ⟨rfl, rfl, rfl⟩

theorem links_attach_of_later (arranged : Arranged document kids)
    (shape : kids parent = earlier ++ (between ++ child :: after)) (present : id < document.size)
    (fresh : id ∉ kids parent) :
    (document.attach parent (between ++ child :: after).head? id).parent? child = some parent ∧
      (document.attach parent (between ++ child :: after).head? id).prevSibling? child =
        (earlier ++ id :: between).getLast? ∧
      (document.attach parent (between ++ child :: after).head? id).nextSibling? child =
        after.head? := by
  have nodup := arranged.nodup parent
  rw [shape, List.nodup_append'] at nodup
  rw [shape, List.mem_append, not_or] at fresh
  have childLater : child ∈ between ++ child :: after := by simp
  have different : child ≠ id := fun equal => fresh.2 (equal ▸ childLater)
  have notLast := getLast?_ne_some fun childEarlier => nodup.2.2 childEarlier childLater
  have place : kids parent = (earlier ++ between) ++ child :: after := by
    rw [shape]
    simp
  obtain ⟨above, previous, next⟩ := arranged.child place
  rw [arranged.parent?_attach shape present, arranged.prevSibling?_attach shape present,
    arranged.nextSibling?_attach shape present, if_neg different, if_neg different,
    if_neg notLast, if_neg different]
  cases between with
  | nil => exact ⟨above, by simp, next⟩
  | cons first between =>
      have notFirst : first ≠ child := by
        rintro rfl
        simp at nodup
      refine ⟨above, ?_, next⟩
      rw [if_neg (by simpa using notFirst), previous]
      simp [List.getLast?_append]

theorem links_attach_of_earlier (arranged : Arranged document kids)
    (shape : kids parent = (before ++ child :: between) ++ later) (present : id < document.size)
    (fresh : id ∉ kids parent) :
    (document.attach parent later.head? id).parent? child = some parent ∧
      (document.attach parent later.head? id).prevSibling? child = before.getLast? ∧
      (document.attach parent later.head? id).nextSibling? child =
        (between ++ id :: later).head? := by
  have nodup := arranged.nodup parent
  rw [shape, List.nodup_append'] at nodup
  rw [shape, List.mem_append, not_or] at fresh
  have childEarlier : child ∈ before ++ child :: between := by simp
  have different : child ≠ id := fun equal => fresh.1 (equal ▸ childEarlier)
  have notFirst := head?_ne_some fun childLater => nodup.2.2 childEarlier childLater
  have place : kids parent = before ++ child :: (between ++ later) := by
    rw [shape]
    simp
  obtain ⟨above, previous, next⟩ := arranged.child place
  rw [arranged.parent?_attach shape present, arranged.prevSibling?_attach shape present,
    arranged.nextSibling?_attach shape present, if_neg different, if_neg notFirst,
    if_neg different, if_neg different]
  refine ⟨above, previous, ?_⟩
  rcases List.eq_nil_or_concat' between with rfl | ⟨rest, last, rfl⟩
  · simp
  · have notLast : last ≠ child := by
      rintro rfl
      simp [List.nodup_append] at nodup
    have ends : (before ++ child :: (rest ++ [last])).getLast? = some last := by
      simp [List.getLast?_cons]
    rw [ends, if_neg (by simpa using notLast), next]
    simp [List.head?_append]

theorem links_attach_of_apart (arranged : Arranged document kids)
    (shape : kids parent = earlier ++ later) (present : id < document.size)
    (different : child ≠ id) (apart : child ∉ kids parent) :
    (document.attach parent later.head? id).parent? child = document.parent? child ∧
      (document.attach parent later.head? id).prevSibling? child = document.prevSibling? child ∧
      (document.attach parent later.head? id).nextSibling? child =
        document.nextSibling? child := by
  rw [shape, List.mem_append, not_or] at apart
  rw [arranged.parent?_attach shape present, arranged.prevSibling?_attach shape present,
    arranged.nextSibling?_attach shape present, if_neg different,
    if_neg (head?_ne_some apart.2), if_neg different, if_neg (getLast?_ne_some apart.1),
    if_neg different]
  exact ⟨rfl, rfl, rfl⟩

end Siblings

/-- A node without a place is inserted into the list of the parent's children. -/
theorem attach (arranged : Arranged document kids)
    (shape : kids parent = earlier ++ later) (container : parent < document.size)
    (present : id < document.size) (orphan : ∀ other, id ∉ kids other) :
    Arranged (document.attach parent later.head? id)
      (Function.update kids parent (earlier ++ id :: later)) := by
  have fresh := orphan parent
  constructor
  · intro other
    rw [arranged.firstChild?_attach shape container]
    by_cases same : other = parent
    · subst same
      have old := arranged.firstChild other
      cases earlier <;> simp_all
    · simp [same, arranged.firstChild other]
  · intro other
    rw [arranged.lastChild?_attach shape container]
    by_cases same : other = parent
    · subst same
      have old := arranged.lastChild other
      cases later <;> simp_all
    · simp [same, arranged.lastChild other]
  · intro other child before after split
    by_cases same : other = parent
    · subst same
      rw [Function.update_self] at split
      rcases member_of_append_eq split with ⟨between, rfl, rest⟩ | ⟨between, rfl, rfl⟩
      · cases between with
        | nil =>
            simp only [List.nil_append, List.cons.injEq] at rest
            obtain ⟨rfl, rfl⟩ := rest
            rw [List.append_nil]
            exact arranged.links_attach_self shape present fresh
        | cons first between =>
            simp only [List.cons_append, List.cons.injEq] at rest
            obtain ⟨rfl, rfl⟩ := rest
            exact arranged.links_attach_of_later shape present fresh
      · exact arranged.links_attach_of_earlier shape present fresh
    · rw [Function.update_of_ne same] at split
      have childThere : child ∈ kids other := by
        rw [split]
        simp
      have different : child ≠ id := fun equal => orphan other (equal ▸ childThere)
      have apart : child ∉ kids parent := fun inParent =>
        same (arranged.eq_of_mem childThere inParent)
      obtain ⟨above, previous, next⟩ :=
        arranged.links_attach_of_apart shape present different apart
      rw [above, previous, next]
      exact arranged.child split
  · intro child outside
    have outsideParent := outside parent
    rw [Function.update_self, List.mem_append, List.mem_cons, not_or, not_or] at outsideParent
    obtain ⟨notBefore, different, notAfter⟩ := outsideParent
    have apart : ∀ other, child ∉ kids other := by
      intro other inOther
      by_cases same : other = parent
      · subst same
        rw [shape, List.mem_append] at inOther
        exact inOther.elim notBefore notAfter
      · have outsideOther := outside other
        rw [Function.update_of_ne same] at outsideOther
        exact outsideOther inOther
    obtain ⟨above, previous, next⟩ :=
      arranged.links_attach_of_apart shape present different (apart parent)
    rw [above, previous, next]
    exact arranged.orphan apart
  · intro other
    by_cases same : other = parent
    · subst same
      have nodup := arranged.nodup other
      rw [shape] at nodup fresh
      rw [Function.update_self, List.nodup_middle, List.nodup_cons]
      exact ⟨fresh, nodup⟩
    · rw [Function.update_of_ne same]
      exact arranged.nodup other

end Placing

end Arranged

end MarkupTemplate.Document

