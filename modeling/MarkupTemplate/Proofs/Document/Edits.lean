import MarkupTemplate.Proofs.Document.Rows

/-!
# Edits of well-formed documents

The edits that callers ask for are made of the steps on rows of children: a new node is put in a
place, a fragment is emptied child by child, a text is divided in two.  Every one of them keeps a
document well formed, whatever nodes it is given and whether or not it is refused.
-/

namespace MarkupTemplate

theorem Content.hasDistinctNames_of_attributes_eq_nil {content : Content}
    (plain : content.attributes = []) : content.HasDistinctNames := by
  unfold HasDistinctNames
  rw [plain]
  exact List.nodup_nil

namespace Document

theorem createIn_fst (document : Document) (parent : NodeId) (content : Content) :
    (document.createIn parent content).1 =
      (document.create content).1.attach parent none document.size := rfl

@[simp]
theorem content?_createIn (document : Document) (parent : NodeId) (content : Content)
    (id : NodeId) :
    (document.createIn parent content).1.content? id =
      if id = document.size then some content else document.content? id := by
  simp [Document.createIn]

theorem createAfter_snd (document : Document) (id : NodeId) (content : Content) :
    (document.createAfter id content).2 = document.size := by
  unfold createAfter
  simp only
  split <;> rfl

theorem size_createAfter (document : Document) (id : NodeId) (content : Content) :
    (document.createAfter id content).1.size = document.size + 1 := by
  unfold createAfter
  simp only
  split <;> simp

@[simp]
theorem content?_createAfter (document : Document) (id : NodeId) (content : Content)
    (other : NodeId) :
    (document.createAfter id content).1.content? other =
      if other = document.size then some content else document.content? other := by
  unfold createAfter
  simp only
  split <;> simp

/-! ## What moving and inserting leave alone -/

theorem content?_foldl_move (document : Document) (parent : NodeId) (before : Option NodeId)
    (ids : List NodeId) (id : NodeId) :
    (ids.foldl (fun edited child => edited.move parent before child) document).content? id =
      document.content? id := by
  induction ids generalizing document with
  | nil => rfl
  | cons first rest inductionHypothesis =>
      rw [List.foldl_cons, inductionHypothesis, content?_move]

theorem size_foldl_move (document : Document) (parent : NodeId) (before : Option NodeId)
    (ids : List NodeId) :
    (ids.foldl (fun edited child => edited.move parent before child) document).size =
      document.size := by
  induction ids generalizing document with
  | nil => rfl
  | cons first rest inductionHypothesis =>
      rw [List.foldl_cons, inductionHypothesis, size_move]

theorem content?_insert {document edited : Document} {parent id : NodeId} {before : Option NodeId}
    (inserted : document.insert parent before id = .ok edited) (other : NodeId) :
    edited.content? other = document.content? other := by
  unfold Document.insert at inserted
  repeat' split at inserted
  all_goals first
    | contradiction
    | rw [← Except.ok.inj inserted]
  · exact content?_foldl_move ..
  · exact content?_move ..

namespace WellFormed

open Relation

variable {document : Document}

/-! ## New nodes in a place -/

theorem apart_of_childless (wellFormed : WellFormed document) {parent id : NodeId}
    (childless : document.children id = []) (different : parent ≠ id) :
    ¬ ReflTransGen document.IsChild parent id := by
  intro path
  rcases path.cases_tail with same | ⟨lower, _, child⟩
  · exact different same.symm
  · have member := wellFormed.arranged.isChild_iff.1 child
    rw [childless] at member
    contradiction

theorem children_size (wellFormed : WellFormed document) :
    document.children document.size = [] :=
  wellFormed.arranged.children_of_missing (Nat.le_refl _)

theorem not_mem_children_size (wellFormed : WellFormed document) (parent : NodeId) :
    document.size ∉ document.children parent :=
  wellFormed.arranged.not_mem_of_missing (Nat.le_refl _) parent

/-- A node that was just created may become a child of any element or fragment. -/
theorem insertable_create (wellFormed : WellFormed document) {parent : NodeId}
    {container content : Content} (present : document.content? parent = some container)
    (may : container.mayHaveChildren = true) (distinct : content.HasDistinctNames)
    (notFragment : content ≠ .fragment) :
    Insertable (document.create content).1 parent document.size := by
  have within := lt_size_of_content? present
  constructor
  · refine ⟨container, ?_, may⟩
    rw [content?_create, if_neg (Nat.ne_of_lt within), present]
  · refine ⟨content, ?_, notFragment⟩
    rw [content?_create, if_pos rfl]
  · apply (wellFormed.create distinct).apart_of_childless
    · rw [wellFormed.children_create, wellFormed.children_size]
    · exact Nat.ne_of_lt within

section NewNode

variable {parent : NodeId} {container content : Content} {earlier later : List NodeId}

theorem attach_create_eq_move (wellFormed : WellFormed document) (parent : NodeId)
    (before : Option NodeId) (content : Content) :
    (document.create content).1.attach parent before document.size =
      (document.create content).1.move parent before document.size := by
  have arranged := wellFormed.arranged.create content
  rw [Document.move, arranged.detach_eq_self wellFormed.not_mem_children_size]

theorem shape_create (wellFormed : WellFormed document)
    (shape : document.children parent = earlier ++ later) (content : Content) :
    ((document.create content).1.children parent).erase document.size = earlier ++ later := by
  rw [wellFormed.children_create, List.erase_of_not_mem (wellFormed.not_mem_children_size _),
    shape]

theorem attach_create (wellFormed : WellFormed document)
    (present : document.content? parent = some container)
    (may : container.mayHaveChildren = true) (distinct : content.HasDistinctNames)
    (notFragment : content ≠ .fragment) (shape : document.children parent = earlier ++ later) :
    WellFormed ((document.create content).1.attach parent later.head? document.size) := by
  rw [wellFormed.attach_create_eq_move]
  exact (wellFormed.create distinct).move
    (wellFormed.insertable_create present may distinct notFragment)
    (wellFormed.shape_create shape content)

theorem children_attach_create (wellFormed : WellFormed document)
    (present : document.content? parent = some container)
    (may : container.mayHaveChildren = true) (distinct : content.HasDistinctNames)
    (notFragment : content ≠ .fragment) (shape : document.children parent = earlier ++ later) :
    ((document.create content).1.attach parent later.head? document.size).children =
      Function.update document.children parent (earlier ++ document.size :: later) := by
  rw [wellFormed.attach_create_eq_move, (wellFormed.create distinct).children_move
    (wellFormed.insertable_create present may distinct notFragment)
    (wellFormed.shape_create shape content), wellFormed.children_create]
  congr 1
  funext other
  exact List.erase_of_not_mem (wellFormed.not_mem_children_size other)

theorem createIn (wellFormed : WellFormed document)
    (present : document.content? parent = some container)
    (may : container.mayHaveChildren = true) (distinct : content.HasDistinctNames)
    (notFragment : content ≠ .fragment) : WellFormed (document.createIn parent content).1 := by
  have formed := wellFormed.attach_create present may distinct notFragment
    (List.append_nil (document.children parent)).symm
  rwa [List.head?_nil, ← createIn_fst] at formed

theorem children_createIn (wellFormed : WellFormed document)
    (present : document.content? parent = some container)
    (may : container.mayHaveChildren = true) (distinct : content.HasDistinctNames)
    (notFragment : content ≠ .fragment) :
    (document.createIn parent content).1.children =
      Function.update document.children parent
        (document.children parent ++ [document.size]) := by
  have rows := wellFormed.children_attach_create present may distinct notFragment
    (List.append_nil (document.children parent)).symm
  rwa [List.head?_nil, ← createIn_fst] at rows

end NewNode

/-! ## New nodes after another -/

section AfterAnother

variable {parent id : NodeId} {earlier later : List NodeId}

theorem createAfter_of_child (wellFormed : WellFormed document)
    (shape : document.children parent = earlier ++ id :: later) (content : Content) :
    document.createAfter id content =
      ((document.create content).1.attach parent later.head? document.size, document.size) := by
  have arranged := wellFormed.arranged.create content
  obtain ⟨above, _, next⟩ := arranged.child shape
  unfold Document.createAfter
  simp only [above, next]
  rfl

theorem createAfter_of_orphan (wellFormed : WellFormed document)
    (orphan : ∀ parent, id ∉ document.children parent) (content : Content) :
    document.createAfter id content = document.create content := by
  have arranged := wellFormed.arranged.create content
  unfold Document.createAfter
  simp only [(arranged.orphan orphan).1]

theorem children_createAfter (wellFormed : WellFormed document) {content : Content}
    (distinct : content.HasDistinctNames) (notFragment : content ≠ .fragment)
    (shape : document.children parent = earlier ++ id :: later) :
    (document.createAfter id content).1.children =
      Function.update document.children parent (earlier ++ id :: document.size :: later) := by
  have member : id ∈ document.children parent := by
    rw [shape]
    simp
  obtain ⟨container, present⟩ := exists_content_of_lt
    (wellFormed.arranged.parent_lt_size_of_mem member)
  have may := wellFormed.container present (List.ne_nil_of_mem member)
  have behind : document.children parent = (earlier ++ [id]) ++ later := by
    rw [shape]
    simp
  rw [wellFormed.createAfter_of_child shape]
  have rows := wellFormed.children_attach_create present may distinct notFragment behind
  rw [rows]
  simp

theorem createAfter (wellFormed : WellFormed document) {content : Content}
    (distinct : content.HasDistinctNames) (notFragment : content ≠ .fragment) (id : NodeId) :
    WellFormed (document.createAfter id content).1 := by
  by_cases placed : ∃ parent, id ∈ document.children parent
  · obtain ⟨parent, member⟩ := placed
    obtain ⟨earlier, later, shape⟩ := List.append_of_mem member
    obtain ⟨container, present⟩ := exists_content_of_lt
      (wellFormed.arranged.parent_lt_size_of_mem member)
    have may := wellFormed.container present (List.ne_nil_of_mem member)
    have behind : document.children parent = (earlier ++ [id]) ++ later := by
      rw [shape]
      simp
    rw [wellFormed.createAfter_of_child shape]
    exact wellFormed.attach_create present may distinct notFragment behind
  · push Not at placed
    rw [wellFormed.createAfter_of_orphan placed]
    exact wellFormed.create distinct

end AfterAnother

/-! ## Emptying a fragment -/

section Draining

variable {parent source : NodeId}

/-- Moving the children of one node into a place under another one, one after the other. -/
theorem drain (wellFormed : WellFormed document) {ids earlier later : List NodeId}
    {container : Content} (present : document.content? parent = some container)
    (may : container.mayHaveChildren = true) (emptied : document.children source = ids)
    (different : source ≠ parent) (apart : ¬ ReflTransGen document.IsChild parent source)
    (shape : document.children parent = earlier ++ later) :
    WellFormed (ids.foldl (fun edited child => edited.move parent later.head? child) document) ∧
      (ids.foldl (fun edited child => edited.move parent later.head? child) document).children =
        Function.update (Function.update document.children source []) parent
          (earlier ++ ids ++ later) := by
  induction ids generalizing document earlier with
  | nil =>
      refine ⟨wellFormed, ?_⟩
      funext other
      by_cases same : other = parent
      · subst same
        simp [shape]
      · by_cases empty : other = source
        · subst empty
          simp [same, emptied]
        · simp [same, empty]
  | cons child rest inductionHypothesis =>
      have member : child ∈ document.children source := by
        rw [emptied]
        exact List.mem_cons_self
      have elsewhere : ∀ other, other ≠ source → child ∉ document.children other :=
        fun other unequal inOther => unequal (wellFormed.arranged.eq_of_mem inOther member)
      have childApart : ¬ ReflTransGen document.IsChild parent child := fun path =>
        apart (path.tail (wellFormed.arranged.isChild_iff.2 member))
      obtain ⟨content, found⟩ := exists_content_of_lt (wellFormed.arranged.lt_size_of_mem member)
      have insertable : Insertable document parent child := by
        refine ⟨⟨container, present, may⟩, ⟨content, found, ?_⟩, childApart⟩
        rintro rfl
        exact wellFormed.fragment_not_mem found source member
      have place : (document.children parent).erase child = earlier ++ later := by
        rw [List.erase_of_not_mem (elsewhere parent (Ne.symm different)), shape]
      have rows := wellFormed.children_move insertable place
      have formed := wellFormed.move insertable place
      have stillApart :
          ¬ ReflTransGen (document.move parent later.head? child).IsChild parent source := by
        intro path
        rcases reflTransGen_iff_eq_or_transGen.1 path with same | path
        · exact different same
        · rcases transGen_of_regrafted (wellFormed.isChild_of_isChild_move insertable place)
            childApart path with old | ⟨toChild, _⟩
          · exact apart old.to_reflTransGen
          · exact childApart toChild
      have grown : (document.move parent later.head? child).children parent =
          (earlier ++ [child]) ++ later := by
        rw [rows, Function.update_self]
        simp
      have step := inductionHypothesis formed
        (by rw [content?_move, present])
        (by rw [rows, Function.update_of_ne different, emptied, List.erase_cons_head])
        stillApart grown
      refine ⟨step.1, ?_⟩
      rw [List.foldl_cons, step.2, rows]
      funext other
      by_cases same : other = parent
      · subst same
        simp
      · by_cases empty : other = source
        · subst empty
          simp [same]
        · simp [same, empty, List.erase_of_not_mem (elsewhere other empty)]

end Draining

/-! ## Inserting -/

section Inserting

variable {parent id : NodeId} {before : Option NodeId} {edited : Document}

/-- Everything that an insertion which is not refused may have done. -/
theorem insert_cases (inserted : document.insert parent before id = .ok edited) :
    ∃ container content, document.content? parent = some container ∧
      container.mayHaveChildren = true ∧ document.content? id = some content ∧
      document.isInclusiveAncestor id parent = false ∧
      (content = .fragment ∧ edited = (document.children id).foldl
          (fun edited child => edited.move parent before child) document ∨
        content ≠ .fragment ∧ before = some id ∧ edited = document ∨
        content ≠ .fragment ∧ before ≠ some id ∧ edited = document.move parent before id) := by
  unfold Document.insert at inserted
  cases above : document.content? parent with
  | none => simp [above] at inserted
  | some container =>
      cases found : document.content? id with
      | none =>
          simp only [above, found] at inserted
          split at inserted <;> contradiction
      | some content =>
          simp only [above, found] at inserted
          refine ⟨container, content, rfl, ?_⟩
          by_cases may : container.mayHaveChildren = true
          · by_cases ancestor : document.isInclusiveAncestor id parent = true
            · simp [may, ancestor] at inserted
            · simp only [Bool.not_eq_true] at ancestor
              refine ⟨may, rfl, ancestor, ?_⟩
              by_cases fragment : content = .fragment
              · simp only [may, ancestor, fragment] at inserted
                exact Or.inl ⟨fragment, (Except.ok.inj inserted).symm⟩
              · by_cases same : before = some id
                · simp only [may, ancestor, fragment, same] at inserted
                  exact Or.inr (Or.inl ⟨fragment, same, (Except.ok.inj inserted).symm⟩)
                · simp only [may, ancestor, fragment, same] at inserted
                  exact Or.inr (Or.inr ⟨fragment, same, (Except.ok.inj inserted).symm⟩)
          · simp [may] at inserted

/-- Where a place is once a node was taken from among the children. -/
theorem exists_place_erase {ids earlier later : List NodeId} (shape : ids = earlier ++ later)
    (notNext : later.head? ≠ some id) :
    ∃ before after, ids.erase id = before ++ after ∧ after.head? = later.head? := by
  by_cases inEarlier : id ∈ earlier
  · exact ⟨earlier.erase id, later, by rw [shape, List.erase_append_left _ inEarlier], rfl⟩
  · refine ⟨earlier, later.erase id, by rw [shape, List.erase_append_right _ inEarlier], ?_⟩
    cases later with
    | nil => rfl
    | cons next rest =>
        have different : next ≠ id := by simpa using notNext
        rw [List.erase_cons_tail (by simpa using different)]
        rfl

/-- Inserting at a place among the children of the parent keeps a document well formed. -/
theorem insert (wellFormed : WellFormed document) {earlier later : List NodeId}
    (shape : document.children parent = earlier ++ later)
    (inserted : document.insert parent later.head? id = .ok edited) : WellFormed edited := by
  obtain ⟨container, content, present, may, found, notAncestor, outcome⟩ := insert_cases inserted
  have apart : ¬ ReflTransGen document.IsChild parent id := by
    intro path
    rw [(isInclusiveAncestor_iff wellFormed.arranged wellFormed.acyclic).2 path] at notAncestor
    contradiction
  rcases outcome with ⟨rfl, rfl⟩ | ⟨_, _, rfl⟩ | ⟨notFragment, notNext, rfl⟩
  · have different : id ≠ parent := by
      rintro rfl
      exact apart ReflTransGen.refl
    exact (wellFormed.drain present may rfl different apart shape).1
  · exact wellFormed
  · obtain ⟨before, after, place, next⟩ := exists_place_erase shape notNext
    rw [← next]
    exact wellFormed.move ⟨⟨container, present, may⟩, ⟨content, found, notFragment⟩, apart⟩ place

theorem append (wellFormed : WellFormed document)
    (appended : document.append parent id = .ok edited) : WellFormed edited := by
  have shape : document.children parent = document.children parent ++ [] :=
    (List.append_nil _).symm
  exact wellFormed.insert shape appended

theorem insertBefore (wellFormed : WellFormed document) {reference : NodeId}
    (inserted : document.insertBefore reference id = .ok edited) : WellFormed edited := by
  unfold Document.insertBefore at inserted
  cases above : document.parent? reference with
  | none => simp [above] at inserted
  | some parent =>
      simp only [above] at inserted
      obtain ⟨earlier, later, shape⟩ :=
        List.append_of_mem (wellFormed.arranged.parent?_eq_some_iff.1 above)
      rw [← List.head?_cons] at inserted
      exact wellFormed.insert shape inserted

theorem insertAfter (wellFormed : WellFormed document) {reference : NodeId}
    (inserted : document.insertAfter reference id = .ok edited) : WellFormed edited := by
  unfold Document.insertAfter at inserted
  cases above : document.parent? reference with
  | none => simp [above] at inserted
  | some parent =>
      simp only [above] at inserted
      obtain ⟨earlier, later, shape⟩ :=
        List.append_of_mem (wellFormed.arranged.parent?_eq_some_iff.1 above)
      have behind : document.children parent = (earlier ++ [reference]) ++ later := by
        rw [shape]
        simp
      rw [(wellFormed.arranged.child shape).2.2] at inserted
      exact wellFormed.insert behind inserted

end Inserting

end WellFormed

end Document

end MarkupTemplate
