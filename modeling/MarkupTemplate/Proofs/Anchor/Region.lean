import MarkupTemplate.Proofs.Template.WellFormed

/-!
# Filling regions

The region of an anchor is a part of a row of children: it begins after the last node on its left,
or with the row, and ends before the first node on its right.  Binding the anchor puts a filling in
place of what stood there.  The filling may have been taken from elsewhere in the document; apart
from that no row of children changes, and no node but one of the filling changes what it is.
-/

namespace MarkupTemplate

open Document Relation

variable {document : Document}

namespace Anchor

variable {parent id after : NodeId} {left region right : List NodeId}

/-- What an anchor finds between its two siblings. -/
theorem regionNodes_of_row (wellFormed : document.WellFormed)
    (row : document.children parent = left ++ (region ++ after :: right)) :
    regionNodes document (.region left.getLast? after) = region := by
  cases left using List.reverseRecOn with
  | nil =>
      have shape : document.children parent = region ++ after :: right := row
      simp only [List.getLast?_nil, regionNodes, wellFormed.arranged.earlierSiblings_eq shape,
        List.reverse_reverse]
  | append_singleton first before =>
      have shape : document.children parent = first ++ before :: (region ++ after :: right) := by
        rw [row]
        simp
      have distinct := wellFormed.arranged.nodup parent
      rw [row] at distinct
      have ended : ∀ inside ∈ region, inside ≠ after := by
        rintro inside member rfl
        exact (List.nodup_append'.1 (List.nodup_append'.1 distinct).2.1).2.2 member
          List.mem_cons_self
      rw [List.getLast?_append_of_ne_nil _ (List.cons_ne_nil _ _), List.getLast?_singleton]
      simp only [regionNodes, wellFormed.arranged.laterSiblings_eq shape]
      rw [List.takeWhile_append_of_pos (by simpa using ended),
        List.takeWhile_cons_of_neg (by simp), List.append_nil]

/-! ## Taking nodes out of rows -/

@[simp]
theorem content?_clear (document : Document) (nodes : List NodeId) (id : NodeId) :
    (clear document nodes).content? id = document.content? id := by
  unfold clear
  induction nodes generalizing document with
  | nil => rfl
  | cons first rest inductionHypothesis =>
      rw [List.foldl_cons, inductionHypothesis, content?_detach]

@[simp]
theorem size_clear (document : Document) (nodes : List NodeId) :
    (clear document nodes).size = document.size := by
  unfold clear
  induction nodes generalizing document with
  | nil => rfl
  | cons first rest inductionHypothesis =>
      rw [List.foldl_cons, inductionHypothesis, size_detach]

theorem erase_eq_filter {ids : List NodeId} (distinct : ids.Nodup) (id : NodeId) :
    ids.erase id = ids.filter (· ∉ [id]) := by
  rw [distinct.erase_eq_filter]
  refine List.filter_congr fun other _ => ?_
  by_cases same : other = id <;> simp [same]

theorem filter_not_mem_eq_self {ids taken : List NodeId} (apart : ids.Disjoint taken) :
    ids.filter (· ∉ taken) = ids :=
  List.filter_eq_self.2 fun _ member => decide_eq_true (apart member)

theorem filter_not_mem_nil (ids : List NodeId) : ids.filter (· ∉ ([] : List NodeId)) = ids :=
  filter_not_mem_eq_self (List.disjoint_nil_right ids)

theorem children_clear (wellFormed : document.WellFormed) (nodes : List NodeId) (id : NodeId) :
    (clear document nodes).children id = (document.children id).filter (· ∉ nodes) := by
  induction nodes generalizing document with
  | nil => exact (filter_not_mem_nil _).symm
  | cons first rest inductionHypothesis =>
      change (clear (document.detach first) rest).children id = _
      rw [inductionHypothesis (wellFormed.detach first),
        congrFun (wellFormed.children_detach first) id,
        erase_eq_filter (wellFormed.arranged.nodup id), List.filter_filter]
      refine List.filter_congr fun other _ => ?_
      by_cases same : other = first <;> simp [same]

/-- Children of one node are not among those of another. -/
theorem disjoint_children (wellFormed : document.WellFormed) {nodes : List NodeId}
    (within : nodes ⊆ document.children parent) (different : id ≠ parent) :
    (document.children id).Disjoint nodes :=
  fun _ inRow inNodes => different (wellFormed.arranged.eq_of_mem inRow (within inNodes))

/-- Where a part of a row is cleared but for some of its nodes, these are left of it. -/
theorem filter_row {rest nodes kept : List NodeId} (distinct : (left ++ (region ++ rest)).Nodup)
    (within : nodes ⊆ region) (keeps : region.filter (· ∉ nodes) = kept) :
    (left ++ (region ++ rest)).filter (· ∉ nodes) = left ++ (kept ++ rest) := by
  rw [List.nodup_append', List.nodup_append', List.disjoint_append_right] at distinct
  obtain ⟨_, ⟨_, _, behind⟩, before, _⟩ := distinct
  rw [List.filter_append, List.filter_append, keeps,
    filter_not_mem_eq_self fun _ inLeft inNodes => before inLeft (within inNodes),
    filter_not_mem_eq_self fun _ inRest inNodes => behind (within inNodes) inRest]

/-! ## What filling a region does -/

/-- The filling stands in the row of the parent, and the nodes that were taken stand nowhere else.
Apart from that all rows are as they were, and so is what the nodes are that are not of the
filling. -/
structure Refills (old new : Document) (parent : NodeId) (left right taken filling : List NodeId) :
    Prop where
  wellFormed : new.WellFormed
  size_le : old.size ≤ new.size
  row : new.children parent =
    left.filter (· ∉ taken) ++ (filling ++ right.filter (· ∉ taken))
  children : ∀ {id}, id ≠ parent → new.children id = (old.children id).filter (· ∉ taken)
  content? : ∀ {id}, id < old.size → id ∉ filling → new.content? id = old.content? id

/-- Once the filling stands beside the old nodes of the region, these are taken out. -/
theorem refills_clear {old edited : Document} {rest nodes taken filling : List NodeId}
    (wellFormed : edited.WellFormed) (size_le : old.size ≤ edited.size)
    (row : edited.children parent =
      left.filter (· ∉ taken) ++ (region ++ rest.filter (· ∉ taken)))
    (children : ∀ {id}, id ≠ parent →
      edited.children id = (old.children id).filter (· ∉ taken))
    (content? : ∀ {id}, id < old.size → id ∉ filling →
      edited.content? id = old.content? id)
    (within : nodes ⊆ region) (keeps : region.filter (· ∉ nodes) = filling) :
    Refills old (clear edited nodes) parent left rest taken filling := by
  have distinct := wellFormed.arranged.nodup parent
  rw [row] at distinct
  have inRow : nodes ⊆ edited.children parent := by
    rw [row]
    exact fun _ member =>
      List.mem_append_right _ (List.mem_append_left _ (within member))
  refine ⟨wellFormed_clear wellFormed nodes, by simpa using size_le, ?_, ?_, ?_⟩
  · rw [children_clear wellFormed, row, filter_row distinct within keeps]
  · intro id different
    rw [children_clear wellFormed,
      filter_not_mem_eq_self (disjoint_children wellFormed inRow different), children different]
  · intro id within absent
    rw [content?_clear, content? within absent]

/-! ## Inserting before the end of a region -/

/-- What leaves its place when a node is inserted: the node, or the children of a fragment. -/
def carried (document : Document) (id : NodeId) : List NodeId :=
  if document.content? id = some .fragment then document.children id else [id]

section Inserting

variable {container content : Content} (wellFormed : document.WellFormed)
  (row : document.children parent = left ++ after :: right)
  (holder : document.content? parent = some container)
  (may : container.mayHaveChildren = true)
  (apart : ¬ ReflTransGen document.IsChild parent id)

include wellFormed row holder may apart

theorem refills_of_fragment (fragment : document.content? id = some .fragment) :
    Refills document ((document.children id).foldl
        (fun edited child => edited.move parent (some after) child) document)
      parent left (after :: right) (document.children id) (document.children id) := by
  have unequal : id ≠ parent := by
    rintro rfl
    exact apart ReflTransGen.refl
  obtain ⟨formed, rows⟩ := wellFormed.drain holder may rfl unequal apart row
  rw [List.head?_cons] at formed rows
  have outside := disjoint_children wellFormed (List.Subset.refl (document.children id))
    (Ne.symm unequal)
  rw [row, List.disjoint_append_left] at outside
  refine ⟨formed, Nat.le_of_eq (size_foldl_move ..).symm, ?_, ?_, fun _ _ =>
    content?_foldl_move ..⟩
  · rw [rows, Function.update_self, filter_not_mem_eq_self outside.1,
      filter_not_mem_eq_self outside.2, List.append_assoc]
  · intro other different
    rw [rows, Function.update_of_ne different]
    by_cases same : other = id
    · subst same
      rw [Function.update_self]
      exact (List.filter_eq_nil_iff.2 fun _ member => by simpa using member).symm
    · rw [Function.update_of_ne same,
        filter_not_mem_eq_self (disjoint_children wellFormed (List.Subset.refl _) same)]

theorem refills_of_single (found : document.content? id = some content)
    (notFragment : content ≠ .fragment) (different : id ≠ after) :
    Refills document (document.move parent (some after) id) parent left (after :: right) [id]
      [id] := by
  have insertable : WellFormed.Insertable document parent id :=
    ⟨⟨container, holder, may⟩, ⟨content, found, notFragment⟩, apart⟩
  have stays : (after :: right).filter (· ∉ [id]) = after :: right.filter (· ∉ [id]) :=
    List.filter_cons_of_pos (by simpa using Ne.symm different)
  have shape : (document.children parent).erase id =
      left.filter (· ∉ [id]) ++ (after :: right).filter (· ∉ [id]) := by
    rw [erase_eq_filter (wellFormed.arranged.nodup parent), row, List.filter_append]
  have formed := wellFormed.move insertable shape
  have rows := wellFormed.children_move insertable shape
  rw [stays, List.head?_cons] at formed rows
  refine ⟨formed, Nat.le_of_eq (size_move ..).symm, ?_, ?_, fun _ _ => content?_move ..⟩
  · rw [rows, Function.update_self, stays]
    rfl
  · intro other unequal
    rw [rows, Function.update_of_ne unequal]
    exact erase_eq_filter (wellFormed.arranged.nodup other) id

end Inserting

/-- A node that exists and does not lie above the parent can be inserted before the end of a
region.  It stands there afterwards, and every node is what it was. -/
theorem exists_insertBefore (wellFormed : document.WellFormed)
    (row : document.children parent = left ++ after :: right) (present : id < document.size)
    (apart : document.isInclusiveAncestor id parent = false) (different : id ≠ after) :
    ∃ edited, document.insertBefore after id = .ok edited ∧
      Refills document edited parent left (after :: right) (carried document id)
        (carried document id) ∧
      ∀ other, edited.content? other = document.content? other := by
  have member : after ∈ document.children parent := by
    rw [row]
    simp
  obtain ⟨container, holder⟩ := exists_content_of_lt
    (wellFormed.arranged.parent_lt_size_of_mem member)
  have may := wellFormed.container holder (List.ne_nil_of_mem member)
  obtain ⟨content, found⟩ := exists_content_of_lt present
  have notAbove : ¬ ReflTransGen document.IsChild parent id := by
    intro path
    rw [(isInclusiveAncestor_iff wellFormed.arranged wellFormed.acyclic).2 path] at apart
    contradiction
  have above := wellFormed.arranged.parent?_eq_some_iff.2 member
  unfold Document.insertBefore Document.insert
  simp only [above, holder, found, may, apart, Bool.not_true, Bool.false_eq_true, ↓reduceIte,
    Option.some.injEq, Ne.symm different]
  by_cases fragment : content = .fragment
  · subst fragment
    have all : carried document id = document.children id := if_pos found
    rw [if_pos rfl, all]
    exact ⟨_, rfl, refills_of_fragment wellFormed row holder may notAbove found,
      fun _ => content?_foldl_move ..⟩
  · have alone : carried document id = [id] := if_neg (by simpa [found] using fragment)
    rw [if_neg fragment, alone]
    exact ⟨_, rfl, refills_of_single wellFormed row holder may notAbove found fragment different,
      fun _ => content?_move ..⟩

/-! ## Filling a region -/

/-- The node that a text is put into: the first text of the region, or else a new node. -/
def textPlace (document : Document) (region : List NodeId) : NodeId :=
  (region.find? (isText document)).getD document.size

theorem textPlace_mem_or (document : Document) (region : List NodeId) :
    textPlace document region ∈ region ∨ textPlace document region = document.size := by
  unfold textPlace
  cases search : region.find? (isText document) with
  | some id => exact Or.inl (List.mem_of_find?_eq_some search)
  | none => exact Or.inr rfl

section Filling

variable (wellFormed : document.WellFormed)
  (row : document.children parent = left ++ (region ++ after :: right))

include wellFormed row

theorem nodup_region : region.Nodup := by
  have distinct := wellFormed.arranged.nodup parent
  rw [row] at distinct
  exact (List.nodup_append'.1 (List.nodup_append'.1 distinct).2.1).1

/-- A node of the region stands nowhere else in the row. -/
theorem not_mem_beside (member : id ∈ region) : id ∉ left ∧ id ∉ after :: right := by
  have distinct := wellFormed.arranged.nodup parent
  rw [row, List.nodup_append', List.nodup_append', List.disjoint_append_right] at distinct
  obtain ⟨_, ⟨_, _, behind⟩, before, _⟩ := distinct
  exact ⟨fun inLeft => before inLeft member, fun inRest => behind member inRest⟩

theorem filter_others (member : id ∈ region) :
    region.filter (· ∉ region.filter (· ≠ id)) = [id] := by
  have same : region.filter (· ∉ region.filter (· ≠ id)) = region.filter (· == id) := by
    refine List.filter_congr fun other among => ?_
    by_cases equal : other = id <;> simp [equal, among]
  rw [same, List.filter_beq, List.count_eq_one_of_mem (nodup_region wellFormed row) member]
  rfl

/-- Absent values leave a region empty. -/
theorem refills_of_absent :
    Refills document (clear document region) parent left (after :: right) [] [] := by
  refine refills_clear wellFormed (Nat.le_refl _) ?_ ?_ (fun _ _ => rfl)
    (List.Subset.refl region) ?_
  · rw [filter_not_mem_nil, filter_not_mem_nil, row]
  · intro id _
    rw [filter_not_mem_nil]
  · exact List.filter_eq_nil_iff.2 fun _ member => by simpa using member

theorem refills_of_text (data : String) (text : isText document id = true)
    (member : id ∈ region) :
    Refills document (clear (document.setContent id (.text data)) (region.filter (· ≠ id)))
      parent left (after :: right) [] [id] := by
  obtain ⟨old, found⟩ := exists_text_of_isText text
  have rows := wellFormed.children_setContent id (.text data)
  refine refills_clear (wellFormed.setText found data) (Nat.le_of_eq (size_setContent ..).symm)
    ?_ ?_ ?_ (List.filter_subset_self _) (filter_others wellFormed row member)
  · rw [rows, filter_not_mem_nil, filter_not_mem_nil, row]
  · intro other _
    rw [rows, filter_not_mem_nil]
  · intro other _ absent
    have different : id ≠ other := by simpa [eq_comm] using absent
    simp [different]

/-- A text stands alone in a region afterwards: in the region's first text, or else in a new one. -/
theorem refills_fillWithText (data : String) :
    (fillWithText document region after data).outcome = .ok () ∧
      Refills document (fillWithText document region after data).document parent left
        (after :: right) [] [textPlace document region] ∧
      ∀ other, (fillWithText document region after data).document.content? other =
        if other = textPlace document region then some (.text data)
        else document.content? other := by
  unfold fillWithText textPlace
  cases search : region.find? (isText document) with
  | some id =>
      have member := List.mem_of_find?_eq_some search
      have text := List.find?_some search
      obtain ⟨old, found⟩ := exists_text_of_isText text
      refine ⟨rfl, refills_of_text wellFormed row data text member, fun other => ?_⟩
      rw [content?_clear, content?_setContent]
      by_cases same : other = id
      · subst same
        simp [lt_size_of_content? found]
      · rw [if_neg fun here => same here.1.symm, Option.getD_some, if_neg same]
  | none =>
      have distinct : (Content.text data).HasDistinctNames :=
        Content.hasDistinctNames_of_attributes_eq_nil rfl
      have formed := wellFormed.create distinct
      have rows := wellFormed.children_create (.text data)
      have shape : (document.create (.text data)).1.children parent =
          (left ++ region) ++ after :: right := by
        rw [rows, row, List.append_assoc]
      have within : after ∈ document.children parent := by
        rw [row]
        simp
      have old := wellFormed.arranged.lt_size_of_mem within
      have fresh : ∀ other, (document.children other).Disjoint [document.size] := by
        intro other id inRow single
        rw [List.mem_singleton.1 single] at inRow
        exact wellFormed.not_mem_children_size other inRow
      have apart : (document.create (.text data)).1.isInclusiveAncestor document.size parent =
          false := by
        rw [← Bool.not_eq_true, isInclusiveAncestor_iff formed.arranged formed.acyclic]
        refine formed.apart_of_childless ?_
          (Nat.ne_of_lt (wellFormed.arranged.parent_lt_size_of_mem within))
        rw [rows, wellFormed.children_size]
      obtain ⟨edited, inserted, refills, contents⟩ := exists_insertBefore formed shape
        (by simp) apart (Nat.ne_of_gt old)
      have alone : carried (document.create (.text data)).1 document.size = [document.size] :=
        if_neg (by simp)
      have beside := fresh parent
      rw [row, List.disjoint_append_left, List.disjoint_append_left] at beside
      rw [alone] at refills
      have inserted' : (document.create (.text data)).1.insertBefore after
          (document.create (.text data)).2 = .ok edited := inserted
      simp only [inserted', Option.getD_none]
      refine ⟨trivial, ?_, fun other => by rw [content?_clear, contents, content?_create]⟩
      have shape : edited.children parent = left.filter (· ∉ ([] : List NodeId)) ++
          ((region ++ [document.size]) ++ (after :: right).filter (· ∉ ([] : List NodeId))) := by
        rw [refills.row, filter_not_mem_nil, filter_not_mem_nil,
          filter_not_mem_eq_self (List.disjoint_append_left.2 ⟨beside.1, beside.2.1⟩),
          filter_not_mem_eq_self beside.2.2]
        simp
      refine refills_clear refills.wellFormed (Nat.le_trans (by simp) refills.size_le) shape
        ?_ ?_ (List.subset_append_left ..) ?_
      · intro other different
        rw [refills.children different, rows, filter_not_mem_nil,
          filter_not_mem_eq_self (fresh other)]
      · intro other old absent
        rw [contents, content?_create, if_neg (Nat.ne_of_lt old)]
      · rw [List.filter_append, List.filter_eq_nil_iff.2 fun _ member => by simpa using member]
        refine filter_not_mem_eq_self fun other single inRegion => ?_
        exact beside.2.1 inRegion single

/-- A node that neither ends the region nor lies above it stands alone in it afterwards; of a
fragment, the children do. -/
theorem refills_fillWithNode (present : id < document.size)
    (apart : document.isInclusiveAncestor id parent = false) (notAfter : id ≠ after)
    (notBefore : left.getLast? ≠ some id) :
    (fillWithNode document region left.getLast? after id).outcome = .ok () ∧
      Refills document (fillWithNode document region left.getLast? after id).document parent left
        (after :: right) (carried document id) (carried document id) ∧
      ∀ other, (fillWithNode document region left.getLast? after id).document.content? other =
        document.content? other := by
  unfold fillWithNode
  rw [if_neg (not_or.2 ⟨notAfter, notBefore⟩)]
  by_cases member : id ∈ region
  · rw [if_pos (List.contains_iff_mem.2 member)]
    have inRow : id ∈ document.children parent := by
      rw [row]
      simp [member]
    have alone : carried document id = [id] :=
      if_neg fun fragment => wellFormed.fragment_not_mem fragment parent inRow
    have beside := not_mem_beside wellFormed row member
    refine ⟨rfl, ?_, fun other => content?_clear ..⟩
    rw [alone]
    refine refills_clear wellFormed (Nat.le_refl _) ?_ ?_ (fun _ _ => rfl)
      (List.filter_subset_self _) (filter_others wellFormed row member)
    · rw [row, filter_not_mem_eq_self (List.disjoint_singleton.2 beside.1),
        filter_not_mem_eq_self (List.disjoint_singleton.2 beside.2)]
    · intro other different
      refine (filter_not_mem_eq_self ?_).symm
      exact disjoint_children wellFormed (by simpa using inRow) different
  · rw [if_neg (by simpa using member)]
    have shape : document.children parent = (left ++ region) ++ after :: right := by
      rw [row, List.append_assoc]
    obtain ⟨edited, inserted, refills, contents⟩ :=
      exists_insertBefore wellFormed shape present apart notAfter
    have outside : region.Disjoint (carried document id) := by
      unfold carried
      split
      · intro other inRegion below
        have inRow : other ∈ document.children parent := by
          rw [row]
          simp [inRegion]
        have same := wellFormed.arranged.eq_of_mem inRow below
        rw [← Bool.not_eq_true, isInclusiveAncestor_iff wellFormed.arranged wellFormed.acyclic]
          at apart
        exact apart (same ▸ ReflTransGen.refl)
      · exact List.disjoint_singleton.2 member
    simp only [inserted]
    refine ⟨trivial, ?_, fun other => by rw [content?_clear, contents]⟩
    have behind : edited.children parent = left.filter (· ∉ carried document id) ++
        ((region ++ carried document id) ++
          (after :: right).filter (· ∉ carried document id)) := by
      rw [refills.row, List.filter_append, filter_not_mem_eq_self outside]
      simp
    refine refills_clear refills.wellFormed refills.size_le behind refills.children
      refills.content? (List.subset_append_left ..) ?_
    rw [List.filter_append, List.filter_eq_nil_iff.2 fun _ member => by simpa using member]
    exact filter_not_mem_eq_self (List.disjoint_comm.1 outside)

end Filling

end Anchor

end MarkupTemplate
