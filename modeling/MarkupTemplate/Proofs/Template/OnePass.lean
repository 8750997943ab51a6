import MarkupTemplate.Proofs.Document.Copying
import MarkupTemplate.Proofs.Document.Visiting
import MarkupTemplate.Proofs.Template.Offsets

/-!
# Compiling in one pass

The slots of a template are found by walking through its tree once, and every text is split at its
markers as soon as the walk has given it out.  The walk has left the text by then, so it does not
come to the pieces; what it gives out is what stood below the root before anything was split.  So
compiling in one pass is the same as taking the nodes of the parsed tree one after the other.
-/

namespace MarkupTemplate

namespace Document

variable {document new : Document} {parent root id : NodeId} {earlier later : List NodeId}
  {held : NodeId → Prop}

/-! ## Texts below a root -/

/-- A text that stands below a root is a block in the row of its parent. -/
theorem WellFormed.exists_stands_text (wellFormed : document.WellFormed) {data : String}
    (present : document.content? id = some (.text data)) (below : id ∈ document.descendants root) :
    ∃ parent earlier later,
      document.Stands parent earlier later (Forest.single (id, .text data) .empty) := by
  obtain ⟨parent, child, _⟩ :=
    Relation.TransGen.head'_iff.1 (wellFormed.mem_descendants_iff.1 below)
  have member := wellFormed.arranged.isChild_iff.1 child
  obtain ⟨earlier, later, row⟩ := List.append_of_mem member
  have childless : document.children id = [] := by
    by_contra nonempty
    have may := wellFormed.container present nonempty
    contradiction
  exact ⟨parent, earlier, later, wellFormed, row,
    Forest.growsIn_single.2 ⟨present, childless, trivial⟩⟩

/-- Nodes are kept when another one is replaced by a block of new trees. -/
theorem Reworks.keeps {content : Content} {block : Forest (NodeId × Content)}
    (reworks : Reworks document new parent earlier later (Forest.single (id, content) .empty) block)
    (stands : document.Stands parent earlier later (Forest.single (id, content) .empty))
    (free : ¬ held id) (present : ∀ other, held other → other < document.size) :
    Keeps held document new := by
  have outside : ∀ other, held other →
      other ∉ (Forest.single (id, content) .empty : Forest (NodeId × Content)).ids := by
    intro other holds member
    rw [Forest.ids_single, Forest.ids_empty, List.mem_singleton] at member
    exact ne_of_held free holds member
  have distinct := stands.wellFormed.arranged.nodup parent
  rw [stands.row, Forest.rootIds_single, List.singleton_append, List.nodup_middle, List.nodup_cons,
    List.mem_append, not_or] at distinct
  have alone : ∀ row : List NodeId, id ∉ row →
      row.flatMap (fun other => if other = id then block.rootIds else [other]) = row := by
    intro row absent
    have single : ∀ other ∈ row, (if other = id then block.rootIds else [other]) = [other] :=
      fun other member => if_neg fun same : other = id => absent (same ▸ member)
    rw [List.flatMap_congr single, List.flatMap_singleton']
  refine ⟨reworks.stands.wellFormed, fun other holds => ?_,
    fun other => if other = id then block.rootIds else [other], fun other holds => ?_,
    fun other holds => ?_⟩
  · exact reworks.content? (present other holds) (outside other holds)
  · exact if_neg (ne_of_held free holds)
  · by_cases same : other = parent
    · rw [same, reworks.stands.row, stands.row, Forest.rootIds_single, List.singleton_append,
        List.flatMap_append, List.flatMap_cons, alone earlier distinct.1.1,
        alone later distinct.1.2, if_pos rfl]
    · rw [reworks.children (present other holds) (outside other holds) same]
      refine (alone _ fun member => same ?_).symm
      exact stands.wellFormed.arranged.eq_of_mem member (stands.subset (List.mem_singleton_self id))

end Document

namespace Template

open Document

/-! ## The pass -/

/-- Find the slots at a node that a walk has given out, where a text is split at the byte positions
of its markers. -/
def visitSites (marker : String) (document : Document) (id : NodeId) :
    Except Error (Document × List Site) :=
  match document.content? id with
  | some (.element _ attributes) =>
      let marked := attributes.filter fun entry => entry.value = marker
      .ok (document, marked.map fun entry => .attributeValue id entry.name)
  | some (.text data) =>
      (splitAtMarkers marker.toList data.toList.length document id).map fun split =>
        (split.1, split.2.map .region)
  | _ => .ok (document, [])

/-- Walk on and find the slots at every node that is given out.  The next node is fixed in the
document as it is before the slots are found. -/
def walkSites (marker : String) : Nat → Document → Walker → Except Error (Document × List Site)
  | 0, document, _ => .ok (document, [])
  | steps + 1, document, walker =>
      match walker.upcoming with
      | none => .ok (document, [])
      | some id => do
          let here ← visitSites marker document id
          let others ← walkSites marker steps here.1 (walker.advance document)
          return (others.1, here.2 ++ others.2)

/-- Compile the fragments of a template with one walk through their tree. -/
def compileInOnePass (options : CompileOptions) (fragments : List String) :
    Except Error Template :=
  let expected := fragments.length - 1
  if options.marker.isEmpty then
    .error (.slotCountMismatch expected 0 (shown fragments))
  else
    let parsed :=
      Document.empty.parse options.strict (String.intercalate options.marker fragments)
    match parsed.fault? with
    | some fault => .error (.parse fault)
    | none => do
        let found ← walkSites options.marker parsed.document.size parsed.document
          (Walker.start parsed.document parsed.root)
        if found.2.length = expected then
          let slots ← found.2.mapM (slotAt found.1 parsed.root)
          return { document := found.1, root := parsed.root, slots }
        else
          throw (.slotCountMismatch expected found.2.length (shown fragments))

variable {marker : String} {document : Document} {walker : Walker} {root id : NodeId}
  {later : List NodeId}

/-! ## One node -/

/-- Splitting the texts below a root is never refused, and finds the slots in them. -/
theorem visitSites_eq (marked : marker.toList ≠ []) (wellFormed : document.WellFormed)
    (below : id ∈ document.descendants root) :
    visitSites marker document id = .ok (findSites marker document id) := by
  cases carried : document.content? id with
  | none => simp only [visitSites, findSites, carried]
  | some content =>
      cases content with
      | text data =>
          obtain ⟨parent, earlier, later, stands⟩ := wellFormed.exists_stands_text carried below
          have split := splitAtMarkers_eq marked (Text.length_occurrences_le marked data.toList)
            (by rwa [String.ofList_toList])
          simp only [visitSites, findSites, carried, split, Except.map]
      | _ => simp only [visitSites, findSites, carried]

theorem findSites_of_hidden (hidden : document.isVisible id = false) :
    findSites marker document id = (document, []) := by
  unfold findSites
  unfold isVisible at hidden
  cases carried : document.content? id with
  | none => rfl
  | some content =>
      rw [carried] at hidden
      cases content <;> first | rfl | contradiction

theorem findAllSites_of_hidden {ids : List NodeId}
    (hidden : ∀ id ∈ ids, document.isVisible id = false) :
    findAllSites marker document ids = (document, []) := by
  induction ids with
  | nil => rfl
  | cons first rest inductionHypothesis =>
      rw [List.forall_mem_cons] at hidden
      rw [findAllSites, findSites_of_hidden hidden.1, inductionHypothesis hidden.2]
      rfl

/-- Only a text that is not empty is cut. -/
theorem findSites_fst_of_uncut (marked : marker.toList ≠ [])
    (uncut : ∀ data, data ≠ "" → document.content? id ≠ some (.text data)) :
    (findSites marker document id).1 = document := by
  unfold findSites
  cases carried : document.content? id with
  | none => rfl
  | some content =>
      cases content with
      | text data =>
          obtain rfl : data = "" := by
            by_contra nonempty
            exact uncut data nonempty carried
          have few := Text.length_occurrences_le marked "".toList
          have single : (Text.pieces marker.toList "".toList).length = 1 := by
            rw [Text.length_pieces, Nat.le_zero.1 few]
          simp only [Text.pieces_eq_singleton single]
          rfl
      | _ => rfl

/-- Finding the slots at a node leaves every other node below the root in its place. -/
theorem keeps_findSites (marked : marker.toList ≠ []) (wellFormed : document.WellFormed)
    (below : id ∈ document.descendants root) :
    Keeps (document.IsFixed root id) document (findSites marker document id).1 := by
  by_cases cut : ∃ data, data ≠ "" ∧ document.content? id = some (.text data)
  · obtain ⟨data, nonempty, carried⟩ := cut
    obtain ⟨parent, earlier, later, stands⟩ := wellFormed.exists_stands_text carried below
    obtain ⟨_, reworks, _⟩ := reworks_findSites_text marked nonempty stands
    exact reworks.keeps stands (not_isFixed_text carried) fun other fixed =>
      wellFormed.lt_size_of_mem_tree (wellFormed.root_lt_size below) fixed.1
  · rw [findSites_fst_of_uncut marked fun data nonempty carried => cut ⟨data, nonempty, carried⟩]
    exact .refl wellFormed

/-! ## The whole pass -/

/-- A walk finds the slots at all nodes that are before it. -/
theorem walkSites_eq (marked : marker.toList ≠ []) (wellFormed : document.WellFormed)
    (hasBefore : walker.HasBefore document later) {steps : Nat}
    (enough : (later.filter document.isVisible).length ≤ steps) :
    walkSites marker steps document walker = .ok (findAllSites marker document later) := by
  induction steps generalizing document walker later with
  | zero =>
      have noneVisible : later.filter document.isVisible = [] :=
        List.length_eq_zero_iff.1 (Nat.le_zero.1 enough)
      rw [findAllSites_of_hidden (by simpa using noneVisible)]
      rfl
  | succ steps inductionHypothesis =>
      cases given : walker.upcoming with
      | none =>
          have ended := hasBefore.upcoming
          rw [given] at ended
          have noneVisible := List.find?_eq_none.1 ended.symm
          rw [walkSites, given, findAllSites_of_hidden (by simpa using noneVisible)]
      | some id =>
          have below := hasBefore.mem_descendants given
          have keeps := keeps_findSites marked wellFormed below
          obtain ⟨passed, rest, rfl, hidden, visible, same, onward⟩ :=
            hasBefore.onward_of_keeps wellFormed given keeps
          have others := inductionHypothesis keeps.wellFormed onward (by
            rw [same]
            rw [visible, List.length_cons] at enough
            omega)
          rw [walkSites, given, findAllSites_append, findAllSites_of_hidden hidden, findAllSites]
          simp only [visitSites_eq marked wellFormed below, bind, Except.bind, others,
            List.nil_append]
          rfl

/-- Below a root, one walk finds the slots that are found at one node after the other. -/
theorem walkSites_start (marked : marker.toList ≠ []) (wellFormed : document.WellFormed)
    (root : NodeId) :
    walkSites marker document.size document (Walker.start document root) =
      .ok (findAllSites marker document (document.descendants root)) :=
  walkSites_eq marked wellFormed (Walker.hasBefore_start wellFormed root)
    (Nat.le_trans (List.length_filter_le _ _) (wellFormed.length_descendants_le root))

/-- A compilation walks through the parsed tree once, is not refused anywhere on the way, and comes
to the template of that tree. -/
theorem compile_eq_compileInOnePass (options : CompileOptions) (fragments : List String) :
    compile options fragments = compileInOnePass options fragments := by
  unfold compile compileInOnePass
  by_cases unmarked : options.marker.isEmpty = true
  · rw [if_pos unmarked, if_pos unmarked]
  · have marked : options.marker.toList ≠ [] := by
      simpa using unmarked
    have wellFormed := (wellFormed_empty.copiedIn_parse options.strict
      (String.intercalate options.marker fragments)).wellFormed
    rw [if_neg unmarked, if_neg unmarked]
    generalize Document.empty.parse options.strict (String.intercalate options.marker fragments) =
      parsed at wellFormed
    dsimp only
    cases parsed.fault? with
    | some fault => rfl
    | none =>
        simp only [walkSites_start marked wellFormed, bind, Except.bind]
        split
        · cases List.mapM (m := Except Error) _ _ <;> rfl
        · rfl

end Template

end MarkupTemplate
