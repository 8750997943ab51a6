import MarkupTemplate.Proofs.Document.Blocks
import MarkupTemplate.Proofs.Markup.Writable
import MarkupTemplate.Template.Compile

/-!
# Cutting texts around markers

To find the slots of a template its tree is gone through once, and every text is cut around the
markers in it.  What the tree becomes is known beforehand from its contents alone: in place of the
text there are its pieces, and between each two of them an empty text and a boundary.  Since the
parsed tree has no empty texts, the slots are found again in the new tree at its empty texts and
at the attributes that have the marker as their value.
-/

namespace MarkupTemplate

open Document

/-! ## The new tree -/

namespace Forest

/-- A piece of a text, unless it is empty. -/
def piece (characters : List Char) : Forest Content :=
  if characters.isEmpty then .empty else single (.text (String.ofList characters)) .empty

/-- The pieces of a text with a slot between each two of them. -/
def cutRow : List (List Char) → Forest Content
  | [] => .empty
  | [last] => piece last
  | first :: next :: rest =>
      piece first ++
        (single (.text "") .empty ++ (single .boundary .empty ++ cutRow (next :: rest)))

/-- The forest with every text cut around its markers. -/
def isolated (marker : List Char) : Forest Content → Forest Content
  | .empty => .empty
  | .plant (.text data) _ siblings =>
      cutRow (Text.pieces marker data.toList) ++ siblings.isolated marker
  | .plant content children siblings =>
      .plant content (children.isolated marker) (siblings.isolated marker)

/-- What holds of texts that are not empty and of slots holds of the pieces of a text. -/
theorem cutRow_induction {Holds : Forest Content → Prop} (empty : Holds .empty)
    (text : ∀ data, data ≠ "" → Holds (single (.text data) .empty))
    (slot : Holds (single (.text "") .empty ++ single .boundary .empty))
    (append : ∀ {earlier later}, Holds earlier → Holds later → Holds (earlier ++ later))
    (pieces : List (List Char)) : Holds (cutRow pieces) := by
  have holdsPiece : ∀ characters, Holds (piece characters) := by
    intro characters
    unfold piece
    split
    · exact empty
    · rename_i nonempty
      refine text _ ?_
      rw [ne_eq, String.ofList_eq_empty_iff]
      simpa using nonempty
  induction pieces with
  | nil => exact empty
  | cons first others inductionHypothesis =>
      cases others with
      | nil => exact holdsPiece first
      | cons next rest =>
          have onward := append slot inductionHypothesis
          rw [append_assoc] at onward
          exact append (holdsPiece first) onward

end Forest

namespace Template

/-- The slots at a node of a tree whose texts have been cut. -/
def sitesAt (marker : String) (label : NodeId × Content) : List Site :=
  match label.2 with
  | .element _ attributes =>
      (attributes.filter fun entry => entry.value = marker).map fun entry =>
        .attributeValue label.1 entry.name
  | .text data => if data = "" then [.region label.1] else []
  | _ => []

/-- The slots of a forest whose texts have been cut, in document order. -/
def sites (marker : String) (forest : Forest (NodeId × Content)) : List Site :=
  forest.labels.flatMap (sitesAt marker)

theorem sites_append (marker : String) (earlier later : Forest (NodeId × Content)) :
    sites marker (earlier ++ later) = sites marker earlier ++ sites marker later := by
  simp [sites]

theorem sites_single (marker : String) (label : NodeId × Content)
    (children : Forest (NodeId × Content)) :
    sites marker (Forest.single label children) =
      sitesAt marker label ++ sites marker children := by
  simp [sites, Forest.single, Forest.labels]

@[simp]
theorem sites_empty (marker : String) : sites marker .empty = [] := rfl

/-! ## One cut -/

variable {document : Document} {parent : NodeId} {earlier later : List NodeId} {id : NodeId}

theorem size_divide (document : Document) (id : NodeId) (head tail : String) :
    (document.divide id head tail).1.size = document.size + 1 := by
  rw [divide, size_createAfter, size_setContent]

theorem divide_snd (document : Document) (id : NodeId) (head tail : String) :
    (document.divide id head tail).2 = document.size := by
  rw [divide, createAfter_snd, size_setContent]

/-- A text cut once: its first piece is followed by a new empty text, a boundary, and a new text
with what remains. -/
def cutOnce (document : Document) (id : NodeId) (piece remaining : List Char) : Document :=
  let divided := (document.divide id (String.ofList piece) "").1
  let continued := (divided.createAfter document.size (.text (String.ofList remaining))).1
  let bounded := (continued.createAfter document.size .boundary).1
  if piece.isEmpty then bounded.detach id else bounded

theorem isolate_cons_cons (marker : List Char) (document : Document) (id : NodeId)
    (piece next : List Char) (rest : List (List Char)) :
    isolate marker document id (piece :: next :: rest) =
      if (marker.intercalate (next :: rest)).isEmpty then
        ((cutOnce document id piece (marker.intercalate (next :: rest))).detach
          (document.size + 1), [document.size])
      else
        ((isolate marker (cutOnce document id piece (marker.intercalate (next :: rest)))
            (document.size + 1) (next :: rest)).1,
          document.size ::
            (isolate marker (cutOnce document id piece (marker.intercalate (next :: rest)))
              (document.size + 1) (next :: rest)).2) := by
  rw [isolate]
  simp only [divide_snd, createAfter_snd, size_divide]
  rfl

/-- A piece of a text at its node. -/
def keptPiece (id : NodeId) (piece : List Char) : Forest (NodeId × Content) :=
  if piece.isEmpty then .empty else Forest.single (id, .text (String.ofList piece)) .empty

theorem contents_keptPiece (id : NodeId) (piece : List Char) :
    (keptPiece id piece).contents = Forest.piece piece := by
  unfold keptPiece Forest.piece
  split <;> rfl

theorem sites_keptPiece (marker : String) (id : NodeId) (piece : List Char) :
    sites marker (keptPiece id piece) = [] := by
  unfold keptPiece
  split
  · rfl
  · rename_i nonempty
    have spelled : String.ofList piece ≠ "" := by
      rw [ne_eq, String.ofList_eq_empty_iff]
      simpa using nonempty
    simp [sites_single, sitesAt, spelled]

theorem hasDistinctNames_text (data : String) : (Content.text data).HasDistinctNames :=
  Content.hasDistinctNames_of_attributes_eq_nil rfl

/-- The trees that one cut leaves in place of a text. -/
def cutOnceRow (fresh : Nat) (id : NodeId) (piece remaining : List Char) :
    Forest (NodeId × Content) :=
  keptPiece id piece ++ (Forest.single (fresh, .text "") .empty ++
    (Forest.single (fresh + 2, .boundary) .empty ++
      Forest.single (fresh + 1, .text (String.ofList remaining)) .empty))

theorem reworks_cutOnce {data : String}
    (stands : document.Stands parent earlier later (Forest.single (id, .text data) .empty))
    (piece remaining : List Char) :
    Reworks document (cutOnce document id piece remaining) parent earlier later
      (Forest.single (id, .text data) .empty)
      (cutOnceRow document.size id piece remaining) := by
  have empty := hasDistinctNames_text ""
  have tail := hasDistinctNames_text (String.ofList remaining)
  have mark : Content.boundary.HasDistinctNames :=
    Content.hasDistinctNames_of_attributes_eq_nil rfl
  -- the text keeps its first piece, and an empty text follows
  have headed := stands.reworks_setContent (.text (String.ofList piece)) rfl (by simp)
    (hasDistinctNames_text _)
  have divided := headed.trans (headed.stands.reworks_createAfter (by simp) empty)
  rw [size_setContent] at divided
  -- then come what remains of the text and, before it, the boundary
  have continued := divided.trans (Reworks.second_of_two divided.stands
    (divided.stands.right.reworks_createAfter (by simp) tail))
  have block := continued.stands.right
  have bounded := continued.trans (Reworks.second_of_two continued.stands
    (Reworks.first_of_two block (block.left.reworks_createAfter (by simp) mark)))
  have dividedSize := size_divide document id (String.ofList piece) ""
  have continuedSize := size_createAfter (document.divide id (String.ofList piece) "").1
    document.size (.text (String.ofList remaining))
  rw [Document.divide] at dividedSize continuedSize
  rw [continuedSize, dividedSize, Forest.append_assoc] at bounded
  unfold cutOnce cutOnceRow keptPiece
  split
  · exact bounded.trans (Reworks.first_of_two bounded.stands bounded.stands.left.reworks_detach)
  · exact bounded

/-! ## All cuts in one text -/

/-- A text that is not empty is cut into its pieces, and the empty texts between them are the
slots found. -/
theorem reworks_isolate {marker : String} (marked : marker.toList ≠ [])
    (pieces : List (List Char)) (nonempty : marker.toList.intercalate pieces ≠ [])
    (stands : document.Stands parent earlier later
      (Forest.single (id, .text (String.ofList (marker.toList.intercalate pieces))) .empty)) :
    ∃ row, Reworks document (isolate marker.toList document id pieces).1 parent earlier later
        (Forest.single (id, .text (String.ofList (marker.toList.intercalate pieces))) .empty) row ∧
      row.contents = Forest.cutRow pieces ∧
      sites marker row = (isolate marker.toList document id pieces).2.map .region := by
  induction pieces generalizing document id earlier with
  | nil => exact absurd rfl nonempty
  | cons piece others inductionHypothesis =>
      cases others with
      | nil =>
          rw [List.intercalate_singleton] at nonempty stands ⊢
          have spelled : String.ofList piece ≠ "" := by
            rwa [ne_eq, String.ofList_eq_empty_iff]
          refine ⟨_, Reworks.refl stands, ?_, ?_⟩
          · simp [Forest.cutRow, Forest.piece, nonempty]
          · simp [isolate, sites_single, sitesAt, spelled]
      | cons next rest =>
          have cut := reworks_cutOnce stands piece (marker.toList.intercalate (next :: rest))
          have behind := cut.stands.right.right.right
          have onward : ∀ {new : Document} {row : Forest (NodeId × Content)},
              Reworks (cutOnce document id piece (marker.toList.intercalate (next :: rest))) new
                parent _ later _ row →
              Reworks document new parent earlier later _
                (keptPiece id piece ++ (Forest.single (document.size, .text "") .empty ++
                  (Forest.single (document.size + 2, .boundary) .empty ++ row))) :=
            fun reworks => cut.trans (Reworks.second_of_two cut.stands
              (Reworks.second_of_two cut.stands.right
                (Reworks.second_of_two cut.stands.right.right reworks)))
          rw [isolate_cons_cons]
          by_cases ended : marker.toList.intercalate (next :: rest) = []
          · have last : Forest.cutRow (next :: rest) = .empty := by
              cases rest with
              | nil =>
                  rw [List.intercalate_singleton] at ended
                  simp [Forest.cutRow, Forest.piece, ended]
              | cons other others =>
                  rw [List.intercalate_cons_cons] at ended
                  simp [marked] at ended
            rw [if_pos (by rw [ended]; rfl)]
            refine ⟨_, onward behind.reworks_detach, ?_, ?_⟩
            · simp [contents_keptPiece, Forest.cutRow, last]
            · simp [sites_append, sites_single, sites_keptPiece, sitesAt]
          · obtain ⟨row, reworks, contents, found⟩ := inductionHypothesis ended behind
            rw [if_neg (by simpa using ended)]
            refine ⟨_, onward reworks, ?_, ?_⟩
            · simp [contents_keptPiece, Forest.cutRow, contents]
            · simp [sites_append, sites_single, sites_keptPiece, sitesAt, found]

/-! ## Cutting a whole tree -/

theorem pieces_of_text (marker data : String) :
    String.ofList (marker.toList.intercalate (Text.pieces marker.toList data.toList)) = data := by
  rw [Text.intercalate_pieces, String.ofList_toList]

theorem findAllSites_append (marker : String) (document : Document) (earlier later : List NodeId) :
    findAllSites marker document (earlier ++ later) =
      ((findAllSites marker (findAllSites marker document earlier).1 later).1,
        (findAllSites marker document earlier).2 ++
          (findAllSites marker (findAllSites marker document earlier).1 later).2) := by
  induction earlier generalizing document with
  | nil => simp [findAllSites]
  | cons id rest inductionHypothesis =>
      simp [findAllSites, inductionHypothesis]

theorem findAllSites_singleton (marker : String) (document : Document) (id : NodeId) :
    findAllSites marker document [id] = findSites marker document id := by
  simp [findAllSites]

/-- At a text that is not empty. -/
theorem reworks_findSites_text {marker : String} (marked : marker.toList ≠ []) {data : String}
    (nonempty : data ≠ "")
    (stands : document.Stands parent earlier later (Forest.single (id, .text data) .empty)) :
    ∃ cut, Reworks document (findSites marker document id).1 parent earlier later
        (Forest.single (id, .text data) .empty) cut ∧
      cut.contents = Forest.cutRow (Text.pieces marker.toList data.toList) ∧
      sites marker cut = (findSites marker document id).2 := by
  have whole := pieces_of_text marker data
  have spelled : marker.toList.intercalate (Text.pieces marker.toList data.toList) ≠ [] := by
    rw [Text.intercalate_pieces, ne_eq, String.toList_eq_nil_iff]
    exact nonempty
  have found := reworks_isolate marked (Text.pieces marker.toList data.toList) spelled
    (by rw [whole]; exact stands)
  rw [whole] at found
  unfold findSites
  simp only [stands.content?]
  exact found

/-- At any other node of a parsed tree nothing is cut. -/
theorem findSites_of_not_text (marker : String) {content : Content}
    (present : document.content? id = some content) (notText : ∀ data, content ≠ .text data) :
    findSites marker document id = (document, sitesAt marker (id, content)) := by
  unfold findSites
  rw [present]
  cases content with
  | text data => exact absurd rfl (notText data)
  | _ => rfl

/-- Going through a forest without empty texts cuts its texts around their markers, and finds the
slots of the forest that this makes. -/
theorem reworks_findAllSites {marker : String} (marked : marker.toList ≠ [])
    {forest : Forest (NodeId × Content)} (stands : document.Stands parent earlier later forest)
    (writable : forest.contents.Writable) (plain : forest.contents.IsPlain) :
    ∃ cut, Reworks document (findAllSites marker document forest.ids).1 parent earlier later
        forest cut ∧
      cut.contents = forest.contents.isolated marker.toList ∧
      sites marker cut = (findAllSites marker document forest.ids).2 := by
  induction forest generalizing document parent earlier later with
  | empty => exact ⟨.empty, Reworks.refl stands, rfl, rfl⟩
  | plant label children siblings childrenHypothesis siblingsHypothesis =>
      obtain ⟨id, content⟩ := label
      rw [Forest.plant_eq_single_append] at stands ⊢
      rw [Forest.contents_plant] at writable plain
      obtain ⟨admits, inside, beside⟩ := writable
      obtain ⟨kept, innerPlain, besidePlain⟩ := Forest.isPlain_plant.1 plain
      -- the first tree
      have first : ∃ cut, Reworks document
            (findAllSites marker document (Forest.single (id, content) children).ids).1 parent
            earlier (siblings.rootIds ++ later) (Forest.single (id, content) children) cut ∧
          cut.contents = (Forest.single content children.contents).isolated marker.toList ∧
          sites marker cut =
            (findAllSites marker document (Forest.single (id, content) children).ids).2 := by
        by_cases text : ∃ data, content = .text data
        · obtain ⟨data, rfl⟩ := text
          have childless : children = .empty := Forest.contents_eq_empty_iff.1 admits
          subst childless
          have nonempty : data ≠ "" := fun empty => kept.2 (by rw [empty])
          obtain ⟨cut, reworks, contents, found⟩ :=
            reworks_findSites_text marked nonempty stands.left
          rw [Forest.ids_single, Forest.ids_empty, findAllSites_singleton]
          refine ⟨cut, reworks, ?_, found⟩
          simp [contents, Forest.single, Forest.isolated]
        · have notText : ∀ data, content ≠ .text data := fun data same => text ⟨data, same⟩
          have here := findSites_of_not_text marker stands.left.content? notText
          obtain ⟨cut, reworks, contents, found⟩ :=
            childrenHypothesis stands.left.inside inside innerPlain
          rw [Forest.ids_single, findAllSites, here]
          refine ⟨Forest.single (id, content) cut, Reworks.single stands.left reworks, ?_, ?_⟩
          · rw [Forest.contents_single, contents, Forest.single, Forest.single, Forest.isolated]
            · rfl
            · exact notText
          · rw [sites_single, found]
      -- the trees after it
      obtain ⟨cutFirst, reworksFirst, contentsFirst, foundFirst⟩ := first
      obtain ⟨cutSecond, reworksSecond, contentsSecond, foundSecond⟩ :=
        siblingsHypothesis (reworksFirst.stands_right stands) beside besidePlain
      rw [Forest.ids_append, findAllSites_append]
      refine ⟨cutFirst ++ cutSecond, Reworks.append stands reworksFirst reworksSecond, ?_, ?_⟩
      · rw [Forest.contents_append, contentsFirst, contentsSecond]
        cases content <;> simp [Forest.single, Forest.isolated]
      · rw [sites_append, foundFirst, foundSecond]

end Template

end MarkupTemplate
