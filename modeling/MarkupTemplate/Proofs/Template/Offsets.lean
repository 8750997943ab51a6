import MarkupTemplate.Proofs.Mutations
import MarkupTemplate.Proofs.Template.Isolation
import MarkupTemplate.Proofs.Text.Pieces

/-!
# Cutting at byte positions

Texts are cut around markers all at once, from the pieces between the markers.  The same is done
step by step: look for the first marker, split the text at the byte positions before and behind it,
empty what is between them, insert a boundary, and go on with the text that remains.  No step is
refused, because a marker begins and ends between two characters, and it all comes to the same.
-/

namespace MarkupTemplate

open Document

namespace Document

variable {document : Document} {parent id : NodeId} {earlier later : List NodeId}

/-! ## Texts that were divided -/

/-- Writing a text anew leads to the document that differs from the old one in this text. -/
theorem setText_eq {old : String} (wellFormed : document.WellFormed)
    (present : document.content? id = some (.text old)) {written : Document}
    (formed : written.WellFormed) {new : String}
    (content : written.content? = Function.update document.content? id (some (.text new)))
    (children : written.children = document.children) :
    document.setContent id (.text new) = written := by
  refine formed.eq_of_same (wellFormed.setText present new) ?_ ?_
  · funext other
    rw [content, content?_setContent]
    by_cases same : id = other
    · subst same
      rw [if_pos ⟨rfl, lt_size_of_content? present⟩, Function.update_self]
    · rw [if_neg fun here => same here.1, Function.update_of_ne (Ne.symm same)]
  · rw [wellFormed.children_setContent, children]

section Divided

variable {old : String} (wellFormed : document.WellFormed)
  (present : document.content? id = some (.text old))

include present

theorem content?_divide_old (head tail : String) :
    (document.divide id head tail).1.content? id = some (.text head) := by
  rw [content?_divide present, Function.update_of_ne (Nat.ne_of_lt (lt_size_of_content? present)),
    Function.update_self]

theorem content?_divide_new (head tail : String) :
    (document.divide id head tail).1.content? document.size = some (.text tail) := by
  rw [content?_divide present, Function.update_self]

include wellFormed

theorem row_divide (row : document.children parent = earlier ++ id :: later)
    (head tail : String) :
    (document.divide id head tail).1.children parent =
      (earlier ++ [id]) ++ document.size :: later := by
  have distinct := wellFormed.arranged.nodup parent
  rw [row, List.nodup_middle, List.nodup_cons, List.mem_append, not_or] at distinct
  have rows := congrFun (children_divide wellFormed present head tail) parent
  rw [rows, row, Destination.put_after distinct.1.1 distinct.1.2]
  simp

/-- The first part of a divided text can be written anew. -/
theorem setData_divide (head tail new : String) :
    (document.divide id head tail).1.setData id new = .ok (document.divide id new tail).1 := by
  have headed := content?_divide_old present head tail
  have fresh : document.size ≠ id := Nat.ne_of_gt (lt_size_of_content? present)
  simp only [setData, headed, Except.ok.injEq]
  refine setText_eq (wellFormed.divide present head tail) headed
    (wellFormed.divide present new tail) ?_ ?_
  · rw [content?_divide present, content?_divide present, Function.update_comm fresh,
      Function.update_idem]
  · rw [children_divide wellFormed present, children_divide wellFormed present]

/-- The second part of a divided text can be written anew. -/
theorem setContent_divide (head tail new : String) :
    (document.divide id head tail).1.setContent document.size (.text new) =
      (document.divide id head new).1 := by
  refine setText_eq (wellFormed.divide present head tail) (content?_divide_new present head tail)
    (wellFormed.divide present head new) ?_ ?_
  · rw [content?_divide present, content?_divide present, Function.update_idem]
  · rw [children_divide wellFormed present, children_divide wellFormed present]

end Divided

/-! ## Insertions -/

/-- A new node that is inserted after another is created there. -/
theorem insertAfter_create (wellFormed : document.WellFormed)
    (row : document.children parent = earlier ++ id :: later) {content : Content}
    (distinct : content.HasDistinctNames) (notFragment : content ≠ .fragment) :
    (document.create content).1.insertAfter id document.size =
      .ok (document.createAfter id content).1 := by
  have member : id ∈ document.children parent := by
    rw [row]
    simp
  have within := wellFormed.arranged.parent_lt_size_of_mem member
  obtain ⟨container, holder⟩ := exists_content_of_lt within
  have may := wellFormed.container holder (List.ne_nil_of_mem member)
  have created := wellFormed.create distinct
  have insertable := wellFormed.insertable_create holder may distinct notFragment
  have apart : (document.create content).1.isInclusiveAncestor document.size parent = false := by
    rw [← Bool.not_eq_true, isInclusiveAncestor_iff created.arranged created.acyclic]
    exact insertable.apart
  obtain ⟨above, _, next⟩ := (wellFormed.arranged.create content).child row
  have holds : (document.create content).1.content? parent = some container := by
    rw [content?_create, if_neg (Nat.ne_of_lt within), holder]
  have inserted : (document.create content).1.content? document.size = some content := by
    rw [content?_create, if_pos rfl]
  have notNext : later.head? ≠ some document.size := by
    intro first
    refine wellFormed.not_mem_children_size parent ?_
    rw [row]
    exact List.mem_append_right _ (List.mem_cons_of_mem id (List.mem_of_mem_head? first))
  rw [wellFormed.createAfter_of_child row, wellFormed.attach_create_eq_move]
  simp only [insertAfter, above, next, insert, holds, inserted, may, apart, notFragment, notNext,
    Bool.not_true, Bool.false_eq_true, ↓reduceIte]

end Document

/-! ## One slot at a byte position -/

namespace Template

/-- Split a text before the marker at a byte position and behind it, empty the text between, and
insert a boundary directly after that. -/
def openSlot (marker : List Char) (document : Document) (id : NodeId) (offset : Nat) :
    Except Error (Document × NodeId × NodeId) := do
  let parted ← document.splitText id offset
  let divided ← parted.1.splitText parted.2 (Text.byteSize marker)
  let emptied ← divided.1.setData parted.2 ""
  let created := emptied.create .boundary
  let bounded ← created.1.insertAfter parted.2 created.2
  return (bounded, parted.2, divided.2)

/-- Cut a text around its markers, the first one first, as often as there is one but not more often
than the limit. -/
def splitAtMarkers (marker : List Char) :
    Nat → Document → NodeId → Except Error (Document × List NodeId)
  | 0, document, _ => .ok (document, [])
  | limit + 1, document, id => do
      let text := ((document.content? id).bind Content.text?).getD ""
      match (Text.occurrences marker text.toList).head? with
      | none => return (document, [])
      | some offset =>
          let opened ← openSlot marker document id offset
          let standIn := opened.2.1
          let remainder := opened.2.2
          let cut := if offset = 0 then opened.1.detach id else opened.1
          if (cut.content? remainder).bind Content.text? = some "" then
            return (cut.detach remainder, [standIn])
          else
            let others ← splitAtMarkers marker limit cut remainder
            return (others.1, standIn :: others.2)

variable {document : Document} {parent id : NodeId} {earlier later : List NodeId}

/-- A text with its first piece, an empty text and what remains in a row: the slot is open, and
only its boundary is missing. -/
def openedText (document : Document) (id : NodeId) (piece remaining : List Char) : Document :=
  ((document.divide id (String.ofList piece) "").1.createAfter document.size
    (.text (String.ofList remaining))).1

/-- A slot opens wherever the marker stands, since there is a character boundary on both sides of
it. -/
theorem openSlot_eq (wellFormed : document.WellFormed)
    (row : document.children parent = earlier ++ id :: later) {piece marker remaining : List Char}
    (present : document.content? id =
      some (.text (String.ofList (piece ++ (marker ++ remaining))))) :
    openSlot marker document id (Text.byteSize piece) =
      .ok (((openedText document id piece remaining).createAfter document.size .boundary).1,
        document.size, document.size + 1) := by
  let first := document.divide id (String.ofList piece) (String.ofList (marker ++ remaining))
  have firstFormed : first.1.WellFormed := wellFormed.divide present _ _
  have firstRow : first.1.children parent = (earlier ++ [id]) ++ document.size :: later :=
    row_divide wellFormed present row _ _
  have firstText : first.1.content? document.size =
      some (.text (String.ofList (marker ++ remaining))) := content?_divide_new present _ _
  have parted : document.splitText id (Text.byteSize piece) = .ok first :=
    splitText_of_text present rfl
  have divided : first.1.splitText document.size (Text.byteSize marker) =
      .ok (first.1.divide document.size (String.ofList marker) (String.ofList remaining)) :=
    splitText_of_text firstText rfl
  -- with the text of the marker emptied, what remains stands behind an empty text
  have same : (first.1.divide document.size "" (String.ofList remaining)).1 =
      openedText document id piece remaining := by
    rw [divide, setContent_divide wellFormed present]
    rfl
  have emptied := setData_divide firstFormed firstText (String.ofList marker)
    (String.ofList remaining) ""
  rw [same] at emptied
  have openedFormed := firstFormed.divide firstText "" (String.ofList remaining)
  have openedRow := row_divide firstFormed firstText firstRow "" (String.ofList remaining)
  rw [same] at openedFormed openedRow
  rw [List.append_assoc (earlier ++ [id])] at openedRow
  have bounded := insertAfter_create openedFormed openedRow
    (Content.hasDistinctNames_of_attributes_eq_nil rfl : Content.boundary.HasDistinctNames)
    (by simp)
  have created : ((openedText document id piece remaining).create .boundary).2 =
      (openedText document id piece remaining).size := rfl
  have firstId : first.2 = document.size := divide_snd ..
  rw [openSlot, parted]
  simp only [bind, Except.bind, firstId, divided, emptied, created, bounded, divide_snd,
    size_divide, first]
  rfl

/-! ## All slots of a text -/

theorem head?_occurrences_of_splitFirst? {marker text before after : List Char}
    (marked : marker ≠ []) (cut : Text.splitFirst? marker.isPrefixOf text = some (before, after)) :
    (Text.occurrences marker text).head? = some (Text.byteSize before) := by
  obtain ⟨next, others, shape⟩ := List.exists_cons_of_ne_nil
    (Text.pieces_ne_nil marker (after.drop marker.length))
  rw [Text.occurrences, Text.pieces_of_splitFirst?_eq_some marked cut, shape,
    Text.separatorPositions, List.head?_cons, Nat.zero_add]

theorem byteSize_eq_zero_iff {text : List Char} : Text.byteSize text = 0 ↔ text.isEmpty := by
  cases text with
  | nil => simp
  | cons character rest =>
      have positive := character.utf8Size_pos
      simp only [Text.byteSize_cons, List.isEmpty_cons, Bool.false_eq_true, iff_false]
      omega

theorem length_occurrences_of_splitFirst? {marker text before after : List Char}
    (marked : marker ≠ []) (cut : Text.splitFirst? marker.isPrefixOf text = some (before, after)) :
    (Text.occurrences marker text).length =
      (Text.occurrences marker (after.drop marker.length)).length + 1 := by
  have more := congrArg List.length (Text.pieces_of_splitFirst?_eq_some marked cut)
  rw [List.length_cons, Text.length_pieces, Text.length_pieces] at more
  omega

/-- The first piece is dropped exactly if the marker stands at position zero. -/
theorem cutOnce_eq (document : Document) (id : NodeId) (piece remaining : List Char) :
    cutOnce document id piece remaining =
      if Text.byteSize piece = 0 then
        ((openedText document id piece remaining).createAfter document.size .boundary).1.detach id
      else ((openedText document id piece remaining).createAfter document.size .boundary).1 := by
  simp only [byteSize_eq_zero_iff]
  rfl

/-- Splitting a text at its markers one after the other is never refused, and cuts it around its
markers. -/
theorem splitAtMarkers_eq {marker : List Char} (marked : marker ≠ []) {limit : Nat}
    {text : List Char} (enough : (Text.occurrences marker text).length ≤ limit)
    (stands : document.Stands parent earlier later
      (Forest.single (id, .text (String.ofList text)) .empty)) :
    splitAtMarkers marker limit document id =
      .ok (isolate marker document id (Text.pieces marker text)) := by
  induction limit generalizing document id text earlier with
  | zero =>
      have single : (Text.pieces marker text).length = 1 := by
        rw [Text.length_pieces]
        omega
      rw [Text.pieces_eq_singleton single]
      rfl
  | succ limit inductionHypothesis =>
      have present := stands.content?
      rw [splitAtMarkers]
      simp only [present, Option.bind_some, Content.text?, Option.getD_some, String.toList_ofList]
      cases first : Text.splitFirst? marker.isPrefixOf text with
      | none =>
          have uncut := Text.pieces_of_splitFirst?_eq_none first
          rw [Text.occurrences, uncut]
          rfl
      | some parts =>
          obtain ⟨before, after⟩ := parts
          obtain ⟨rfl, leads, _⟩ := Text.splitFirst?_eq_some_iff.1 first
          obtain ⟨remaining, rfl⟩ := List.isPrefixOf_iff_prefix.1 leads
          have cuts := Text.pieces_of_splitFirst?_eq_some marked first
          rw [List.drop_left] at cuts
          have fewer := length_occurrences_of_splitFirst? marked first
          rw [List.drop_left] at fewer
          have behind := (reworks_cutOnce stands before remaining).stands.right.right.right
          have onward := inductionHypothesis (by omega) behind
          have opened := openSlot_eq stands.wellFormed stands.row present
          have remains := behind.content?
          obtain ⟨next, rest, shape⟩ :=
            List.exists_cons_of_ne_nil (Text.pieces_ne_nil marker remaining)
          have whole := Text.intercalate_pieces marker remaining
          rw [head?_occurrences_of_splitFirst? marked first]
          rw [shape] at whole onward cuts
          rw [cuts, isolate_cons_cons, whole]
          simp only [opened, bind, Except.bind, ← cutOnce_eq, remains, Option.bind_some,
            Content.text?, onward, pure, Except.pure, Option.some.injEq,
            String.ofList_eq_empty_iff, List.isEmpty_iff]
          split <;> rfl

end Template

end MarkupTemplate
