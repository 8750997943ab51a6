import MarkupTemplate.Event
import MarkupTemplate.Proofs.Markup.Escaping
import MarkupTemplate.Proofs.Markup.Spellings

/-!
# Attributes read back

The attributes that were written in a tag are the attributes that are read from it, in order and
without a fault.  Whatever else a tag says, the attributes read from it can be written.
-/

namespace MarkupTemplate

open MarkupTemplate.Text

namespace Attribute

/-! ## Written attributes -/

/-- What a written attribute is read as. -/
def item (entry : Attribute) : AttributeItem :=
  .written entry.name.toList (Reference.escapeAttribute entry.value.toList) true

theorem attribute?_item (entry : Attribute) : entry.item.attribute? = some entry := by
  simp [item, AttributeItem.attribute?, Reference.decode_escapeAttribute]

theorem markup_eq (entry : Attribute) : entry.markup =
    [' '] ++ entry.name.toList ++ ['='] ++ [quotationMark] ++
      Reference.escapeAttribute entry.value.toList ++ [quotationMark] := by
  simp [markup]

/-- A written attribute is spelled with one blank and quotation marks. -/
def spelled (entry : Attribute) (writable : entry.IsWritable) : SpelledAttribute where
  lead := .space
  leads := List.cons_ne_nil _ _
  name := entry.name.toList
  named := writable.1
  isName := writable.2
  given? := some
    { before := .absent
      after := .absent
      spelling := .quoted quotationMark (Reference.escapeAttribute entry.value.toList) (by decide)
        (Reference.quotationMark_not_mem_escapeAttribute _) }

theorem source_spelled (entry : Attribute) (writable : entry.IsWritable) :
    (entry.spelled writable).source = entry.markup := by
  simp [SpelledAttribute.source, spelled, GivenValue.source, ValueSpelling.source, markup]

/-- The attributes of a tag are written as spelled attributes. -/
theorem exists_spelled {attributes : List Attribute}
    (writable : ∀ entry ∈ attributes, entry.IsWritable) :
    ∃ items : List SpelledAttribute, items.flatMap SpelledAttribute.source =
        attributes.flatMap markup ∧
      items.map SpelledAttribute.item = attributes.map item ∧
      items.map SpelledAttribute.name = attributes.map fun entry => entry.name.toList := by
  induction attributes with
  | nil => exact ⟨[], rfl, rfl, rfl⟩
  | cons entry rest inductionHypothesis =>
      rw [List.forall_mem_cons] at writable
      obtain ⟨items, sources, read, names⟩ := inductionHypothesis writable.2
      refine ⟨entry.spelled writable.1 :: items, ?_, ?_, ?_⟩
      · rw [List.flatMap_cons, List.flatMap_cons, sources, source_spelled]
      · rw [List.map_cons, List.map_cons, read]
        rfl
      · rw [List.map_cons, List.map_cons, names]
        rfl

theorem passesTo_flatMap_markup {attributes : List Attribute}
    (writable : ∀ entry ∈ attributes, entry.IsWritable) :
    PassesTo none (attributes.flatMap markup) none := by
  obtain ⟨items, sources, _, _⟩ := exists_spelled writable
  rw [← sources]
  exact SpelledAttribute.passesTo_flatMap items

theorem items_flatMap_markup {attributes : List Attribute}
    (writable : ∀ entry ∈ attributes, entry.IsWritable) :
    AttributeItem.readAll (attributes.flatMap markup) = attributes.map item := by
  obtain ⟨items, sources, read, _⟩ := exists_spelled writable
  have spelled := SpelledAttribute.readAll_flatMap_source items .absent
  rwa [sources, Blanks.text_absent, List.append_nil, read] at spelled

theorem foldl_addNew_of_nodup {added known : List Attribute}
    (distinct : ((known ++ added).map name).Nodup) :
    added.foldl addNew known = known ++ added := by
  induction added generalizing known with
  | nil => rw [List.append_nil, List.foldl_nil]
  | cons entry rest inductionHypothesis =>
      have regrouped : known ++ entry :: rest = (known ++ [entry]) ++ rest := by simp
      have fresh : isNamed known entry.name = false := by
        rw [← Bool.not_eq_true, isNamed_iff]
        intro named
        rw [List.map_append, List.map_cons, List.nodup_append'] at distinct
        exact distinct.2.2 named List.mem_cons_self
      rw [List.foldl_cons, addNew, fresh, if_neg Bool.false_ne_true, regrouped]
      rw [regrouped] at distinct
      exact inductionHypothesis distinct

/-- The attributes written in a tag are read from it. -/
theorem readAll_flatMap_markup {attributes : List Attribute}
    (writable : ∀ entry ∈ attributes, entry.IsWritable)
    (distinct : (attributes.map name).Nodup) :
    readAll (attributes.flatMap markup) = attributes := by
  unfold readAll AttributeItem.attributes
  rw [items_flatMap_markup writable, List.filterMap_map]
  have each : (AttributeItem.attribute? ∘ item) = some := funext attribute?_item
  rw [each, List.filterMap_some, foldl_addNew_of_nodup (by simpa using distinct)]
  rfl

theorem fault?_flatMap_markup {attributes : List Attribute}
    (writable : ∀ entry ∈ attributes, entry.IsWritable)
    (distinct : (attributes.map name).Nodup) :
    fault? (attributes.flatMap markup) = none := by
  obtain ⟨items, _, read, names⟩ := exists_spelled writable
  have apart : (attributes.map fun entry => entry.name.toList).Nodup := by
    rw [← Function.comp_def, ← List.map_map]
    exact distinct.map fun _ _ same => String.toList_injective same
  unfold fault?
  rw [items_flatMap_markup writable, ← read, AttributeItem.faultAfter?_map_item, names,
    if_pos ⟨apart, fun _ _ => List.not_mem_nil⟩]

/-- A tag that ends with a written attribute does not end with a slash. -/
theorem getLast?_flatMap_markup (attributes : List Attribute) :
    (attributes.flatMap markup).getLast? ≠ some '/' := by
  cases attributes using List.reverseRecOn with
  | nil => simp
  | append_singleton earlier entry =>
      rw [List.flatMap_append, List.flatMap_singleton, markup_eq, ← List.append_assoc,
        List.getLast?_concat]
      decide

/-! ## Attributes that were read -/

theorem isWritable_of_mem_items {text : List Char} {entry : Attribute}
    (member : entry ∈ (AttributeItem.readAll text).filterMap AttributeItem.attribute?) :
    entry.IsWritable := by
  fun_induction AttributeItem.readAll text with
  | case1 => simp at member
  | case2 text rest first inductionHypothesis => exact inductionHypothesis member
  | case3 text character rest first notSlash continues found inductionHypothesis =>
      rw [List.filterMap_cons] at member
      simp only [AttributeItem.attribute?, List.mem_cons] at member
      rcases member with rfl | later
      · constructor
        · simp
        · intro other inName
          simp only [String.toList_ofList, List.mem_cons] at inName
          rcases inName with rfl | inRest
          · exact continues
          · exact List.mem_takeWhile_imp inRest
      · exact inductionHypothesis later
  | case4 text character rest first notSlash ends inductionHypothesis =>
      rw [List.filterMap_cons] at member
      exact inductionHypothesis member

theorem foldl_addNew_invariant (added : List Attribute) {known : List Attribute}
    (distinct : (known.map name).Nodup) :
    ((added.foldl addNew known).map name).Nodup ∧
      ∀ entry ∈ added.foldl addNew known, entry ∈ known ∨ entry ∈ added := by
  induction added generalizing known with
  | nil => exact ⟨distinct, fun entry member => Or.inl member⟩
  | cons entry rest inductionHypothesis =>
      rw [List.foldl_cons, addNew]
      split
      · obtain ⟨names, members⟩ := inductionHypothesis distinct
        refine ⟨names, fun other member => ?_⟩
        rcases members other member with old | new
        · exact Or.inl old
        · exact Or.inr (List.mem_cons_of_mem _ new)
      · rename_i unnamed
        rw [isNamed_iff] at unnamed
        have extended : ((known ++ [entry]).map name).Nodup := by
          rw [List.map_append, List.nodup_append']
          refine ⟨distinct, List.nodup_singleton _, ?_⟩
          intro other inKnown single
          rw [List.map_singleton, List.mem_singleton] at single
          exact unnamed (single ▸ inKnown)
        obtain ⟨names, members⟩ := inductionHypothesis extended
        refine ⟨names, fun other member => ?_⟩
        rcases members other member with old | new
        · rcases List.mem_append.1 old with known | single
          · exact Or.inl known
          · rw [List.mem_singleton] at single
            exact Or.inr (single ▸ List.mem_cons_self)
        · exact Or.inr (List.mem_cons_of_mem _ new)

/-! ## The first of each name -/

/-- The first attribute of each name, in the order in which the names come first. -/
def firstOfEach (given : List Attribute) : List Attribute :=
  (given.map name).eraseDups.filterMap fun named => given.find? fun entry => entry.name = named

theorem firstOfEach_cons (entry : Attribute) (rest : List Attribute) :
    firstOfEach (entry :: rest) =
      entry :: firstOfEach (rest.filter fun later => later.name ≠ entry.name) := by
  have names : ((rest.map name).filter fun later => !later == entry.name) =
      (rest.filter fun later => later.name ≠ entry.name).map name := by
    rw [List.filter_map]
    congr 1
    refine List.filter_congr fun later _ => ?_
    by_cases same : later.name = entry.name <;> simp [same]
  unfold firstOfEach
  rw [List.map_cons, List.eraseDups_cons, List.filterMap_cons_some (b := entry) (by simp), names]
  congr 1
  refine List.filterMap_congr fun named member => ?_
  rw [List.mem_eraseDups] at member
  obtain ⟨later, found, rfl⟩ := List.mem_map.1 member
  have other : later.name ≠ entry.name := by simpa using List.of_mem_filter found
  rw [List.find?_cons_of_neg (by simpa using Ne.symm other), List.find?_filter]
  congr 1
  funext candidate
  by_cases same : candidate.name = later.name <;> simp [same, other]

/-- Adding attributes one after the other keeps the first of each name. -/
theorem foldl_addNew_eq (given known : List Attribute) :
    given.foldl addNew known =
      known ++ firstOfEach (given.filter fun entry => !isNamed known entry.name) := by
  induction given generalizing known with
  | nil => exact (List.append_nil known).symm
  | cons entry rest inductionHypothesis =>
      rw [List.foldl_cons, inductionHypothesis, addNew]
      cases named : isNamed known entry.name with
      | true => simp [named]
      | false =>
          have fresh : ∀ later : Attribute, isNamed (known ++ [entry]) later.name =
              (isNamed known later.name || decide (later.name = entry.name)) := by
            intro later
            simp [isNamed, eq_comm]
          simp only [Bool.false_eq_true, ↓reduceIte, fresh]
          rw [List.filter_cons_of_pos (by simp [named]), firstOfEach_cons, List.filter_filter,
            List.append_assoc, List.singleton_append]
          congr 3
          refine List.filter_congr fun later _ => ?_
          rw [Bool.not_or, Bool.and_comm, decide_not]

theorem nodup_map_name_nil : (([] : List Attribute).map name).Nodup := List.nodup_nil

theorem nodup_map_name_readAll (text : List Char) : ((readAll text).map name).Nodup :=
  (foldl_addNew_invariant _ nodup_map_name_nil).1

theorem isWritable_of_mem_readAll {text : List Char} {entry : Attribute}
    (member : entry ∈ readAll text) : entry.IsWritable := by
  rcases (foldl_addNew_invariant _ nodup_map_name_nil).2 entry member with none | read
  · contradiction
  · exact isWritable_of_mem_items read

end Attribute

end MarkupTemplate
