import MarkupTemplate.Proofs.Template.Filled
import MarkupTemplate.Proofs.Template.Substitution

/-!
# Values are never read as markup

The markup of an instance whose slots are bound to texts reads back as the tree of the instance,
whatever characters the texts are made of.  So the values decide what some texts and the values of
some attributes are, and nothing else: the elements, their nesting, the names of their attributes
and the comments are those of the template.
-/

namespace MarkupTemplate

open Document Template

/-! ## Outlines -/

def Value.isText : Value → Bool
  | .text _ => true
  | _ => Bool.false

/-- The content with no value for any attribute. -/
def Content.withoutValues : Content → Content
  | .element name attributes => .element name (attributes.map fun entry => ⟨entry.name, ""⟩)
  | content => content

/-- The attribute is one of a template, with another value only if it is a slot. -/
def Attribute.IsInstanceOf (marker : String) (entry original : Attribute) : Prop :=
  entry.name = original.name ∧ (original.value ≠ marker → entry.value = original.value)

/-- The content is that of a node of a template, up to the attributes that are slots. -/
def Content.IsInstanceOf (marker : String) : Content → Content → Prop
  | .element name attributes, .element originalName original =>
      name = originalName ∧ List.Forall₂ (Attribute.IsInstanceOf marker) attributes original
  | content, original => content = original

namespace Forest

/-- The forest without its texts and boundaries. -/
def outline : Forest Content → Forest Content
  | .empty => .empty
  | .plant (.text _) _ siblings => siblings.outline
  | .plant .boundary _ siblings => siblings.outline
  | .plant content children siblings => .plant content children.outline siblings.outline

/-- The forest is that of a template, up to the attributes that are slots. -/
def IsInstanceOf (marker : String) : Forest Content → Forest Content → Prop
  | .empty, .empty => True
  | .plant content children siblings, .plant original inside beside =>
      content.IsInstanceOf marker original ∧ children.IsInstanceOf marker inside ∧
        siblings.IsInstanceOf marker beside
  | _, _ => False

theorem outline_append (earlier later : Forest Content) :
    (earlier ++ later).outline = earlier.outline ++ later.outline := by
  induction earlier with
  | empty => rfl
  | plant content children siblings _ siblingsHypothesis =>
      cases content <;> simp [outline, siblingsHypothesis]

theorem outline_prune (forest : Forest Content) : forest.prune.outline = forest.outline := by
  induction forest with
  | empty => rfl
  | plant content children siblings childrenHypothesis siblingsHypothesis =>
      rw [prune]
      split
      · rename_i dropped
        rcases dropped with rfl | rfl <;> exact siblingsHypothesis
      · cases content <;> simp [outline, childrenHypothesis, siblingsHypothesis]

theorem outline_joinText (data : String) (forest : Forest Content) :
    (forest.joinText data).outline = forest.outline := by
  unfold joinText
  split <;> rfl

theorem outline_mergeTexts (forest : Forest Content) :
    forest.mergeTexts.outline = forest.outline := by
  induction forest with
  | empty => rfl
  | plant content children siblings childrenHypothesis siblingsHypothesis =>
      cases content with
      | text data =>
          rw [mergeTexts, outline_joinText]
          exact siblingsHypothesis
      | _ => simp [mergeTexts, outline, childrenHypothesis, siblingsHypothesis]

theorem outline_normalized (forest : Forest Content) :
    forest.normalized.outline = forest.outline := by
  rw [normalized, outline_mergeTexts, outline_prune]

end Forest

/-! ## Outlines of instances -/

variable {marker : String}

theorem Content.IsInstanceOf.withoutValues_eq {content original : Content}
    (same : content.IsInstanceOf marker original) :
    content.withoutValues = original.withoutValues := by
  cases content with
  | element name attributes =>
      cases original with
      | element originalName originals =>
          obtain ⟨rfl, entries⟩ := same
          have named : attributes.map (fun entry => (⟨entry.name, ""⟩ : Attribute)) =
              originals.map fun entry => ⟨entry.name, ""⟩ := by
            induction entries with
            | nil => rfl
            | cons here _ inductionHypothesis =>
                rw [List.map_cons, List.map_cons, here.1, inductionHypothesis]
          rw [withoutValues, withoutValues, named]
      | _ => exact absurd same (by simp [IsInstanceOf])
  | _ => exact congrArg withoutValues same

theorem isInstanceOf_attributes (marker : String) (attributes : List Attribute) :
    List.Forall₂ (Attribute.IsInstanceOf marker) attributes attributes :=
  List.forall₂_same.2 fun _ _ => ⟨rfl, fun _ => rfl⟩

theorem isInstanceOf_fillAttributes (marker : String) (attributes : List Attribute)
    {values : List Value} (texts : ∀ value ∈ values, value.isText = true) :
    List.Forall₂ (Attribute.IsInstanceOf marker) (fillAttributes marker attributes values)
      attributes := by
  induction attributes generalizing values with
  | nil => exact List.Forall₂.nil
  | cons entry rest inductionHypothesis =>
      by_cases slot : entry.value = marker
      · cases values with
        | nil =>
            rw [fillAttributes, if_pos slot]
            exact isInstanceOf_attributes marker (entry :: rest)
        | cons value others =>
            rw [List.forall_mem_cons] at texts
            cases value with
            | text data =>
                rw [fillAttributes_of_text slot]
                refine List.Forall₂.cons ⟨rfl, ?_⟩ (inductionHypothesis texts.2)
                exact fun plain => absurd slot plain
            | _ => exact absurd texts.1 (by simp [Value.isText])
      · rw [fillAttributes_of_ne slot]
        exact List.Forall₂.cons ⟨rfl, fun _ => rfl⟩ (inductionHypothesis texts)

namespace Forest

theorem IsInstanceOf.append {first second original later : Forest Content}
    (left : first.IsInstanceOf marker original) (right : second.IsInstanceOf marker later) :
    (first ++ second).IsInstanceOf marker (original ++ later) := by
  induction first generalizing original with
  | empty =>
      cases original with
      | empty => exact right
      | plant content children siblings => exact absurd left id
  | plant content children siblings _ siblingsHypothesis =>
      cases original with
      | empty => exact absurd left id
      | plant original inside beside =>
          exact ⟨left.1, left.2.1, siblingsHypothesis left.2.2⟩

/-- A tree that is filled with texts has the outline of its template. -/
theorem isInstanceOf_fill (marker : String) (forest : Forest Content) {values : List Value}
    (texts : ∀ value ∈ values, value.isText = true) :
    (Template.fill marker forest values).outline.IsInstanceOf marker forest.outline := by
  induction forest generalizing values with
  | empty => trivial
  | plant content children siblings childrenHypothesis siblingsHypothesis =>
      have textsHere : ∀ value ∈ values.take (slotCountAt marker content), value.isText = true :=
        fun value member => texts value (List.mem_of_mem_take member)
      have inside := childrenHypothesis
        (fun value member => texts value (List.mem_of_mem_drop (List.mem_of_mem_take member)) :
          ∀ value ∈ (values.drop (slotCountAt marker content)).take (slotCount marker children),
            value.isText = true)
      have beside := siblingsHypothesis
        (fun value member => texts value (List.mem_of_mem_drop member) :
          ∀ value ∈ values.drop (slotCountAt marker content + slotCount marker children),
            value.isText = true)
      rw [plant_eq_single_append, outline_append, ← plant_eq_single_append, Template.fill,
        outline_append]
      refine IsInstanceOf.append ?_ beside
      cases content with
      | element name attributes =>
          exact ⟨⟨rfl, isInstanceOf_fillAttributes marker attributes textsHere⟩, inside, trivial⟩
      | text data =>
          rcases fillNode_text marker data (Template.fill marker children
            ((values.drop (slotCountAt marker (.text data))).take (slotCount marker children)))
            (values.take (slotCountAt marker (.text data))) with gone | ⟨bound, below, kept, _⟩
          · rw [gone]
            trivial
          · rw [kept]
            trivial
      | boundary => trivial
      | comment data => exact ⟨rfl, inside, trivial⟩
      | fragment => exact ⟨rfl, inside, trivial⟩

theorem IsInstanceOf.map_withoutValues {forest original : Forest Content}
    (same : forest.IsInstanceOf marker original) :
    forest.map Content.withoutValues = original.map Content.withoutValues := by
  induction forest generalizing original with
  | empty =>
      cases original with
      | empty => rfl
      | plant content children siblings => exact absurd same id
  | plant content children siblings childrenHypothesis siblingsHypothesis =>
      cases original with
      | empty => exact absurd same id
      | plant originalContent inside beside =>
          obtain ⟨here, below, after⟩ := same
          rw [map, map, here.withoutValues_eq, childrenHypothesis below, siblingsHypothesis after]

end Forest

/-! ## Reading instances back -/

/-- The tree that the markup of a new instance is read back as, in another document. -/
def Instance.reread (document other : Document) (template : Template) (values : List Value) :
    Forest Content :=
  let attempt := create document template values
  match attempt.outcome with
  | .ok made =>
      let again := other.parse true (made.markup attempt.document)
      (again.document.below again.root).contents
  | .error _ => .empty

namespace Template

variable {template : Template} {document other : Document}

/-- The tree of a compiled template that takes all texts escaped, filled with any values. -/
theorem writable_fill {options : CompileOptions} {fragments : List String}
    (compiled : compile options fragments = .ok template)
    (escaped : ∀ slot ∈ template.slots, template.holeOf slot ≠ .region true)
    (values : List Value) :
    (fill options.marker (template.document.below template.root).contents values).Writable := by
  obtain ⟨tree, compiledAs, contents, _⟩ := compiledAs_of_compile compiled
  have writable := writable_parsedForest options fragments
  have plain := isPlain_parsedForest options fragments
  have bare : tree.contents.LeavesBare := by
    rw [contents]
    exact Forest.leavesBare_isolated _ writable
  have apart : Hole.region true ∉ holes (pattern options.marker false tree.contents) := by
    rw [← compiledAs.holes_eq bare, List.mem_map]
    rintro ⟨slot, member, verbatim⟩
    exact escaped slot member verbatim
  rw [compiledAs.hasBelow.below_eq compiledAs.wellFormed]
  rw [contents] at apart ⊢
  exact (Forest.Writable.isolated writable plain apart).fill apart values

/-- An instance with texts and absent values is made, and its markup is read back, without a fault,
as the normal form of the filled tree. -/
theorem exists_reread {options : CompileOptions} {fragments : List String}
    (compiled : compile options fragments = .ok template)
    (escaped : ∀ slot ∈ template.slots, template.holeOf slot ≠ .region true)
    (reachable : document.Reachable) (otherReachable : other.Reachable) {values : List Value}
    (count : values.length = template.slots.length)
    (accepted : ∀ value ∈ values, value.isText = true ∨ value.isAbsent = true) :
    ∃ made, Instance.CreatedAs (Instance.create document template values) made
        (fill options.marker (template.document.below template.root).contents values) ∧
      (other.parse true
        (made.markup (Instance.create document template values).document)).fault? = none ∧
      Instance.reread document other template values =
        (fill options.marker
          (template.document.below template.root).contents values).normalized := by
  obtain ⟨tree, compiledAs, contents, _⟩ := compiledAs_of_compile compiled
  have bounded : tree.contents.SlotsBounded := by
    rw [contents]
    exact Forest.slotsBounded_isolated _ _
  have noNode : ∀ value ∈ values, ∀ node, value ≠ .node node := by
    rintro value member node rfl
    rcases accepted _ member with text | absent
    · contradiction
    · contradiction
  obtain ⟨made, created⟩ :=
    Instance.exists_createdAs reachable.wellFormed compiledAs bounded count noNode
  rw [← compiledAs.hasBelow.below_eq compiledAs.wellFormed] at created
  obtain ⟨faultless, again, _⟩ :=
    otherReachable.wellFormed.parse_written (writable_fill compiled escaped values) true
  rw [← created.markup_eq] at faultless again
  refine ⟨made, created, faultless, ?_⟩
  unfold Instance.reread
  simp only [created.outcome]
  exact again

/-- If no slot is a region of an element that takes texts exactly as they are, the markup of an
instance with texts and absent values is read back, without a fault, as the tree of the instance in
normal form.  With texts alone this is the template's tree but for texts and for the values of
attributes that are slots, so two instances differ in these only. -/
theorem reread_of_texts {strict : Bool} {fragments : List String}
    (compiled : compile { strict } fragments = .ok template)
    (escaped : ∀ slot ∈ template.slots, template.holeOf slot ≠ .region true)
    (reachable : document.Reachable) (otherReachable : other.Reachable) {values : List Value}
    (count : values.length = template.slots.length)
    (accepted : ∀ value ∈ values, value.isText = true ∨ value.isAbsent = true) :
    (∃ made, (Instance.create document template values).outcome = .ok made ∧
      (other.parse true
        (made.markup (Instance.create document template values).document)).fault? = none ∧
      Instance.reread document other template values =
        ((Instance.create document template values).document.below made.root).contents.normalized) ∧
    ((∀ value ∈ values, value.isText = true) →
      (Instance.reread document other template values).outline.IsInstanceOf defaultMarker
        (template.document.below template.root).contents.outline ∧
      ∀ others : List Value, others.length = template.slots.length →
        (∀ value ∈ others, value.isText = true) →
          (Instance.reread document other template values).outline.map Content.withoutValues =
            (Instance.reread document other template others).outline.map
              Content.withoutValues) := by
  -- the outline of what is read back, for any texts
  have outlined : ∀ texts : List Value, texts.length = template.slots.length →
      (∀ value ∈ texts, value.isText = true) →
        (Instance.reread document other template texts).outline.IsInstanceOf defaultMarker
          (template.document.below template.root).contents.outline := by
    intro texts length areTexts
    obtain ⟨_, _, _, again⟩ := exists_reread compiled escaped reachable otherReachable length
      fun value member => Or.inl (areTexts value member)
    rw [again, Forest.outline_normalized]
    exact Forest.isInstanceOf_fill defaultMarker _ areTexts
  obtain ⟨made, created, faultless, again⟩ :=
    exists_reread compiled escaped reachable otherReachable count accepted
  refine ⟨⟨made, created.outcome, faultless, ?_⟩, ?_⟩
  · rw [again, created.contents]
  · intro areTexts
    refine ⟨outlined values count areTexts, ?_⟩
    intro others length otherTexts
    rw [(outlined values count areTexts).map_withoutValues,
      (outlined others length otherTexts).map_withoutValues]

/-- Texts that would close what they stand in if they were read as markup. -/
theorem reread_of_closing_texts :
    let fragments := ["<p title=", ">", "</p>"]
    let values := [Value.text "\"><script>", Value.text "</p>&lt"]
    ∃ template, compile { strict := false } fragments = .ok template ∧
      (∃ made, (Instance.create .empty template values).outcome = .ok made ∧
        (Document.empty.parse true
          (made.markup (Instance.create .empty template values).document)).fault? = none ∧
        Instance.reread .empty .empty template values =
          ((Instance.create .empty template values).document.below
            made.root).contents.normalized) ∧
      (Instance.reread .empty .empty template values).outline.IsInstanceOf defaultMarker
        (template.document.below template.root).contents.outline := by
  intro fragments values
  have written : ((compile { strict := false } fragments).toOption.map fun template =>
      template.slots.map template.holeOf) = some [.attributeValue, .region false] := by
    decide +kernel
  cases compiled : compile { strict := false } fragments with
  | error cause =>
      rw [compiled] at written
      contradiction
  | ok template =>
      rw [compiled] at written
      have writtenAs : template.slots.map template.holeOf = [.attributeValue, .region false] :=
        Option.some.inj written
      have count : values.length = template.slots.length := by
        rw [← List.length_map template.holeOf, writtenAs]
        rfl
      have escaped : ∀ slot ∈ template.slots, template.holeOf slot ≠ .region true := by
        intro slot member
        have among : template.holeOf slot ∈ template.slots.map template.holeOf :=
          List.mem_map_of_mem member
        rw [writtenAs] at among
        intro same
        rw [same] at among
        exact absurd among (by decide)
      obtain ⟨reread, onward⟩ := reread_of_texts compiled escaped .empty .empty count (by decide)
      exact ⟨template, rfl, reread, (onward (by decide)).1⟩

end Template

end MarkupTemplate
