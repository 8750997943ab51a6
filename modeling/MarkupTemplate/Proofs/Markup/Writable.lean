import MarkupTemplate.Attribute.Source
import MarkupTemplate.Document.Markup
import MarkupTemplate.Proofs.Document.Planting

/-!
# Forests that can be written

Not every forest can be written as markup that reads back: names must be names, a comment must not
contain its own end, and the content of an element that is not markup must be text that does not
close the element.  A forest is in normal form when it has no boundaries and no empty texts and no
two texts side by side.  Bringing a forest into normal form leaves its markup as it is.
-/

namespace MarkupTemplate

open MarkupTemplate.Text

/-! ## What can be written -/

/-- A name that a tag can have. -/
def Text.IsName : List Char → Prop
  | [] => False
  | first :: rest =>
      isNameStart first = true ∧ ∀ character ∈ rest, isNameCharacter character = true

/-- The content does not close the raw element that it stands in. -/
def Text.KeepsOpen (name content : List Char) : Prop :=
  ∀ skipped < content.length, startsClosingTag name (content.drop skipped ++ ['<']) = false

/-- A name that an attribute can have. -/
def Attribute.IsWritable (entry : Attribute) : Prop :=
  entry.name.toList ≠ [] ∧
    ∀ character ∈ entry.name.toList, isAttributeNameCharacter character = true

/-- The forest is a row of texts and boundaries. -/
def Forest.HoldsTexts (forest : Forest Content) : Prop :=
  ∀ content ∈ forest.roots, content = .boundary ∨ ∃ data, content = .text data

/-- A node with these children can be written. -/
def Content.Admits : Content → Forest Content → Prop
  | .fragment, _ => False
  | .element name attributes, children =>
      IsName name.toList ∧ (∀ entry ∈ attributes, entry.IsWritable) ∧
        (attributes.map Attribute.name).Nodup ∧
        (isVoidElement name = true → children = .empty) ∧
        (hasRawContent name.toList = true → children.HoldsTexts) ∧
        (hasVerbatimContent name.toList = true → KeepsOpen name.toList (children.markup true))
  | .text _, children => children = .empty
  | .comment data, children => children = .empty ∧ ¬ ['-', '-', '>'] <:+: data.toList
  | .boundary, children => children = .empty

/-- What a node admits depends on the markup of its children and on what they are. -/
theorem Content.Admits.of_markup {content : Content} {children other : Forest Content}
    (admits : content.Admits children) (empty : children = Forest.empty → other = Forest.empty)
    (texts : children.HoldsTexts → other.HoldsTexts)
    (same : other.markup true = children.markup true) : content.Admits other := by
  cases content with
  | fragment => exact admits
  | element name attributes =>
      obtain ⟨isName, writable, distinct, void, raw, verbatim⟩ := admits
      refine ⟨isName, writable, distinct, fun isVoid => empty (void isVoid),
        fun isRaw => texts (raw isRaw), ?_⟩
      intro isVerbatim
      rw [same]
      exact verbatim isVerbatim
  | text data => exact empty admits
  | comment data => exact ⟨empty admits.1, admits.2⟩
  | boundary => exact empty admits

namespace Forest

/-- Every node of the forest can be written. -/
def Writable : Forest Content → Prop
  | .empty => True
  | .plant content children siblings =>
      content.Admits children ∧ children.Writable ∧ siblings.Writable

@[simp]
theorem writable_append {earlier later : Forest Content} :
    (earlier ++ later).Writable ↔ earlier.Writable ∧ later.Writable := by
  induction earlier with
  | empty => simp [Writable]
  | plant content children siblings _ siblingsHypothesis =>
      rw [plant_append, Writable, Writable, siblingsHypothesis]
      simp only [and_assoc]

theorem Writable.fits {forest : Forest Content} (writable : forest.Writable) : forest.Fits := by
  induction forest with
  | empty => trivial
  | plant content children siblings childrenHypothesis siblingsHypothesis =>
      obtain ⟨admits, inside, beside⟩ := writable
      refine ⟨?_, ?_, ?_, childrenHypothesis inside, siblingsHypothesis beside⟩
      · rintro rfl
        exact admits
      · cases content with
        | element name attributes => exact admits.2.2.1
        | _ => exact List.nodup_nil
      · intro nonempty
        cases content with
        | fragment => rfl
        | element name attributes => rfl
        | text data => exact absurd admits nonempty
        | comment data => exact absurd admits.1 nonempty
        | boundary => exact absurd admits nonempty

/-! ## Markup of rows -/

theorem markup_append (verbatim : Bool) (earlier later : Forest Content) :
    (earlier ++ later).markup verbatim = earlier.markup verbatim ++ later.markup verbatim := by
  induction earlier with
  | empty => rfl
  | plant content children siblings _ siblingsHypothesis =>
      simp only [plant_append, markup, siblingsHypothesis, List.append_assoc]

end Forest

theorem textMarkup_append (verbatim : Bool) (earlier later : String) :
    textMarkup verbatim (earlier ++ later) =
      textMarkup verbatim earlier ++ textMarkup verbatim later := by
  unfold textMarkup
  split <;> simp

@[simp]
theorem textMarkup_empty (verbatim : Bool) : textMarkup verbatim "" = [] := by
  cases verbatim <;> rfl

namespace Forest

/-! ## Normal forms -/

/-- The forest without its boundaries and its empty texts, neither of which has children. -/
def prune : Forest Content → Forest Content
  | .empty => .empty
  | .plant content children siblings =>
      if content = .boundary ∨ content = .text "" then siblings.prune
      else .plant content children.prune siblings.prune

/-- A text in front of a forest, joined with the text that the forest begins with, if any. -/
def joinText (data : String) : Forest Content → Forest Content
  | .plant (.text next) _ siblings => .plant (.text (data ++ next)) .empty siblings
  | forest => .plant (.text data) .empty forest

/-- The forest with every run of texts side by side joined into one text. -/
def mergeTexts : Forest Content → Forest Content
  | .empty => .empty
  | .plant (.text data) _ siblings => siblings.mergeTexts.joinText data
  | .plant content children siblings => .plant content children.mergeTexts siblings.mergeTexts

/-- The forest has no boundaries and no empty texts. -/
def IsPlain (forest : Forest Content) : Prop :=
  ∀ content ∈ forest.labels, content ≠ .boundary ∧ content ≠ .text ""

def BeginsWithText : Forest Content → Prop
  | .plant (.text _) _ _ => True
  | _ => False

/-- The forest has no boundaries, no empty texts and no two texts side by side. -/
def IsNormal : Forest Content → Prop
  | .empty => True
  | .plant content children siblings =>
      content ≠ .boundary ∧ content ≠ .text "" ∧
        (∀ data, content = .text data → ¬ siblings.BeginsWithText) ∧
        children.IsNormal ∧ siblings.IsNormal

variable {forest : Forest Content}

/-! ### Pruned forests -/

theorem isPlain_plant {content : Content} {children siblings : Forest Content} :
    (Forest.plant content children siblings).IsPlain ↔
      (content ≠ .boundary ∧ content ≠ .text "") ∧ children.IsPlain ∧ siblings.IsPlain := by
  simp only [IsPlain, labels, List.forall_mem_cons, List.forall_mem_append]

theorem isPlain_prune (forest : Forest Content) : forest.prune.IsPlain := by
  induction forest with
  | empty => simp [prune, IsPlain, labels]
  | plant content children siblings childrenHypothesis siblingsHypothesis =>
      rw [prune]
      split
      · exact siblingsHypothesis
      · rename_i kept
        rw [not_or] at kept
        exact isPlain_plant.2 ⟨kept, childrenHypothesis, siblingsHypothesis⟩

theorem IsPlain.prune_eq (plain : forest.IsPlain) : forest.prune = forest := by
  induction forest with
  | empty => rfl
  | plant content children siblings childrenHypothesis siblingsHypothesis =>
      obtain ⟨kept, inside, beside⟩ := isPlain_plant.1 plain
      rw [prune, if_neg (not_or.2 kept), childrenHypothesis inside, siblingsHypothesis beside]

theorem Writable.markup_prune (writable : forest.Writable) (verbatim : Bool) :
    forest.prune.markup verbatim = forest.markup verbatim := by
  induction forest generalizing verbatim with
  | empty => rfl
  | plant content children siblings childrenHypothesis siblingsHypothesis =>
      obtain ⟨_, inside, beside⟩ := writable
      rw [prune]
      split
      · rename_i dropped
        rw [siblingsHypothesis beside]
        rcases dropped with rfl | rfl
        · rfl
        · simp [markup]
      · cases content <;> simp only [markup, childrenHypothesis inside, siblingsHypothesis beside]

theorem HoldsTexts.prune (holds : forest.HoldsTexts) : forest.prune.HoldsTexts := by
  induction forest with
  | empty => exact holds
  | plant content children siblings _ siblingsHypothesis =>
      simp only [HoldsTexts, roots, List.forall_mem_cons] at holds
      have beside := siblingsHypothesis holds.2
      rw [Forest.prune]
      split
      · exact beside
      · simp only [HoldsTexts, roots, List.forall_mem_cons]
        exact ⟨holds.1, beside⟩

theorem Writable.prune (writable : forest.Writable) : forest.prune.Writable := by
  induction forest with
  | empty => trivial
  | plant content children siblings childrenHypothesis siblingsHypothesis =>
      obtain ⟨admits, inside, beside⟩ := writable
      rw [Forest.prune]
      split
      · exact siblingsHypothesis beside
      · refine ⟨Content.Admits.of_markup admits ?_ HoldsTexts.prune (inside.markup_prune true),
          childrenHypothesis inside, siblingsHypothesis beside⟩
        rintro rfl
        rfl

/-! ### Merged texts -/

theorem markup_joinText (verbatim : Bool) (data : String) (forest : Forest Content) :
    (forest.joinText data).markup verbatim =
      textMarkup verbatim data ++ forest.markup verbatim := by
  unfold joinText
  split
  · simp only [markup, textMarkup_append, List.append_assoc]
  · rfl

theorem Writable.joinText (writable : forest.Writable) (data : String) :
    (forest.joinText data).Writable := by
  unfold Forest.joinText
  split
  · exact ⟨rfl, trivial, writable.2.2⟩
  · exact ⟨rfl, trivial, writable⟩

theorem HoldsTexts.joinText (holds : forest.HoldsTexts) (data : String) :
    (forest.joinText data).HoldsTexts := by
  unfold Forest.joinText
  split
  · simp only [HoldsTexts, roots, List.forall_mem_cons] at holds ⊢
    exact ⟨Or.inr ⟨_, rfl⟩, holds.2⟩
  · simp only [HoldsTexts, roots, List.forall_mem_cons]
    exact ⟨Or.inr ⟨_, rfl⟩, holds⟩

theorem Writable.markup_mergeTexts (writable : forest.Writable) (verbatim : Bool) :
    forest.mergeTexts.markup verbatim = forest.markup verbatim := by
  induction forest generalizing verbatim with
  | empty => rfl
  | plant content children siblings childrenHypothesis siblingsHypothesis =>
      obtain ⟨_, inside, beside⟩ := writable
      cases content with
      | text data =>
          rw [mergeTexts, markup_joinText, siblingsHypothesis beside]
          rfl
      | _ => simp only [mergeTexts, markup, childrenHypothesis inside, siblingsHypothesis beside]

theorem HoldsTexts.mergeTexts (holds : forest.HoldsTexts) : forest.mergeTexts.HoldsTexts := by
  induction forest with
  | empty => exact holds
  | plant content children siblings _ siblingsHypothesis =>
      simp only [HoldsTexts, roots, List.forall_mem_cons] at holds
      have beside := siblingsHypothesis holds.2
      rcases holds.1 with rfl | ⟨data, rfl⟩
      · rw [Forest.mergeTexts]
        · simp only [HoldsTexts, roots, List.forall_mem_cons]
          exact ⟨Or.inl trivial, beside⟩
        · simp
      · exact beside.joinText data

theorem Writable.mergeTexts (writable : forest.Writable) : forest.mergeTexts.Writable := by
  induction forest with
  | empty => trivial
  | plant content children siblings childrenHypothesis siblingsHypothesis =>
      obtain ⟨admits, inside, beside⟩ := writable
      cases content with
      | text data => exact (siblingsHypothesis beside).joinText data
      | _ =>
          refine ⟨Content.Admits.of_markup admits ?_ HoldsTexts.mergeTexts
            (inside.markup_mergeTexts true), childrenHypothesis inside, siblingsHypothesis beside⟩
          rintro rfl
          rfl

theorem isNormal_joinText (normal : forest.IsNormal) {data : String} (nonempty : data ≠ "") :
    (forest.joinText data).IsNormal := by
  unfold joinText
  split
  · rename_i next _ siblings
    obtain ⟨_, _, apart, _, beside⟩ := normal
    refine ⟨by simp, ?_, fun _ _ => apart next rfl, trivial, beside⟩
    simp [nonempty]
  · rename_i notText
    refine ⟨by simp, by simp [nonempty], ?_, trivial, normal⟩
    intro _ _ begins
    unfold BeginsWithText at begins
    split at begins
    · exact notText _ _ _ rfl
    · exact begins

theorem IsPlain.isNormal_mergeTexts (plain : forest.IsPlain) : forest.mergeTexts.IsNormal := by
  induction forest with
  | empty => trivial
  | plant content children siblings childrenHypothesis siblingsHypothesis =>
      obtain ⟨kept, inside, beside⟩ := isPlain_plant.1 plain
      cases content with
      | text data =>
          refine isNormal_joinText (siblingsHypothesis beside) ?_
          rintro rfl
          exact kept.2 rfl
      | _ =>
          exact ⟨kept.1, kept.2, by simp, childrenHypothesis inside, siblingsHypothesis beside⟩

/-! ### Normal forms -/

/-- The forest in normal form. -/
def normalized (forest : Forest Content) : Forest Content :=
  forest.prune.mergeTexts

theorem isNormal_normalized (forest : Forest Content) : forest.normalized.IsNormal :=
  (isPlain_prune forest).isNormal_mergeTexts

theorem Writable.normalized (writable : forest.Writable) : forest.normalized.Writable :=
  writable.prune.mergeTexts

theorem Writable.markup_normalized (writable : forest.Writable) (verbatim : Bool) :
    forest.normalized.markup verbatim = forest.markup verbatim := by
  rw [Forest.normalized, writable.prune.markup_mergeTexts, writable.markup_prune]

end Forest

end MarkupTemplate
