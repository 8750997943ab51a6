import MarkupTemplate.Proofs.Reachable

/-!
# From text to tree and back

A parsed tree is written as markup that parses to the same tree again, and without a fault, however
little of the first text was well formed.  The two trees differ in one point only: texts that stand
side by side, because something between them was dropped, are read back as one text.
-/

namespace MarkupTemplate.Document

variable {document : Document}

theorem markup_of_fragment {root : NodeId} {tree : Forest (NodeId × Content)}
    (wellFormed : document.WellFormed) (fragment : document.content? root = some .fragment)
    (hasBelow : document.HasBelow root tree) :
    document.markup root = String.ofList (tree.contents.markup false) := by
  unfold markup
  rw [fragment, hasBelow.below_eq wellFormed]
  simp only [Forest.markup, List.append_nil]
  rfl

theorem CopiedIn.markup_root {new : Document} {root : NodeId} {forest : Forest Content}
    (copied : CopiedIn document new root .fragment forest) :
    new.markup root = String.ofList (forest.markup false) := by
  rw [markup_of_fragment copied.wellFormed copied.copied copied.hasBelow,
    Forest.contents_numbered]

theorem CopiedIn.contents_below {new : Document} {root : NodeId} {content : Content}
    {forest : Forest Content} (copied : CopiedIn document new root content forest) :
    (new.below root).contents = forest := by
  rw [copied.hasBelow.below_eq copied.wellFormed, Forest.contents_numbered]

/-- Markup of a forest that can be written is read, without a fault, as the forest's normal
form. -/
theorem WellFormed.parse_written (wellFormed : document.WellFormed) {forest : Forest Content}
    (writable : forest.Writable) (strict : Bool) :
    let parsed := document.parse strict (String.ofList (forest.markup false))
    parsed.fault? = none ∧ (parsed.document.below parsed.root).contents = forest.normalized ∧
      parsed.document.markup parsed.root = String.ofList (forest.markup false) := by
  simp only [parse_markup document strict writable]
  have distinct : Content.fragment.HasDistinctNames :=
    Content.hasDistinctNames_of_attributes_eq_nil rfl
  have copied := copiedIn_plant wellFormed distinct (fun _ => rfl) writable.normalized.fits
  refine ⟨trivial, copied.contents_below, ?_⟩
  rw [copied.markup_root, writable.markup_normalized]

/-- Whatever a text is parsed to, the markup of it parses to the same tree with neighbouring texts
joined, in either way of reading, and is written as the same markup once more. -/
theorem parse_markup_of_parsed {other : Document} (reachable : document.Reachable)
    (otherReachable : other.Reachable) (text : String) (strict : Bool) :
    let parsed := document.parse false text
    let again := other.parse strict (parsed.document.markup parsed.root)
    again.fault? = none ∧
      (again.document.below again.root).contents =
        (parsed.document.below parsed.root).contents.mergeTexts ∧
      again.document.markup again.root = parsed.document.markup parsed.root := by
  intro parsed again
  have made := reachable.wellFormed.copiedIn_parse false text
  obtain ⟨writable, plain⟩ := Growth.forest_ofMarkup false text.toList
  obtain ⟨faultless, tree, markup⟩ :=
    otherReachable.wellFormed.parse_written writable strict
  rw [← made.markup_root] at faultless tree markup
  refine ⟨faultless, ?_, markup⟩
  rw [made.contents_below]
  rw [Forest.normalized, plain.prune_eq] at tree
  exact tree

/-- A text with a stray end tag, an attribute without a value, and an element left open. -/
theorem parse_markup_of_broken_text :
    let parsed := Document.empty.parse false "a</>b<p title>c<br>"
    let again := Document.empty.parse true (parsed.document.markup parsed.root)
    again.fault? = none ∧
      (again.document.below again.root).contents =
        (parsed.document.below parsed.root).contents.mergeTexts ∧
      again.document.markup again.root = parsed.document.markup parsed.root :=
  parse_markup_of_parsed .empty .empty "a</>b<p title>c<br>" true

end MarkupTemplate.Document
