import MarkupTemplate.Proofs.Markup.Parsed
import MarkupTemplate.Proofs.Template.Isolation

/-!
# Compiled templates

A template that was compiled holds the forest that its joined fragments were parsed to, with every
text cut around the markers in it, below a fragment; and its slots are the slots of this forest,
by address.
-/

namespace MarkupTemplate

theorem eq_ok_of_toOption {Cause Result : Type} {attempt : Except Cause Result} {result : Result}
    (found : attempt.toOption = some result) : attempt = .ok result := by
  cases attempt with
  | error cause => contradiction
  | ok other => exact congrArg Except.ok (Option.some.inj found)

namespace Template

open Document

/-- The fragments of a template as one markup text. -/
def joined (options : CompileOptions) (fragments : List String) : String :=
  String.intercalate options.marker fragments

/-- The forest that the fragments of a template are parsed to, before any text is cut. -/
def parsedForest (options : CompileOptions) (fragments : List String) : Forest Content :=
  (Growth.ofMarkup options.strict (joined options fragments).toList).1.forest

theorem writable_parsedForest (options : CompileOptions) (fragments : List String) :
    (parsedForest options fragments).Writable :=
  (Growth.forest_ofMarkup options.strict (joined options fragments).toList).1

theorem isPlain_parsedForest (options : CompileOptions) (fragments : List String) :
    (parsedForest options fragments).IsPlain :=
  (Growth.forest_ofMarkup options.strict (joined options fragments).toList).2

/-- The template is a cut tree below a fragment, with the addresses of its slots. -/
structure CompiledAs (template : Template) (marker : String)
    (tree : Forest (NodeId × Content)) : Prop where
  wellFormed : template.document.WellFormed
  root : template.document.content? template.root = some .fragment
  hasBelow : template.document.HasBelow template.root tree
  slots : (sites marker tree).mapM (slotAt template.document template.root) = .ok template.slots

variable {options : CompileOptions} {fragments : List String} {template : Template}

/-- A template is the cut tree of the forest that was parsed, if this has as many slots as there are
places between the fragments. -/
theorem exists_cut (marked : options.marker ≠ "") (fragments : List String) :
    let parsed := Document.empty.parse options.strict (joined options fragments)
    ∃ document tree, document.WellFormed ∧
      document.content? parsed.root = some .fragment ∧ document.HasBelow parsed.root tree ∧
      tree.contents = (parsedForest options fragments).isolated options.marker.toList ∧
      compile options fragments =
        match parsed.fault? with
        | some fault => .error (.parse fault)
        | none =>
            if (sites options.marker tree).length = fragments.length - 1 then
              ((sites options.marker tree).mapM (slotAt document parsed.root)).map fun slots =>
                { document, root := parsed.root, slots }
            else
              .error (.slotCountMismatch (fragments.length - 1)
                (sites options.marker tree).length (shown fragments)) := by
  intro parsed
  have spelled : options.marker.toList ≠ [] := by
    rwa [ne_eq, String.toList_eq_nil_iff]
  have copied := wellFormed_empty.copiedIn_parse options.strict (joined options fragments)
  have writable := writable_parsedForest options fragments
  have plain := isPlain_parsedForest options fragments
  have stands := copied.hasBelow.stands copied.wellFormed
  obtain ⟨tree, reworks, contents, found⟩ := reworks_findAllSites spelled stands
    (by rwa [Forest.contents_numbered]) (by rwa [Forest.contents_numbered])
  have ids : parsed.document.descendants parsed.root =
      ((parsedForest options fragments).numbered (Document.empty.size + 1)).ids := by
    rw [descendants, copied.hasBelow.below_eq copied.wellFormed]
    rfl
  have rootOld := lt_size_of_content? copied.copied
  refine ⟨_, tree, reworks.stands.wellFormed,
    (reworks.content? rootOld stands.parent_not_mem).trans copied.copied,
    reworks.stands.hasBelow, contents.trans (by rw [Forest.contents_numbered]; rfl), ?_⟩
  have unmarked : options.marker.isEmpty = false := by simpa using marked
  simp only [compile, unmarked, Bool.false_eq_true, ↓reduceIte]
  rw [show Document.empty.parse options.strict (String.intercalate options.marker fragments) =
    parsed from rfl, ids, found]
  rfl

theorem compiledAs_of_compile (compiled : compile options fragments = .ok template) :
    ∃ tree, template.CompiledAs options.marker tree ∧
      tree.contents = (parsedForest options fragments).isolated options.marker.toList ∧
      (sites options.marker tree).length = fragments.length - 1 ∧ options.marker ≠ "" ∧
      (Document.empty.parse options.strict (joined options fragments)).fault? = none := by
  have marked : options.marker ≠ "" := by
    intro empty
    simp [compile, empty] at compiled
  obtain ⟨document, tree, wellFormed, root, hasBelow, contents, cut⟩ :=
    exists_cut marked fragments
  rw [cut] at compiled
  split at compiled
  · contradiction
  rename_i faultless
  split at compiled
  · rename_i length
    cases addressed : (sites options.marker tree).mapM (slotAt document
        (Document.empty.parse options.strict (joined options fragments)).root) with
    | error cause =>
        rw [addressed] at compiled
        contradiction
    | ok slots =>
        rw [addressed] at compiled
        obtain rfl := Except.ok.inj compiled
        exact ⟨tree, ⟨wellFormed, root, hasBelow, addressed⟩, contents, length, marked, faultless⟩
  · contradiction

theorem wellFormed_compile (compiled : compile options fragments = .ok template) :
    template.document.WellFormed := by
  obtain ⟨tree, compiledAs, _⟩ := compiledAs_of_compile compiled
  exact compiledAs.wellFormed

end Template

end MarkupTemplate
