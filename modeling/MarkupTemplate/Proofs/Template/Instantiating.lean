import MarkupTemplate.Proofs.Instance.Settled
import MarkupTemplate.Proofs.Markup.RoundTrip
import MarkupTemplate.Proofs.Template.Binding

/-!
# New instances

Making an instance of a compiled template is not refused if there is a text or an absent value for
every slot.  What then stands below the new fragment is the cut tree of the template, filled with
the values, whatever the document held before.
-/

namespace MarkupTemplate

open Document Template

namespace Instance

/-- An instance was made, and this forest stands below its fragment. -/
structure CreatedAs (attempt : Attempt Instance) (made : Instance) (forest : Forest Content) :
    Prop where
  outcome : attempt.outcome = .ok made
  wellFormed : attempt.document.WellFormed
  root : attempt.document.content? made.root = some .fragment
  contents : (attempt.document.below made.root).contents = forest

theorem CreatedAs.markup_eq {attempt : Attempt Instance} {made : Instance}
    {forest : Forest Content} (created : CreatedAs attempt made forest) :
    made.markup attempt.document = String.ofList (forest.markup false) := by
  rw [markup, markup_of_fragment created.wellFormed created.root
    (created.wellFormed.hasBelow_below made.root), created.contents]

variable {document : Document} {template : Template} {marker : String}
  {tree : Forest (NodeId × Content)}

/-- A template with values for all its slots makes an instance with its tree filled. -/
theorem exists_createdAs (wellFormed : document.WellFormed)
    (compiled : template.CompiledAs marker tree) (bounded : tree.contents.SlotsBounded)
    {values : List Value} (count : values.length = template.slots.length)
    (noNode : ∀ value ∈ values, ∀ node, value ≠ .node node) :
    ∃ made, CreatedAs (create document template values) made
      (fill marker tree.contents values) := by
  obtain ⟨copied, block, copyMade, copy, contents⟩ := exists_copyOf wellFormed compiled bounded
  have root := copy.copiedIn.copied
  obtain ⟨bound, filled, binds, reworks, filledContents⟩ := reworks_bindAll marker copy.stands
    copy.bounded (by rw [contents, count, compiled.slots_eq, length_slotsOf]) noNode
    (fun _ => List.getLast?_nil.symm)
  have attempt : create document template values =
      { document := bound
        outcome := .ok ⟨document.size, anchorsOf marker none block⟩
        log := (create document template values).log } := by
    rw [copy.create_eq copyMade count, Attempt.andThen, binds.outcome, binds.document]
  refine ⟨_, by rw [attempt], ?_, ?_, ?_⟩
  · rw [attempt]
    exact reworks.stands.wellFormed
  · rw [attempt, reworks.content? (lt_size_of_content? root) copy.stands.parent_not_mem, root]
  · rw [attempt, reworks.stands.hasBelow.below_eq reworks.stands.wellFormed, filledContents,
      contents]

end Instance

end MarkupTemplate
