import MarkupTemplate.Proofs.Template.Markers

/-!
# Fragments that contain the marker

A fragment may contain the marker itself.  Then the joined fragments contain more markers than there
are places between the fragments, and as long as the parsed tree shows all of them the template is
refused.  A marker that the markup hides, such as one in a comment, can make up for one that a
fragment contains: then a slot is found where the fragment has its marker.
-/

namespace MarkupTemplate.Template

open Document

variable {options : CompileOptions} {fragments : List String}

/-- The joined fragments have no more markers than the tree that they are parsed to. -/
def ShowsMarkers (options : CompileOptions) (fragments : List String) : Prop :=
  let parsed := Document.empty.parse options.strict (joined options fragments)
  (Text.occurrences options.marker.toList (joined options fragments).toList).length ≤
    (parsed.document.below parsed.root).contents.markerCount options.marker

instance (options : CompileOptions) (fragments : List String) :
    Decidable (ShowsMarkers options fragments) :=
  inferInstanceAs (Decidable (_ ≤ _))

theorem toList_joined (options : CompileOptions) (fragments : List String) :
    (joined options fragments).toList =
      options.marker.toList.intercalate (fragments.map String.toList) := by
  rw [joined, String.toList_intercalate]

/-- A template with a fragment that contains the marker is refused, if the markup hides no marker:
for a fault in the markup, or because there are more slots than places between the fragments.
Where the marker cannot overlap itself, the markers of a template that is not refused are those
between the fragments. -/
theorem compile_of_collision (marked : options.marker ≠ "")
    (shows : ShowsMarkers options fragments) :
    ((∃ fragment ∈ fragments, options.marker.toList <:+: fragment.toList) →
        (∃ fault, compile options fragments = .error (.parse fault)) ∨
          ∃ found, fragments.length - 1 < found ∧ compile options fragments =
            .error (.slotCountMismatch (fragments.length - 1) found (shown fragments))) ∧
      (Text.StartsUniquely options.marker.toList → fragments ≠ [] →
        ∀ template, compile options fragments = .ok template →
          Text.pieces options.marker.toList (joined options fragments).toList =
            fragments.map String.toList) := by
  have spelled : options.marker.toList ≠ [] := by
    rwa [ne_eq, String.toList_eq_nil_iff]
  obtain ⟨built, _, cut⟩ := exists_compiledAs marked fragments
  rw [ShowsMarkers] at shows
  simp only [contents_parsed] at shows
  have whole := toList_joined options fragments
  have pieces := Text.length_pieces options.marker.toList (joined options fragments).toList
  constructor
  · rintro ⟨fragment, member, collides⟩
    have isPart : fragment.toList ∈ fragments.map String.toList := List.mem_map_of_mem member
    have more := Text.length_lt_length_pieces spelled isPart collides
    rw [← whole, List.length_map] at more
    cases faults : (Document.empty.parse options.strict (joined options fragments)).fault? with
    | some fault =>
        rw [faults] at cut
        exact .inl ⟨fault, cut⟩
    | none =>
        rw [faults] at cut
        have larger : fragments.length - 1 <
            (parsedForest options fragments).markerCount options.marker := by
          have positive := List.length_pos_of_mem member
          omega
        exact .inr ⟨_, larger, cut.trans (if_neg (Nat.ne_of_gt larger))⟩
  · intro unique nonempty template compiled
    rw [cut] at compiled
    split at compiled
    · contradiction
    split at compiled
    · rename_i count
      have positive := List.length_pos_iff.2 nonempty
      have least := Text.length_le_length_pieces spelled whole.symm
      rw [List.length_map] at least
      refine Text.pieces_eq_of_intercalate unique (by simpa using nonempty) whole.symm ?_
      rw [List.length_map]
      omega
    · contradiction

/-- A paragraph that contains the marker, beside one without it. -/
theorem compile_of_paragraph_with_marker :
    ∃ cause, compile {} ["<p>\ue000rt-slot\ue001</p>", "<p></p>"] = .error cause := by
  have marked : ({} : CompileOptions).marker ≠ "" := by decide +kernel
  have shows : ShowsMarkers {} ["<p>\ue000rt-slot\ue001</p>", "<p></p>"] := by decide +kernel
  have refused := (compile_of_collision marked shows).1
    ⟨_, List.mem_cons_self, "<p>".toList, "</p>".toList, by decide +kernel⟩
  rcases refused with ⟨_, refused⟩ | ⟨_, _, refused⟩ <;> exact ⟨_, refused⟩

/-- A slot is found where a fragment contains the marker, because the marker between the fragments
is hidden in a comment. -/
theorem slots_of_paragraph_with_marker :
    ∃ template, compile {} ["<p>\ue000rt-slot\ue001</p><!-- ", " -->"] = .ok template ∧
      defaultMarker.toList <:+: "<p>\ue000rt-slot\ue001</p><!-- ".toList ∧
      template.slots = [.region [0, 0]] := by
  have computed : (compile {} ["<p>\ue000rt-slot\ue001</p><!-- ", " -->"]).toOption.map
      Template.slots = some [.region [0, 0]] := by decide +kernel
  obtain ⟨template, compiled, slots⟩ := Option.map_eq_some_iff.1 computed
  exact ⟨template, eq_ok_of_toOption compiled,
    ⟨"<p>".toList, "</p><!-- ".toList, by decide +kernel⟩, slots⟩

end MarkupTemplate.Template
