import MarkupTemplate.Proofs.Instance.Creation

/-!
# Independence of slots

However often the slots of an instance are bound, and in whatever order, they do not get into each
other's way.  As long as no node of the skeleton is bound, nothing is refused, the skeleton stands
as it was copied, and every region is exactly what lies between its two siblings.
-/

namespace MarkupTemplate

open Document Relation Template

namespace Settled

variable {frame : Frame} {sites : List Site} {anchors : List Anchor} {document : Document}

/-- Binding one slot takes from the region of another at most the node that was bound. -/
theorem lessBy_update (settled : Settled frame sites anchors document) {index other : Nat}
    (own : index < anchors.length) (isOther : other < anchors.length) (different : other ≠ index)
    {value : Value} (admitted : anchors[index].Admits frame.fixed document value) :
    Frame.LessBy value (Anchor.regionNodes document anchors[other])
      (Anchor.regionNodes (Anchor.update document anchors[index] value).document
        anchors[other]) := by
  obtain ⟨held, holds⟩ := settled.exists_holds
  have length := settled.serves.length_eq
  have serves := settled.serves.get (i := index) (by omega) own
  have otherServes := settled.serves.get (i := other) (by omega) isOther
  rw [List.get_eq_getElem, List.get_eq_getElem] at serves otherServes
  obtain ⟨rehold, _, _, onward, others⟩ := holds.exists_update settled.distinct serves admitted
  rw [otherServes.regionNodes_eq holds,
    (otherServes.update holds anchors[index] value).regionNodes_eq onward]
  refine others otherServes fun same => different ?_
  exact settled.nodup.getElem_inj_iff.1 same

end Settled

namespace Instance

/-- A document comes of another by one update through a slot of the instance, which puts no node of
the skeleton into a region. -/
inductive Rebinds (made : Instance) (skeleton : List NodeId) : Document → Document → Prop
  | update {document : Document} {anchor : Anchor} {value : Value} (own : anchor ∈ made.anchors)
      (admitted : anchor.Admits skeleton document value) :
      Rebinds made skeleton document (Anchor.update document anchor value).document

/-- The skeleton of an instance stands as it was copied, and its regions lie apart from each other
between their siblings. -/
structure Intact (made : Instance) (skeleton : List NodeId) (copied document : Document) :
    Prop where
  parent : ∀ id ∈ skeleton, document.parent? id = copied.parent? id
  order : ∀ id, (document.children id).filter (· ∈ skeleton) =
    (copied.children id).filter (· ∈ skeleton)
  row : ∀ before after, .region before after ∈ made.anchors →
    ∃ parent left right, left.getLast? = before ∧ document.children parent =
      left ++ (Anchor.regionNodes document (.region before after) ++ after :: right)
  free : ∀ anchor ∈ made.anchors, (Anchor.regionNodes document anchor).Disjoint skeleton
  disjoint : made.anchors.Pairwise fun first second =>
    (Anchor.regionNodes document first).Disjoint (Anchor.regionNodes document second)

variable {options : CompileOptions} {fragments : List String} {document copied reached : Document}
  {template : Template} {root : NodeId} {values : List Value} {made : Instance}

theorem CopyOf.intact {marker : String} {block : Forest (NodeId × Content)}
    (copy : CopyOf document template marker copied block) {anchors : List Anchor}
    {sites : List Site} (settled : Settled copy.frame sites anchors reached) :
    Intact ⟨root, anchors⟩ (template.skeleton copied document.size) copied reached := by
  obtain ⟨held, holds⟩ := settled.exists_holds
  refine ⟨fun id fixed => holds.parent?_eq copy.holds fixed,
    fun id => holds.filter_children_eq copy.holds id, ?_, ?_, settled.disjoint⟩
  · intro before after own
    obtain ⟨_, _, parent, left, right, _, begins, row⟩ := settled.exists_row own
    exact ⟨parent, left, right, begins, row⟩
  · intro anchor own id inside
    obtain ⟨site, _, serves⟩ := settled.exists_site own
    rw [serves.regionNodes_eq holds] at inside
    cases serves with
    | region place _ => exact holds.free place.free inside
    | attributeValue => contradiction

/-- Updates through the slots of an instance, none of which puts a node of the skeleton into a
region, leave the instance settled. -/
theorem settled_of_rebinds {frame : Frame} {sites : List Site}
    (settled : Settled frame sites made.anchors document)
    (run : ReflTransGen (Rebinds made frame.fixed) document reached) :
    Settled frame sites made.anchors reached := by
  induction run with
  | refl => exact settled
  | tail _ step inductionHypothesis =>
      cases step with
      | update own admitted => exact (inductionHypothesis.update own admitted).2.2

/-- An instance that was created from texts, absent values and nodes of the document stays intact
in every run of updates through its slots that puts no node of its skeleton into a region.  No
update of this kind is refused, and it takes from the region of another slot at most the node that
is bound.  Only nodes of the skeleton lie above nodes of the skeleton, so that every node may be
bound that is neither in it nor above it. -/
theorem slots_stay_apart (compiled : Template.compile options fragments = .ok template)
    (reachable : document.Reachable)
    (copyMade : document.copyFrom template.document template.root = .ok (copied, root))
    (created : (create document template values).outcome = .ok made)
    (old : ∀ id, template.PutsInRegion values id → id < document.size)
    (run : ReflTransGen (Rebinds made (template.skeleton copied root))
      (create document template values).document reached) :
    Intact made (template.skeleton copied root) copied reached ∧
      ∀ index (own : index < made.anchors.length) value,
        made.anchors[index].Admits (template.skeleton copied root) reached value →
          (Anchor.update reached made.anchors[index] value).outcome = .ok () ∧
          ∀ other (isOther : other < made.anchors.length), other ≠ index →
            Frame.LessBy value (Anchor.regionNodes reached made.anchors[other])
              (Anchor.regionNodes (Anchor.update reached made.anchors[index] value).document
                made.anchors[other]) := by
  obtain ⟨_, block, same, copy⟩ := exists_copyOf_of_compile reachable.wellFormed compiled
  rw [copyMade, Except.ok.injEq, Prod.mk.injEq] at same
  obtain ⟨rfl, rfl⟩ := same
  obtain ⟨rfl, done, new⟩ := copy.of_create copyMade created
  have first := copy.settled.of_bindAll (fun entry member => (List.of_mem_zip member).1)
    (fun entry member id isRegion isNode fixed => Nat.not_lt_of_le (copy.size_le fixed)
      (old id (copy.putsInRegion (isNode ▸ member) isRegion))) done
  rw [← new] at first
  have settled : Settled copy.frame _ _ reached := settled_of_rebinds first run
  refine ⟨copy.intact settled, fun index own value admitted => ⟨?_, ?_⟩⟩
  · exact (settled.update (List.getElem_mem own) admitted).1
  · exact fun other isOther different => settled.lessBy_update own isOther different admitted

/-- A node of the document is put into the first of two regions, and then into the second. -/
theorem intact_after_moving_node :
    let document := Document.empty.perform (.createText "within")
    ∃ template copied root made, Template.compile {} ["<p>", "", "</p>"] = .ok template ∧
      document.copyFrom template.document template.root = .ok (copied, root) ∧
      (create document template [.node 0, .null]).outcome = .ok made ∧
      Intact made (template.skeleton copied root) copied
        (Anchor.update (create document template [.node 0, .null]).document
          (.region (some 4) 6) (.node 0)).document := by
  intro document
  have computed : (Template.compile {} ["<p>", "", "</p>"]).toOption.bind (fun template =>
      (document.copyFrom template.document template.root).toOption.bind fun copy =>
        (create document template [.node 0, .null]).outcome.toOption.map fun made =>
          (template.skeleton copy.1 copy.2, made.anchors,
            (create document template [.node 0, .null]).document.size)) =
      some ([1, 2, 4, 6], [.region none 4, .region (some 4) 6], 7) := by decide +kernel
  obtain ⟨template, compiled, computed⟩ := Option.bind_eq_some_iff.1 computed
  obtain ⟨⟨copied, root⟩, copyMade, computed⟩ := Option.bind_eq_some_iff.1 computed
  obtain ⟨made, created, result⟩ := Option.map_eq_some_iff.1 computed
  rw [Prod.mk.injEq, Prod.mk.injEq] at result
  obtain ⟨skeleton, anchors, size⟩ := result
  have reachable : document.Reachable := .perform .empty (by simp [Operation.source?])
    (by simp [Operation.template?])
  have before : ∀ id, template.PutsInRegion [.node 0, .null] id → id < document.size := by
    rintro id ⟨slot, member, _⟩
    have bound := (List.of_mem_zip member).2
    rw [List.mem_cons, List.mem_singleton] at bound
    rcases bound with same | other
    · rw [Value.node.inj same]
      decide
    · contradiction
  have admitted : (Anchor.region (some 4) 6).Admits (template.skeleton copied root)
      (create document template [.node 0, .null]).document (.node 0) := by
    rintro _ _ ⟨⟩
    rw [skeleton, size]
    decide
  have moved := Rebinds.update (show .region (some 4) 6 ∈ made.anchors by simp [anchors]) admitted
  refine ⟨template, copied, root, made, eq_ok_of_toOption compiled, eq_ok_of_toOption copyMade,
    eq_ok_of_toOption created, ?_⟩
  exact (slots_stay_apart (eq_ok_of_toOption compiled) reachable (eq_ok_of_toOption copyMade)
    (eq_ok_of_toOption created) before (ReflTransGen.single moved)).1

end Instance

end MarkupTemplate
