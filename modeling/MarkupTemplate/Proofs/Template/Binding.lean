import MarkupTemplate.Proofs.Anchor.Updates
import MarkupTemplate.Proofs.Template.Slots

/-!
# Bound slots

Binding the anchors of a cut tree to texts and absent values, one after the other, fills the tree:
every empty text takes the data of its value or goes, and so does every attribute that is a slot.
What the filled tree holds is known from the contents of the cut tree and the values alone.
-/

namespace MarkupTemplate

open Document

/-! ## Filled forests -/

namespace Template

/-- The attributes of an element whose slots are bound to values. -/
def fillAttributes (marker : String) : List Attribute → List Value → List Attribute
  | [], _ => []
  | entry :: rest, values =>
      if entry.value = marker then
        match values with
        | .text data :: others => ⟨entry.name, data⟩ :: fillAttributes marker rest others
        | _ :: others => fillAttributes marker rest others
        | [] => entry :: rest
      else
        entry :: fillAttributes marker rest values

theorem fillAttributes_of_text {marker : String} {entry : Attribute} (slot : entry.value = marker)
    (rest : List Attribute) (data : String) (others : List Value) :
    fillAttributes marker (entry :: rest) (.text data :: others) =
      ⟨entry.name, data⟩ :: fillAttributes marker rest others := by
  simp [fillAttributes, slot]

theorem fillAttributes_of_absent {marker : String} {entry : Attribute}
    (slot : entry.value = marker) (rest : List Attribute) {value : Value}
    (absent : ∀ data, value ≠ .text data) (others : List Value) :
    fillAttributes marker (entry :: rest) (value :: others) =
      fillAttributes marker rest others := by
  cases value with
  | text data => exact absurd rfl (absent data)
  | _ => simp [fillAttributes, slot]

theorem fillAttributes_of_ne {marker : String} {entry : Attribute} (plain : entry.value ≠ marker)
    (rest : List Attribute) (values : List Value) :
    fillAttributes marker (entry :: rest) values =
      entry :: fillAttributes marker rest values := by
  simp [fillAttributes, plain]

/-- What is bound to a region. -/
def standInFor : Value → Forest Content
  | .text data => Forest.single (.text data) .empty
  | _ => .empty

/-- The tree of a node with its slots bound to values, and with these children. -/
def fillNode (marker : String) (content : Content) (children : Forest Content)
    (values : List Value) : Forest Content :=
  match content with
  | .element name attributes =>
      Forest.single (.element name (fillAttributes marker attributes values)) children
  | .text data =>
      if data = "" then
        match values with
        | value :: _ => standInFor value
        | [] => Forest.single (.text data) children
      else
        Forest.single (.text data) children
  | other => Forest.single other children

/-- A cut forest with its slots bound to values, in document order. -/
def fill (marker : String) : Forest Content → List Value → Forest Content
  | .empty, _ => .empty
  | .plant content children siblings, values =>
      let here := slotCountAt marker content
      let inside := slotCount marker children
      fillNode marker content
          (fill marker children ((values.drop here).take inside)) (values.take here) ++
        fill marker siblings (values.drop (here + inside))

end Template

/-! ## Steps -/

namespace Attribute

theorem put_append {done rest : List Attribute} {entry : Attribute} (value : String)
    (fresh : entry.name ∉ done.map name) :
    put (done ++ entry :: rest) entry.name value = done ++ ⟨entry.name, value⟩ :: rest := by
  induction done with
  | nil => simp [put]
  | cons first others inductionHypothesis =>
      rw [List.map_cons, List.mem_cons, not_or] at fresh
      rw [List.cons_append, put, if_neg (Ne.symm fresh.1), inductionHypothesis fresh.2]
      rfl

theorem erase_append {done rest : List Attribute} {entry : Attribute}
    (distinct : ((done ++ entry :: rest).map name).Nodup) :
    erase (done ++ entry :: rest) entry.name = done ++ rest := by
  rw [List.map_append, List.map_cons, List.nodup_append'] at distinct
  obtain ⟨_, inRest, apart⟩ := distinct
  have keeps : ∀ entries : List Attribute, entry.name ∉ entries.map name →
      entries.filter (fun other => other.name ≠ entry.name) = entries := by
    intro entries absent
    refine List.filter_eq_self.2 ?_
    intro other member
    simp only [ne_eq, decide_eq_true_eq]
    intro same
    exact absent (same ▸ List.mem_map_of_mem member)
  unfold erase
  rw [List.filter_append, List.filter_cons_of_neg (by simp),
    keeps done fun member => apart member List.mem_cons_self,
    keeps rest (List.nodup_cons.1 inRest).1]

end Attribute

namespace Instance

open Template

/-- Binding all of these, none of which is refused, leads to the new document. -/
structure BindsTo (old : Document) (bound : List (Anchor × Value)) (new : Document) : Prop where
  document : (bindAll old bound).document = new
  outcome : (bindAll old bound).outcome = .ok ()

variable {old mid new document : Document} {parent : NodeId} {earlier later : List NodeId}

theorem bindsTo_nil (document : Document) : BindsTo document [] document := ⟨rfl, rfl⟩

theorem BindsTo.cons {anchor : Anchor} {value : Value} {rest : List (Anchor × Value)}
    (first : (Anchor.update old anchor value).outcome = .ok ())
    (second : BindsTo (Anchor.update old anchor value).document rest new) :
    BindsTo old ((anchor, value) :: rest) new := by
  constructor
  · rw [bindAll, Attempt.andThen, first]
    exact second.document
  · rw [bindAll, Attempt.andThen, first]
    exact second.outcome

theorem BindsTo.append {first second : List (Anchor × Value)} (earlier : BindsTo old first mid)
    (later : BindsTo mid second new) : BindsTo old (first ++ second) new := by
  induction first generalizing old with
  | nil =>
      obtain ⟨rfl, _⟩ := earlier
      exact later
  | cons bound rest inductionHypothesis =>
      obtain ⟨anchor, value⟩ := bound
      obtain ⟨document, outcome⟩ := earlier
      rw [bindAll, Attempt.andThen] at document outcome
      cases updated : (Anchor.update old anchor value).outcome with
      | error cause =>
          rw [updated] at outcome
          contradiction
      | ok done =>
          rw [updated] at document outcome
          exact BindsTo.cons updated (inductionHypothesis ⟨document, outcome⟩)

/-! ## Attributes -/

/-- An attribute is bound where it stands among the others. -/
theorem update_attribute {id : NodeId} {tag : String} {done rest : List Attribute}
    {entry : Attribute}
    (present : document.content? id = some (.element tag (done ++ entry :: rest)))
    (distinct : ((done ++ entry :: rest).map Attribute.name).Nodup) (value : Value)
    (noNode : ∀ node, value ≠ .node node) :
    ∃ bound, (Anchor.update document (.attributeValue id entry.name) value).document =
        document.setContent id (.element tag (done ++ bound)) ∧
      (Anchor.update document (.attributeValue id entry.name) value).outcome = .ok () ∧
      ((∃ data, value = .text data ∧ bound = ⟨entry.name, data⟩ :: rest) ∨
        (∀ data, value ≠ .text data) ∧ bound = rest) := by
  have fresh : entry.name ∉ done.map Attribute.name := by
    rw [List.map_append, List.map_cons, List.nodup_append'] at distinct
    exact fun member => distinct.2.2 member List.mem_cons_self
  obtain ⟨outcome, changed⟩ := Anchor.update_attributeValue present entry.name value
  cases value with
  | text data =>
      rw [Attribute.bind, Attribute.put_append data fresh] at changed
      exact ⟨_, changed, outcome, Or.inl ⟨data, rfl, rfl⟩⟩
  | node node => exact absurd rfl (noNode node)
  | _ =>
      simp only [Attribute.bind, Attribute.erase_append distinct] at changed
      exact ⟨rest, changed, outcome, Or.inr ⟨by simp, rfl⟩⟩

theorem bindsTo_attributes (marker : String) {id : NodeId} {tag : String}
    {children : Forest (NodeId × Content)} {done todo : List Attribute} {values : List Value}
    (stands : document.Stands parent earlier later
      (Forest.single (id, .element tag (done ++ todo)) children))
    (count : (marked marker todo).length = values.length)
    (noNode : ∀ value ∈ values, ∀ node, value ≠ .node node) :
    ∃ new, BindsTo document (((marked marker todo).map fun entry =>
        Anchor.attributeValue id entry.name).zip values) new ∧
      Reworks document new parent earlier later
        (Forest.single (id, .element tag (done ++ todo)) children)
        (Forest.single (id, .element tag (done ++ fillAttributes marker todo values))
          children) := by
  induction todo generalizing document done values with
  | nil => exact ⟨document, bindsTo_nil document, Reworks.refl stands⟩
  | cons entry rest inductionHypothesis =>
      have distinct : ((done ++ entry :: rest).map Attribute.name).Nodup :=
        stands.wellFormed.distinct stands.content?
      by_cases isSlot : entry.value = marker
      · have shape : marked marker (entry :: rest) = entry :: marked marker rest := by
          simp [marked, isSlot]
        rw [shape] at count ⊢
        cases values with
        | nil => simp at count
        | cons value others =>
            rw [List.forall_mem_cons] at noNode
            obtain ⟨bound, updated, outcome, result⟩ :=
              update_attribute stands.content? distinct value noNode.1
            have boundDistinct : ((done ++ bound).map Attribute.name).Nodup := by
              rcases result with ⟨data, _, same⟩ | ⟨_, same⟩
              · rw [same]
                simpa using distinct
              · rw [same]
                exact distinct.sublist
                  (((List.sublist_cons_self entry rest).append_left done).map Attribute.name)
            have step := stands.reworks_setContent (.element tag (done ++ bound)) rfl
              (by simp) boundDistinct
            rw [← updated] at step
            rw [List.length_cons, List.length_cons, Nat.add_right_cancel_iff] at count
            rcases result with ⟨data, rfl, same⟩ | ⟨absent, same⟩
            · rw [same] at step
              have regrouped : done ++ ⟨entry.name, data⟩ :: rest =
                  (done ++ [⟨entry.name, data⟩]) ++ rest := by simp
              rw [regrouped] at step
              obtain ⟨new, binds, reworks⟩ := inductionHypothesis step.stands count noNode.2
              refine ⟨new, BindsTo.cons outcome binds, ?_⟩
              rw [fillAttributes_of_text isSlot]
              simpa using step.trans reworks
            · rw [same] at step
              obtain ⟨new, binds, reworks⟩ := inductionHypothesis step.stands count noNode.2
              refine ⟨new, BindsTo.cons outcome binds, ?_⟩
              rw [fillAttributes_of_absent isSlot _ absent]
              exact step.trans reworks
      · have shape : marked marker (entry :: rest) = marked marker rest := by
          simp [marked, isSlot]
        have regrouped : done ++ entry :: rest = (done ++ [entry]) ++ rest := by simp
        rw [regrouped] at stands ⊢
        rw [shape] at count ⊢
        obtain ⟨new, binds, reworks⟩ := inductionHypothesis stands count noNode
        refine ⟨new, binds, ?_⟩
        rw [fillAttributes_of_ne isSlot]
        simpa using reworks

/-! ## Regions -/

theorem bindsTo_region {id next : NodeId}
    (stands : document.Stands parent earlier (next :: later)
      (Forest.single (id, .text "") .empty)) {value : Value}
    (noNode : ∀ node, value ≠ .node node) :
    ∃ new filled, BindsTo document [(.region earlier.getLast? next, value)] new ∧
      Reworks document new parent earlier (next :: later)
        (Forest.single (id, .text "") .empty) filled ∧
      filled.contents = standInFor value := by
  have row : document.children parent = earlier ++ ([id] ++ next :: later) := stands.row
  have region := Anchor.regionNodes_of_row stands.wellFormed row
  have isText : Anchor.isText document id = true := by
    simp [Anchor.isText, stands.content?, Content.text?]
  have one : ∀ new : Document, (Anchor.update document (.region earlier.getLast? next)
        value).document = new →
      (Anchor.update document (.region earlier.getLast? next) value).outcome = .ok () →
        BindsTo document [(.region earlier.getLast? next, value)] new := by
    intro new made outcome
    subst made
    exact BindsTo.cons outcome (bindsTo_nil _)
  cases value with
  | text data =>
      refine ⟨_, _, one (document.setContent id (.text data)) ?_ ?_,
        stands.reworks_setContent (.text data) rfl (by simp) (hasDistinctNames_text data), rfl⟩
      · simp [Anchor.update, Attempt.logged, Anchor.updateRegion, region, Anchor.fillWithText,
          isText, Anchor.clear]
      · simp [Anchor.update, Attempt.logged, Anchor.updateRegion, region, Anchor.fillWithText,
          isText]
  | node node => exact absurd rfl (noNode node)
  | _ =>
      refine ⟨_, .empty, one (document.detach id) ?_ rfl, stands.reworks_detach, rfl⟩
      simp [Anchor.update, Attempt.logged, Anchor.updateRegion, region, Anchor.clear]

/-! ## Whole trees -/

theorem length_anchorsAt (marker : String) (before next : Option NodeId)
    {label : NodeId × Content}
    (bounded : label.2 = .text "" → next.isSome) :
    (anchorsAt marker before next label).length = slotCountAt marker label.2 := by
  obtain ⟨id, content⟩ := label
  cases content with
  | element name attributes => simp [anchorsAt, slotCountAt]
  | text data =>
      simp only [anchorsAt, slotCountAt]
      split
      · rename_i empty
        obtain ⟨after, rfl⟩ := Option.isSome_iff_exists.1 (bounded (by rw [empty]))
        rfl
      · rfl
  | _ => rfl

theorem isSome_next_of_bounded {label : NodeId × Content}
    {children siblings : Forest (NodeId × Content)}
    (bounded : (Forest.plant label children siblings).contents.SlotsBounded) :
    label.2 = .text "" → siblings.rootIds.head?.isSome := by
  intro standIn
  obtain ⟨_, rest, shape⟩ := bounded.1 standIn
  change siblings.contents = _ at shape
  cases siblings with
  | empty => simp at shape
  | plant next nextChildren nextSiblings => rfl

theorem length_anchorsOf (marker : String) (before : Option NodeId)
    {forest : Forest (NodeId × Content)} (bounded : forest.contents.SlotsBounded) :
    (anchorsOf marker before forest).length = slotCount marker forest.contents := by
  induction forest generalizing before with
  | empty => rfl
  | plant label children siblings childrenHypothesis siblingsHypothesis =>
      rw [anchorsOf, List.length_append, List.length_append,
        length_anchorsAt marker before _ (isSome_next_of_bounded bounded),
        childrenHypothesis none bounded.2.1, siblingsHypothesis (some label.1) bounded.2.2]
      rfl

/-- Binding the anchors at a node that is not a stand-in changes its attributes at most. -/
theorem bindsTo_node (marker : String) (before next : Option NodeId) {label : NodeId × Content}
    {children : Forest (NodeId × Content)} {values : List Value}
    (stands : document.Stands parent earlier later (Forest.single label children))
    (notStandIn : label.2 ≠ .text "")
    (count : slotCountAt marker label.2 = values.length)
    (noNode : ∀ value ∈ values, ∀ node, value ≠ .node node) :
    ∃ new content, BindsTo document ((anchorsAt marker before next label).zip values) new ∧
      Reworks document new parent earlier later (Forest.single label children)
        (Forest.single (label.1, content) children) ∧
      ∀ inside, fillNode marker label.2 inside values = Forest.single content inside := by
  obtain ⟨id, content⟩ := label
  cases content with
  | element name attributes =>
      rw [← List.nil_append attributes] at stands
      obtain ⟨new, binds, reworks⟩ := bindsTo_attributes marker stands count noNode
      exact ⟨new, _, binds, reworks, fun _ => rfl⟩
  | text data =>
      have nonempty : data ≠ "" := fun empty => notStandIn (by rw [empty])
      refine ⟨document, .text data, ?_, Reworks.refl stands, fun _ => ?_⟩
      · simpa [anchorsAt, nonempty] using bindsTo_nil document
      · simp [fillNode, nonempty]
  | _ => exact ⟨document, _, bindsTo_nil document, Reworks.refl stands, fun _ => rfl⟩

theorem zip_append_split {Left Right : Type} {first second : List Left} {values : List Right}
    (within : first.length ≤ values.length) :
    (first ++ second).zip values =
      first.zip (values.take first.length) ++ second.zip (values.drop first.length) := by
  conv_lhs => rw [← List.take_append_drop first.length values]
  rw [List.zip_append (by simp [within])]

/-- Binding the anchors of the first tree of a block fills it, if binding those below its root does.
Should a slot follow at once, it is the root that stands before it. -/
theorem bindsTo_tree (marker : String) {label : NodeId × Content}
    {children siblings : Forest (NodeId × Content)} {before : Option NodeId}
    {here inside : List Value}
    (stands : document.Stands parent earlier (siblings.rootIds ++ later)
      (Forest.single label children))
    (bounded : (Forest.plant label children siblings).contents.SlotsBounded)
    (count : slotCountAt marker label.2 = here.length)
    (noNode : ∀ value ∈ here, ∀ node, value ≠ .node node)
    (neighbour : label.2 = .text "" → before = earlier.getLast?)
    (below : ∀ {mid : Document}, mid.Stands label.1 [] [] children →
      ∃ new filled, BindsTo mid ((anchorsOf marker none children).zip inside) new ∧
        Reworks mid new label.1 [] [] children filled ∧
        filled.contents = fill marker children.contents inside) :
    ∃ new filled,
      BindsTo document ((anchorsAt marker before siblings.rootIds.head? label).zip here ++
        (anchorsOf marker none children).zip inside) new ∧
      Reworks document new parent earlier (siblings.rootIds ++ later)
        (Forest.single label children) filled ∧
      filled.contents =
        fillNode marker label.2 (fill marker children.contents inside) here ∧
      ((∃ rest, siblings.contents = .plant (.text "") .empty rest) →
        some label.1 = (earlier ++ filled.rootIds).getLast?) := by
  by_cases standIn : label.2 = .text ""
  · obtain ⟨id, content⟩ := label
    simp only at standIn
    subst standIn
    obtain ⟨childless, rest, shape⟩ := bounded.1 rfl
    obtain rfl : children = .empty := Forest.contents_eq_empty_iff.1 childless
    change siblings.contents = _ at shape
    cases siblings with
    | empty => simp at shape
    | plant next nextChildren nextSiblings =>
        rw [Forest.contents_plant, Forest.plant.injEq] at shape
        obtain ⟨value, rfl⟩ := List.length_eq_one_iff.1 (count.symm.trans rfl)
        obtain ⟨new, filled, binds, reworks, contents⟩ :=
          bindsTo_region stands (noNode value (List.mem_singleton_self value))
        refine ⟨new, filled, ?_, reworks, ?_, ?_⟩
        · rw [neighbour rfl]
          simpa [anchorsAt, anchorsOf] using binds
        · simpa [fillNode] using contents
        · rintro ⟨_, begins⟩
          rw [Forest.contents_plant, Forest.plant.injEq, shape.1] at begins
          exact absurd begins.1 (by simp)
  · obtain ⟨mid, content, binds, reworks, filledNode⟩ := bindsTo_node marker before
      siblings.rootIds.head? stands standIn count noNode
    obtain ⟨new, filled, bindsInside, reworksInside, contents⟩ := below reworks.stands.inside
    refine ⟨new, Forest.single (label.1, content) filled, binds.append bindsInside,
      reworks.trans (Reworks.single reworks.stands reworksInside), ?_, fun _ => by simp⟩
    rw [filledNode, Forest.contents_single, contents]

/-- Binding the anchors of a cut block fills the block.  The node before the first anchor only
matters if the block begins with the text that stands in for it. -/
theorem reworks_bindAll (marker : String) {block : Forest (NodeId × Content)}
    {before : Option NodeId} {values : List Value}
    (stands : document.Stands parent earlier later block)
    (bounded : block.contents.SlotsBounded)
    (count : slotCount marker block.contents = values.length)
    (noNode : ∀ value ∈ values, ∀ node, value ≠ .node node)
    (neighbour : (∃ rest, block.contents = .plant (.text "") .empty rest) →
      before = earlier.getLast?) :
    ∃ new filled, BindsTo document ((anchorsOf marker before block).zip values) new ∧
      Reworks document new parent earlier later block filled ∧
      filled.contents = fill marker block.contents values := by
  induction block generalizing document parent earlier later before values with
  | empty => exact ⟨document, .empty, bindsTo_nil document, Reworks.refl stands, rfl⟩
  | plant label children siblings childrenHypothesis siblingsHypothesis =>
      have lengthHere := length_anchorsAt marker before siblings.rootIds.head?
        (isSome_next_of_bounded bounded)
      have lengthInside := length_anchorsOf marker none bounded.2.1
      rw [Forest.plant_eq_single_append] at stands ⊢
      rw [Forest.contents_plant, slotCount] at count
      have noNodeIn : ∀ {part : List Value}, part ⊆ values →
          ∀ value ∈ part, ∀ node, value ≠ .node node :=
        fun within value member => noNode value (within member)
      have hereValues := noNodeIn (List.take_subset (slotCountAt marker label.2) values)
      have insideValues := noNodeIn (List.Subset.trans (List.take_subset
        (slotCount marker children.contents) _)
        (List.drop_subset (slotCountAt marker label.2) values))
      have besideValues := noNodeIn (List.drop_subset
        (slotCountAt marker label.2 + slotCount marker children.contents) values)
      have beginsBlock : label.2 = .text "" → before = earlier.getLast? := by
        intro standIn
        have childless : children.contents = .empty := (bounded.1 standIn).1
        exact neighbour ⟨siblings.contents, by rw [Forest.contents_plant, standIn, childless]⟩
      -- the first tree, and then the trees after it
      obtain ⟨mid, filledFirst, bindsFirst, reworksFirst, contentsFirst, onward⟩ :=
        bindsTo_tree marker stands.left bounded (by rw [List.length_take]; omega) hereValues
          beginsBlock fun standsInside =>
            childrenHypothesis standsInside bounded.2.1
              (by rw [List.length_take, List.length_drop]; omega) insideValues
              (fun _ => List.getLast?_nil.symm)
      obtain ⟨new, filledSecond, bindsSecond, reworksSecond, contentsSecond⟩ :=
        siblingsHypothesis (reworksFirst.stands_right stands) bounded.2.2
          (by rw [List.length_drop]; omega) besideValues onward
      refine ⟨new, filledFirst ++ filledSecond, ?_,
        Reworks.append stands reworksFirst reworksSecond, ?_⟩
      · have binds := bindsFirst.append bindsSecond
        have whole : (anchorsOf marker before (Forest.single label children ++ siblings)) =
            anchorsAt marker before siblings.rootIds.head? label ++
              (anchorsOf marker none children ++ anchorsOf marker (some label.1) siblings) := rfl
        rw [whole, zip_append_split (by rw [lengthHere]; omega), lengthHere,
          zip_append_split (by rw [lengthInside, List.length_drop]; omega), lengthInside,
          List.drop_drop, ← List.append_assoc]
        exact binds
      · rw [Forest.contents_append, contentsFirst, contentsSecond]
        rfl

end Instance

end MarkupTemplate
