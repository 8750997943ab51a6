import MarkupTemplate.Proofs.Instance.Settled
import MarkupTemplate.Proofs.Template.Filled

/-!
# What an instance shows

An instance shows values at its sites if every region presents the value of its slot, every
attribute that is a slot has the value's text or is missing, and all else is as in the template.
Binding a slot to a text or an absent value changes what is shown at this slot alone.  So what
stands below the root is known at any time from the template and the values last bound, but for the
order of attributes.
-/

namespace MarkupTemplate

open Document Template

/-! ## Attributes by name -/

namespace Attribute

theorem lookup?_cons (entry : Attribute) (rest : List Attribute) (name : String) :
    lookup? (entry :: rest) name =
      if entry.name = name then some entry.value else lookup? rest name := by
  by_cases same : entry.name = name <;> simp [lookup?, same]

theorem lookup?_eq_none_iff {attributes : List Attribute} {name : String} :
    lookup? attributes name = none ↔ name ∉ attributes.map Attribute.name := by
  simp [lookup?]

theorem mem_iff_lookup? {attributes : List Attribute}
    (distinct : (attributes.map Attribute.name).Nodup) (entry : Attribute) :
    entry ∈ attributes ↔ lookup? attributes entry.name = some entry.value := by
  induction attributes with
  | nil => simp [lookup?]
  | cons first rest inductionHypothesis =>
      rw [List.map_cons, List.nodup_cons] at distinct
      rw [List.mem_cons, lookup?_cons]
      by_cases same : first.name = entry.name
      · rw [if_pos same, Option.some.injEq]
        constructor
        · rintro (rfl | later)
          · rfl
          · exact absurd (same ▸ List.mem_map_of_mem later) distinct.1
        · intro value
          obtain ⟨firstName, firstValue⟩ := first
          obtain ⟨name, entryValue⟩ := entry
          exact Or.inl (by simp_all)
      · rw [if_neg same, ← inductionHypothesis distinct.2]
        exact or_iff_right fun equal => same (equal ▸ rfl)

theorem lookup?_bind (attributes : List Attribute) (name : String) (value : Value)
    (other : String) :
    lookup? (bind attributes name value) other =
      if other = name then value.text? else lookup? attributes other := by
  cases value with
  | text data => exact lookup?_put attributes name data other
  | _ => exact lookup?_erase attributes name other

/-- Attributes with the same values under the same names differ in their order at most. -/
theorem perm_of_lookup?_eq {left right : List Attribute}
    (leftDistinct : (left.map Attribute.name).Nodup)
    (rightDistinct : (right.map Attribute.name).Nodup)
    (same : ∀ name, lookup? left name = lookup? right name) : left.Perm right := by
  refine (List.perm_ext_iff_of_nodup leftDistinct.of_map rightDistinct.of_map).2 fun entry => ?_
  rw [mem_iff_lookup? leftDistinct, mem_iff_lookup? rightDistinct, same]

end Attribute

/-! ## Shown values -/

/-- The value of an attribute with its slots bound: the text that is shown in place of the
marker. -/
def shownValue? (marker : String) (bound : Value) (value : String) : Option String :=
  if value = marker then bound.text? else some value

namespace Template

theorem lookup?_fillAttributes (marker : String) {attributes : List Attribute}
    (distinct : (attributes.map Attribute.name).Nodup) (bound : String → Value) (name : String) :
    Attribute.lookup? (fillAttributes marker attributes
        ((marked marker attributes).map fun entry => bound entry.name)) name =
      (Attribute.lookup? attributes name).bind (shownValue? marker (bound name)) := by
  induction attributes with
  | nil => rfl
  | cons entry rest inductionHypothesis =>
      rw [List.map_cons, List.nodup_cons] at distinct
      have onward := inductionHypothesis distinct.2
      rw [Attribute.lookup?_cons]
      by_cases slot : entry.value = marker
      · have shape : marked marker (entry :: rest) = entry :: marked marker rest := by
          simp [marked, slot]
        rw [shape, List.map_cons]
        cases value : bound entry.name with
        | text data =>
            rw [fillAttributes_of_text slot, Attribute.lookup?_cons, onward]
            split
            · rename_i same
              subst same
              simp [shownValue?, slot, value, Value.text?]
            · rfl
        | _ =>
            rw [fillAttributes_of_absent slot _ (by simp), onward]
            split
            · rename_i same
              subst same
              rw [Attribute.lookup?_eq_none_iff.2 distinct.1]
              simp [shownValue?, slot, value, Value.text?]
            · rfl
      · have shape : marked marker (entry :: rest) = marked marker rest := by
          simp [marked, slot]
        rw [shape, fillAttributes_of_ne slot, Attribute.lookup?_cons, onward]
        split
        · rename_i same
          subst same
          simp [shownValue?, slot]
        · rfl

theorem exists_label_of_attributeValue {marker : String} {forest : Forest (NodeId × Content)}
    {id : NodeId} {name : String} (member : .attributeValue id name ∈ sites marker forest) :
    ∃ tag attributes, (id, .element tag attributes) ∈ forest.labels ∧
      ⟨name, marker⟩ ∈ attributes := by
  obtain ⟨⟨other, content⟩, isLabel, isSite⟩ := List.mem_flatMap.1 member
  cases content with
  | element tag attributes =>
      obtain ⟨entry, among, same⟩ := List.mem_map.1 isSite
      rw [Site.attributeValue.injEq] at same
      obtain ⟨rfl, rfl⟩ := same
      obtain ⟨within, isMarked⟩ := List.mem_filter.1 among
      rw [decide_eq_true_eq] at isMarked
      exact ⟨tag, attributes, isLabel, isMarked ▸ within⟩
  | text data =>
      simp only [sitesAt] at isSite
      split at isSite
      · rw [List.mem_singleton] at isSite
        contradiction
      · contradiction
  | _ => contradiction

end Template

/-! ## Shown instances -/

namespace Instance

variable {base copied document : Document} {template : Template} {marker : String}
  {block : Forest (NodeId × Content)} {copy : CopyOf base template marker copied block}

/-- The instance shows these values at its sites, and all else as in the template. -/
structure Shows (copy : CopyOf base template marker copied block) (bound : Site → Value)
    (held : NodeId → List NodeId) (document : Document) : Prop where
  holds : copy.frame.Holds held document
  serves : List.Forall₂ (copy.frame.Serves document) (sites marker block)
    (anchorsOf marker none block)
  region : ∀ {gap}, .region gap ∈ sites marker block →
    document.Presents (held gap) (bound (.region gap))
  element : ∀ {id tag attributes}, (id, .element tag attributes) ∈ block.labels →
    ∃ current, document.content? id = some (.element tag current) ∧
      ∀ name, Attribute.lookup? current name = (Attribute.lookup? attributes name).bind
        (shownValue? marker (bound (.attributeValue id name)))
  other : ∀ {id content}, (id, content) ∈ block.labels → content ≠ .text "" →
    content.name? = none → document.content? id = some content

/-- The values that the template itself shows at its sites. -/
def blankValue (marker : String) : Site → Value
  | .region _ => .text ""
  | .attributeValue _ _ => .text marker

theorem CopyOf.shows (copy : CopyOf base template marker copied block) :
    Shows copy (blankValue marker) (fun id => [id]) copied where
  holds := copy.holds
  serves := copy.serves
  region isSite := by
    have label := copy.stands.grows.content?_of_mem (region_mem_sites_iff.1 isSite)
    simp [Document.Presents, label, blankValue, Value.text?]
  element {id tag attributes} label := by
    refine ⟨attributes, copy.stands.grows.content?_of_mem label, fun name => ?_⟩
    cases Attribute.lookup? attributes name with
    | none => rfl
    | some value =>
        by_cases same : value = marker <;> simp [shownValue?, blankValue, Value.text?, same]
  other label _ _ := copy.stands.grows.content?_of_mem label

theorem CopyOf.fixed_of_label (copy : CopyOf base template marker copied block) {id : NodeId}
    {content : Content} (label : (id, content) ∈ block.labels) (notStandIn : content ≠ .text "") :
    id ∈ copy.frame.fixed := by
  refine copy.mem_skeleton_iff.2 ⟨Or.inr (List.mem_map_of_mem label), ?_⟩
  rwa [copy.stands.grows.content?_of_mem label, ne_eq, Option.some.injEq]

theorem presents_of_same {new : Document} {nodes : List NodeId} {value : Value}
    (presents : document.Presents nodes value)
    (same : ∀ id ∈ nodes, new.content? id = document.content? id) :
    new.Presents nodes value := by
  unfold Document.Presents at presents ⊢
  rw [← presents]
  exact List.map_congr_left same

/-- An element after one of its attributes was bound. -/
theorem CopyOf.element_update (copy : CopyOf base template marker copied block)
    {bound : Site → Value} {id : NodeId} {tag name : String}
    {attributes current : List Attribute} (label : (id, .element tag attributes) ∈ block.labels)
    (isSite : .attributeValue id name ∈ sites marker block)
    (found : document.content? id = some (.element tag current))
    (shown : ∀ name, Attribute.lookup? current name = (Attribute.lookup? attributes name).bind
      (shownValue? marker (bound (.attributeValue id name)))) (value : Value) :
    ∃ renewed, (Anchor.update document (.attributeValue id name) value).document.content? id =
        some (.element tag renewed) ∧
      ∀ other, Attribute.lookup? renewed other = (Attribute.lookup? attributes other).bind
        (shownValue? marker
          (Function.update bound (.attributeValue id name) value (.attributeValue id other))) := by
  obtain ⟨_, changed⟩ := Anchor.update_attributeValue found name value
  refine ⟨Attribute.bind current name value, ?_, fun other => ?_⟩
  · rw [changed, content?_setContent, if_pos ⟨rfl, lt_size_of_content? found⟩]
  · rw [Attribute.lookup?_bind]
    by_cases same : other = name
    · subst same
      obtain ⟨tag', attributes', isElement, isMarked⟩ := exists_label_of_attributeValue isSite
      have present := copy.stands.grows.content?_of_mem label
      have again := copy.stands.grows.content?_of_mem isElement
      rw [present, Option.some.injEq, Content.element.injEq] at again
      have distinct : (attributes.map Attribute.name).Nodup :=
        copy.stands.wellFormed.distinct present
      have marked := (Attribute.mem_iff_lookup? distinct _).1 (again.2 ▸ isMarked)
      rw [if_pos rfl, marked, Function.update_self, Option.bind_some, shownValue?, if_pos rfl]
    · rw [if_neg same, Function.update_of_ne (by simpa using same), shown]

namespace Shows

variable {bound : Site → Value} {held : NodeId → List NodeId} {site : Site} {anchor : Anchor}

/-- Binding a slot to a text or an absent value changes what is shown at this slot alone. -/
theorem update (shows : Shows copy bound held document) (isSite : site ∈ sites marker block)
    (serves : copy.frame.Serves document site anchor) {value : Value}
    (plain : ∀ id, value ≠ .node id) :
    ∃ rehold, (Anchor.update document anchor value).outcome = .ok () ∧
      Shows copy (Function.update bound site value) rehold
        (Anchor.update document anchor value).document := by
  have holds := shows.holds
  obtain ⟨rehold, outcome, onwardHolds, confined, presents⟩ :=
    holds.exists_confined (copy.distinct _) serves fun id _ => plain id
  have still := shows.serves.imp fun _ _ other => other.update holds anchor value
  -- nothing of another slot and no other fixed node is touched
  have same : ∀ {id}, id ∈ copy.frame.fixed → site.node ≠ id →
      (Anchor.update document anchor value).document.content? id = document.content? id := by
    intro id fixed different
    refine confined.content? (holds.present fixed) fun member => ?_
    cases serves with
    | region place _ => exact holds.free place.free member fixed
    | attributeValue => exact different (List.mem_singleton.1 member).symm
  have apart : ∀ {gap}, .region gap ∈ sites marker block → site ≠ .region gap →
      ∀ id ∈ held gap,
        (Anchor.update document anchor value).document.content? id = document.content? id := by
    intro gap isGap different id inside
    obtain ⟨_, _, otherServes⟩ := Frame.exists_anchor shows.serves isGap
    have disjoint := serves.disjoint otherServes holds different
    cases otherServes with
    | region place _ =>
        refine confined.content? (holds.lt_size place inside) fun member => ?_
        cases serves with
        | region => exact disjoint member inside
        | attributeValue fixed _ =>
            exact holds.free place.free inside (List.mem_singleton.1 member ▸ fixed)
  refine ⟨rehold, outcome, onwardHolds, still, ?_, ?_, ?_⟩
  · intro gap isGap
    by_cases here : site = .region gap
    · subst here
      rw [Function.update_self]
      exact presents gap rfl
    · rw [Function.update_of_ne (Ne.symm here), confined.others here]
      exact presents_of_same (shows.region isGap) (apart isGap here)
  · intro id tag attributes label
    have fixed := copy.fixed_of_label label (by simp)
    obtain ⟨current, found, shown⟩ := shows.element label
    by_cases here : site.node = id
    · cases serves with
      | @region _ gap _ _ _ place _ =>
          obtain rfl : gap = id := here
          exact absurd fixed place.free
      | @attributeValue element _ name _ _ _ =>
          obtain rfl : element = id := here
          exact copy.element_update label isSite found shown value
    · refine ⟨current, (same fixed here).trans found, fun name => ?_⟩
      have different : Site.attributeValue id name ≠ site := by
        rintro rfl
        exact here rfl
      rw [Function.update_of_ne different, shown]
  · intro id content label notStandIn notElement
    have fixed := copy.fixed_of_label label notStandIn
    refine (same fixed fun here => ?_).trans (shows.other label notStandIn notElement)
    cases serves with
    | @region _ gap _ _ _ place _ =>
        obtain rfl : gap = id := here
        exact absurd fixed place.free
    | @attributeValue element _ name _ _ _ =>
        obtain rfl : element = id := here
        obtain ⟨tag, attributes, isElement, _⟩ := exists_label_of_attributeValue isSite
        have grows := copy.stands.grows
        rw [Option.some.inj ((grows.content?_of_mem label).symm.trans
          (grows.content?_of_mem isElement))] at notElement
        contradiction

end Shows

end Instance

/-! ## The shown forest -/

/-- The forests are the same, but for the order of the attributes of an element. -/
inductive Forest.Reorders : Forest Content → Forest Content → Prop
  | empty : Reorders .empty .empty
  | element {name : String} {left right : List Attribute}
      {children others siblings following : Forest Content} (perm : left.Perm right)
      (inside : Reorders children others) (beside : Reorders siblings following) :
      Reorders (.plant (.element name left) children siblings)
        (.plant (.element name right) others following)
  | plant {content : Content} {children others siblings following : Forest Content}
      (inside : Reorders children others) (beside : Reorders siblings following) :
      Reorders (.plant content children siblings) (.plant content others following)

theorem Forest.Reorders.refl (forest : Forest Content) : forest.Reorders forest := by
  induction forest with
  | empty => exact .empty
  | plant _ _ _ inside beside => exact .plant inside beside

theorem Forest.Reorders.append {first second third fourth : Forest Content}
    (left : first.Reorders second) (right : third.Reorders fourth) :
    (first ++ third).Reorders (second ++ fourth) := by
  induction left with
  | empty => exact right
  | element perm inside _ _ onward => exact .element perm inside onward
  | plant inside _ _ onward => exact .plant inside onward

namespace Template

theorem fill_plant {marker : String} {content : Content} {children siblings : Forest Content}
    {here inside beside : List Value} (hereCount : here.length = slotCountAt marker content)
    (insideCount : inside.length = slotCount marker children) :
    fill marker (.plant content children siblings) (here ++ (inside ++ beside)) =
      fillNode marker content (fill marker children inside) here ++
        fill marker siblings beside := by
  rw [fill, ← hereCount, ← insideCount, List.drop_left, List.take_left, List.take_left,
    ← List.drop_drop, List.drop_left, List.drop_left]

end Template

namespace Instance.Shows

variable {base copied document : Document} {template : Template} {marker : String}
  {block part : Forest (NodeId × Content)} {copy : CopyOf base template marker copied block}
  {bound : Site → Value} {held : NodeId → List NodeId}

/-- A region shows the text of its value, if it has one. -/
theorem exists_grown_region (shows : Shows copy bound held document) {gap : NodeId}
    (isSite : .region gap ∈ sites marker block) :
    ∃ forest : Forest (NodeId × Content), forest.GrowsIn document ∧
      forest.rootIds = held gap ∧ forest.contents = standInFor (bound (.region gap)) := by
  have presents := shows.region isSite
  unfold Document.Presents at presents
  cases value : bound (.region gap) with
  | text data =>
      rw [value] at presents
      obtain ⟨id, alone, text⟩ := List.map_eq_singleton_iff.1 presents
      have childless : document.children id = [] := by
        by_contra nonempty
        have may := shows.holds.wellFormed.container text nonempty
        contradiction
      exact ⟨Forest.single (id, .text data) .empty, ⟨text, childless, trivial, trivial⟩,
        alone.symm, rfl⟩
  | _ =>
      rw [value] at presents
      exact ⟨.empty, trivial, (List.map_eq_nil_iff.1 presents).symm, rfl⟩

/-- A node that is not a stand-in has the children of the template, as they are shown. -/
theorem exists_grown_node (shows : Shows copy bound held document) {label : NodeId × Content}
    {children : Forest (NodeId × Content)} (isLabel : label ∈ block.labels)
    (notStandIn : label.2 ≠ .text "") (row : copied.children label.1 = children.rootIds)
    {inside : Forest (NodeId × Content)} (grows : inside.GrowsIn document)
    (roots : inside.rootIds = children.rootIds.flatMap held) {shown : Forest Content}
    (reorders : inside.contents.Reorders shown) :
    ∃ forest : Forest (NodeId × Content), forest.GrowsIn document ∧
      forest.rootIds = held label.1 ∧ forest.contents.Reorders
        (fillNode marker label.2 shown ((sitesAt marker label).map bound)) := by
  obtain ⟨id, content⟩ := label
  have fixed := copy.fixed_of_label isLabel notStandIn
  have rows : document.children id = inside.rootIds := by
    rw [shows.holds.row fixed, roots, ← row]
    rfl
  have alone : ∀ content, (Forest.single (id, content) inside).rootIds = held id := by
    intro content
    rw [Forest.rootIds_single, shows.holds.own fixed]
  cases content with
  | element tag attributes =>
      obtain ⟨current, found, same⟩ := shows.element isLabel
      have distinct : (attributes.map Attribute.name).Nodup :=
        copy.stands.wellFormed.distinct (copy.stands.grows.content?_of_mem isLabel)
      refine ⟨Forest.single (id, .element tag current) inside, ⟨found, rows, grows, trivial⟩,
        alone _, .element ?_ reorders .empty⟩
      refine Attribute.perm_of_lookup?_eq (shows.holds.wellFormed.distinct found)
        (distinct.sublist (Forest.sublist_names_fillAttributes marker attributes _)) fun name => ?_
      rw [same]
      have filled := lookup?_fillAttributes marker distinct
        (fun name => bound (.attributeValue id name)) name
      rw [← filled]
      simp [sitesAt, marked, Function.comp_def]
  | text data =>
      have nonempty : data ≠ "" := fun empty => notStandIn (by rw [empty])
      refine ⟨Forest.single (id, .text data) inside,
        ⟨shows.other isLabel notStandIn rfl, rows, grows, trivial⟩, alone _, ?_⟩
      simp only [fillNode, nonempty, ↓reduceIte]
      exact .plant reorders .empty
  | _ =>
      exact ⟨Forest.single (id, _) inside, ⟨shows.other isLabel notStandIn rfl, rows, grows,
        trivial⟩, alone _, .plant reorders .empty⟩

/-- What grows in the document is the template filled with the shown values. -/
theorem exists_grown (shows : Shows copy bound held document) (grows : part.GrowsIn copied)
    (within : part.labels ⊆ block.labels) :
    ∃ forest : Forest (NodeId × Content), forest.GrowsIn document ∧
      forest.rootIds = part.rootIds.flatMap held ∧
      forest.contents.Reorders (fill marker part.contents ((sites marker part).map bound)) := by
  induction part with
  | empty => exact ⟨.empty, trivial, rfl, .empty⟩
  | plant label children siblings childrenHypothesis siblingsHypothesis =>
      obtain ⟨_, row, insideGrows, besideGrows⟩ := grows
      rw [Forest.labels, List.cons_subset, List.append_subset] at within
      obtain ⟨isLabel, childrenWithin, siblingsWithin⟩ := within
      obtain ⟨inside, insideGrown, insideRoots, insideShown⟩ :=
        childrenHypothesis insideGrows childrenWithin
      obtain ⟨beside, besideGrown, besideRoots, besideShown⟩ :=
        siblingsHypothesis besideGrows siblingsWithin
      obtain ⟨here, hereGrown, hereRoots, hereShown⟩ : ∃ forest : Forest (NodeId × Content),
          forest.GrowsIn document ∧ forest.rootIds = held label.1 ∧ forest.contents.Reorders
            (fillNode marker label.2
              (fill marker children.contents ((sites marker children).map bound))
              ((sitesAt marker label).map bound)) := by
        by_cases standIn : label.2 = .text ""
        · obtain ⟨id, content⟩ := label
          obtain rfl : content = .text "" := standIn
          obtain ⟨forest, grown, roots, shown⟩ :=
            shows.exists_grown_region (region_mem_sites_iff.2 isLabel)
          refine ⟨forest, grown, roots, ?_⟩
          rw [shown]
          exact .refl _
        · exact shows.exists_grown_node isLabel standIn row insideGrown insideRoots insideShown
      refine ⟨here ++ beside, Forest.growsIn_append.2 ⟨hereGrown, besideGrown⟩, ?_, ?_⟩
      · rw [Forest.rootIds_append, hereRoots, besideRoots]
        rfl
      · rw [sites_plant, List.map_append, List.map_append, Forest.contents_plant, fill_plant
          (by rw [List.length_map, length_sitesAt]) (by rw [List.length_map, length_sites]),
          Forest.contents_append]
        exact hereShown.append besideShown

/-- What stands below the root is the template filled with the shown values. -/
theorem reorders_below (shows : Shows copy bound held document) :
    (document.below base.size).contents.Reorders
      (fill marker block.contents ((sites marker block).map bound)) := by
  obtain ⟨forest, grown, roots, shown⟩ :=
    shows.exists_grown copy.stands.grows (List.Subset.refl _)
  have root : base.size ∈ copy.frame.fixed := by
    refine copy.mem_skeleton_iff.2 ⟨Or.inl rfl, ?_⟩
    rw [copy.copiedIn.copied]
    simp
  have row : document.children base.size = forest.rootIds := by
    rw [shows.holds.row root, roots, ← copy.stands.hasBelow.row]
    rfl
  have hasBelow : document.HasBelow base.size forest := ⟨row, grown⟩
  rwa [hasBelow.below_eq shows.holds.wellFormed]

end Instance.Shows

end MarkupTemplate
