import MarkupTemplate.Proofs.Instance.Gathering

/-!
# Instances side by side

Instances that are mounted in the row of one node stay out of each other's way, and leave alone what
stood there before them.  However mounting them and binding their slots is interleaved, binding a
slot changes nothing but the region or the attribute that the slot is for.
-/

namespace MarkupTemplate

open Document Relation Template

/-! ## What binding a slot changes -/

/-- Between the documents nothing has changed but the slot of the anchor, which presents the value.
For a region these are the nodes between two siblings, and for an attribute it is one of an
element. -/
inductive ChangesSlot (old new : Document) (value : Value) : Anchor → Prop
  | region {before : Option NodeId} {after parent : NodeId} {left right : List NodeId}
      (begun : left.getLast? = before)
      (row : old.children parent =
        left ++ (Anchor.regionNodes old (.region before after) ++ after :: right))
      (refilled : new.children parent =
        left ++ (Anchor.regionNodes new (.region before after) ++ after :: right))
      (children : ∀ id, id ≠ parent → new.children id = old.children id)
      (content? : ∀ id < old.size, id ∉ Anchor.regionNodes old (.region before after) →
        new.content? id = old.content? id)
      (presents : new.Presents (Anchor.regionNodes new (.region before after)) value) :
      ChangesSlot old new value (.region before after)
  | attributeValue {id : NodeId} {tag name : String} {attributes : List Attribute}
      (element : old.content? id = some (.element tag attributes))
      (bound : new.content? id = some (.element tag (Attribute.bind attributes name value)))
      (children : new.children = old.children)
      (content? : ∀ other, other ≠ id → new.content? other = old.content? other) :
      ChangesSlot old new value (.attributeValue id name)

/-- The region of the other anchor is what it was, and has no node of the anchor's region in it. -/
def Anchor.SparesRegion (old new : Document) (anchor other : Anchor) : Prop :=
  regionNodes new other = regionNodes old other ∧
    (regionNodes old anchor).Disjoint (regionNodes old other)

/-- Binding the slot is not refused, and changes nothing but this slot of the instances. -/
structure BindsAlone (document : Document) (instances : List Hosted) (anchor : Anchor)
    (value : Value) : Prop where
  outcome : (Anchor.update document anchor value).outcome = .ok ()
  slot : ChangesSlot document (Anchor.update document anchor value).document value anchor
  others : ∀ other ∈ instances, ∀ otherAnchor ∈ other.made.anchors, otherAnchor ≠ anchor →
    anchor.SparesRegion document (Anchor.update document anchor value).document otherAnchor

namespace Frame

variable {frame : Frame} {place : NodeId → NodeId} {ahead behind : NodeId → List NodeId}
  {held rehold : NodeId → List NodeId} {pin : NodeId → Option NodeId} {document : Document}
  {site otherSite : Site} {anchor otherAnchor : Anchor} {value : Value}

section Confined

variable (distinct : frame.Distinct)
  (before : frame.Lodges place ahead behind held document)
  (after : frame.Lodges place ahead behind rehold (Anchor.update document anchor value).document)
  (pinned : ∀ owner, (ahead owner).getLast? = pin owner)
  (confined : frame.Confined place held rehold document
    (Anchor.update document anchor value).document site)
  (reaches : frame.Reaches pin document site anchor)

include distinct before after pinned confined reaches

theorem Reaches.changesSlot (presents : ∀ gap, site = .region gap →
      (Anchor.update document anchor value).document.Presents (rehold gap) value) :
    ChangesSlot document (Anchor.update document anchor value).document value anchor := by
  cases reaches with
  | @region parent gap ends left right gapAt _ =>
      have region := before.regionNodes_of_gapAt pinned gapAt
      have refilled := after.regionNodes_of_gapAt pinned gapAt
      have begun := before.getLast?_append gapAt
      rw [pinned] at begun
      have beside : ∀ {ids : List NodeId}, gap ∉ ids → ids.flatMap rehold = ids.flatMap held := by
        refine fun absent => List.flatMap_congr fun id member => confined.others ?_
        rintro ⟨⟩
        exact absent member
      obtain ⟨inLeft, inRight⟩ := gapAt.gap_not_mem distinct
      have row := after.row_of_gapAt gapAt
      rw [beside inLeft, beside fun member => inRight (List.mem_cons_of_mem _ member)] at row
      refine .region begun (by rw [region, before.row_of_gapAt gapAt]) (by rw [refilled, row]) ?_ ?_
        (by rw [refilled]; exact presents gap rfl)
      · intro id notParent
        refine confined.children fun owner owns same => notParent ?_
        rw [same, distinct.eq_of_mem owns.1 gapAt.owner owns.2 gapAt.mem_rows]
      · rw [region]
        exact fun id within outside => confined.content? within outside
  | @attributeValue id tag name attributes fixed element =>
      obtain ⟨_, changed⟩ := Anchor.update_attributeValue element name value
      have within := lt_size_of_content? element
      rw [changed]
      have rows := before.wellFormed.children_setContent id
        (.element tag (Attribute.bind attributes name value))
      refine .attributeValue element (by simp [within]) rows fun other different => ?_
      rw [content?_setContent, if_neg fun here => different here.1.symm]

/-- Every other slot of the frame holds what it held. -/
theorem Reaches.sparesRegion (otherReaches : frame.Reaches pin document otherSite otherAnchor)
    (present : ∀ {id}, id ∈ frame.fixed → id < document.size) (different : otherAnchor ≠ anchor) :
    anchor.SparesRegion document (Anchor.update document anchor value).document otherAnchor := by
  have unequal : site ≠ otherSite := by
    rintro rfl
    exact different (otherReaches.anchor_eq distinct reaches)
  have still : frame.Reaches pin (Anchor.update document anchor value).document otherSite
      otherAnchor :=
    otherReaches.of_husk fun fixed => Anchor.husk_update anchor value (present fixed)
  rw [Anchor.SparesRegion, before.regionNodes_eq pinned reaches,
    before.regionNodes_eq pinned otherReaches, after.regionNodes_eq pinned still]
  refine ⟨?_, reaches.disjoint otherReaches before unequal⟩
  cases otherSite with
  | region gap => exact confined.others unequal
  | attributeValue => rfl

end Confined

end Frame

/-! ## Instances that are not mounted -/

section Slots

variable {parent : NodeId} {base document : Document} {lodgers earlier later : List Lodger}
  {lodger : Lodger} {living waiting : List Hosted} {hosted : Hosted} {anchor otherAnchor : Anchor}
  {value : Value}

theorem Lives.belongs (lives : Lives document hosted) (own : anchor ∈ hosted.made.anchors)
    {id : NodeId} (inside : id ∈ Anchor.regionNodes document anchor) :
    document.Belongs [] hosted.skeleton id := by
  obtain ⟨_, _, _, holds, serves⟩ := lives.exists_serves own
  rw [serves.regionNodes_eq holds] at inside
  exact serves.belongs holds inside

theorem Housed.bindsAlone (housed : Housed document living) (member : hosted ∈ living)
    (own : anchor ∈ hosted.made.anchors)
    (plain : ∀ id, anchor.kind = .region → value ≠ .node id) :
    BindsAlone document living anchor value := by
  have lives := housed.lives hosted member
  obtain ⟨held, site, distinct, holds, serves⟩ := lives.exists_serves own
  obtain ⟨rehold, outcome, onward, confined, presents⟩ :=
    holds.exists_confined distinct serves plain
  have reaches := serves.reaches (Frame.staysInRow_nil _ anchor)
  refine ⟨outcome, reaches.changesSlot distinct holds.lodges onward.lodges (fun _ => rfl) confined
    presents, fun other isOther otherAnchor otherOwn different => ?_⟩
  by_cases same : other = hosted
  · subst same
    obtain ⟨_, _, _, _, otherServes⟩ := lives.exists_serves otherOwn
    exact reaches.sparesRegion distinct holds.lodges onward.lodges (fun _ => rfl) confined
      (otherServes.reaches (Frame.staysInRow_nil _ otherAnchor)) holds.present different
  · have apart := housed.disjoint_of_ne member isOther (Ne.symm same)
    have otherLives := housed.lives other isOther
    have leaves := confined.leaves holds.lodges onward.lodges (housed.present isOther)
      fun owner fixed inside => apart fixed inside
    refine ⟨otherLives.regionNodes_of_leaves leaves otherOwn, fun id inside inOther => ?_⟩
    obtain ⟨owner, fixed, child⟩ := (lives.belongs own inside).resolve_left List.not_mem_nil
    obtain ⟨upper, otherFixed, again⟩ :=
      (otherLives.belongs otherOwn inOther).resolve_left List.not_mem_nil
    exact apart fixed (housed.wellFormed.arranged.eq_of_mem child again ▸ otherFixed)

/-! ## Mounted instances -/

namespace Gathered

theorem belongs (gathered : Gathered parent base document lodgers waiting)
    (member : lodger ∈ lodgers) (own : anchor ∈ lodger.hosted.made.anchors) {id : NodeId}
    (inside : id ∈ Anchor.regionNodes document anchor) :
    document.Belongs lodger.block lodger.hosted.skeleton id := by
  have stays := gathered.stays lodger member
  obtain ⟨_, reaches⟩ := stays.reaches anchor own
  rw [gathered.regionNodes_eq member reaches] at inside
  exact stays.belongs reaches inside

/-- A slot of a mounted instance and one of an instance that waits have no node in common. -/
theorem disjoint_of_waiting (gathered : Gathered parent base document lodgers waiting)
    (member : lodger ∈ lodgers) (own : anchor ∈ lodger.hosted.made.anchors)
    (waits : hosted ∈ waiting) (otherOwn : otherAnchor ∈ hosted.made.anchors) :
    (Anchor.regionNodes document anchor).Disjoint (Anchor.regionNodes document otherAnchor) := by
  have apart := (List.pairwise_append.1 gathered.disjoint).2.2 lodger.hosted.skeleton
    (List.mem_map.2 ⟨lodger, member, rfl⟩) hosted.skeleton (List.mem_map_of_mem waits)
  exact fun id inside inOther => gathered.not_belongs (mem_skeletons member)
    (mem_skeletons_of_waiting waits) apart (Lodger.block_subset member) (List.nil_subset _)
    (List.disjoint_nil_right _) (gathered.belongs member own inside)
    ((gathered.housed.lives hosted waits).belongs otherOwn inOther)

/-- Slots of different mounted instances have no node in common. -/
theorem disjoint_of_mounted
    (gathered : Gathered parent base document (earlier ++ lodger :: later) waiting)
    {other : Lodger} (among : other ∈ earlier ++ later)
    (own : anchor ∈ lodger.hosted.made.anchors)
    (otherOwn : otherAnchor ∈ other.hosted.made.anchors) :
    (Anchor.regionNodes document anchor).Disjoint (Anchor.regionNodes document otherAnchor) := by
  have perm : (earlier ++ lodger :: later).Perm (lodger :: (earlier ++ later)) := List.perm_middle
  have member := perm.mem_iff.2 List.mem_cons_self
  have isOther := perm.mem_iff.2 (List.mem_cons_of_mem _ among)
  have apart := (disjoint_of_perm gathered.disjoint (skeletons_perm earlier later lodger waiting)).1
    other.hosted.skeleton (mem_skeletons among)
  have blocks : lodger.block.Disjoint other.block := by
    have distinct := gathered.housed.wellFormed.arranged.nodup parent
    rw [gathered.row, List.nodup_append'] at distinct
    have nodup := ((perm.flatMap_right Lodger.block).nodup_iff).1 distinct.2.1
    rw [List.flatMap_cons, List.nodup_append'] at nodup
    exact fun id inBlock inOther => nodup.2.2 inBlock (Lodger.block_subset among inOther)
  exact fun id inside inOther => gathered.not_belongs (mem_skeletons member)
    (mem_skeletons isOther) apart (Lodger.block_subset member) (Lodger.block_subset isOther) blocks
    (gathered.belongs member own inside) (gathered.belongs isOther otherOwn inOther)

/-- The slots of a mounted instance that stays as it is have the same regions after a binding. -/
theorem regionNodes_update (gathered : Gathered parent base document lodgers waiting)
    {others : List Lodger} {bound : Anchor}
    (onward : Gathered parent base (Anchor.update document bound value).document others waiting)
    (member : lodger ∈ lodgers) (again : lodger ∈ others)
    (own : anchor ∈ lodger.hosted.made.anchors) :
    Anchor.regionNodes (Anchor.update document bound value).document anchor =
      Anchor.regionNodes document anchor := by
  have stays := gathered.stays lodger member
  obtain ⟨_, reaches⟩ := stays.reaches anchor own
  rw [gathered.regionNodes_eq member reaches, onward.regionNodes_eq again (reaches.of_husk
    fun fixed => Anchor.husk_update bound value (stays.present fixed))]

theorem bindsAlone_of_waiting (gathered : Gathered parent base document lodgers waiting)
    (waits : hosted ∈ waiting) (own : anchor ∈ hosted.made.anchors)
    (plain : ∀ id, anchor.kind = .region → value ≠ .node id) :
    BindsAlone document (lodgers.map Lodger.hosted ++ waiting) anchor value := by
  have alone := gathered.housed.bindsAlone waits own plain
  refine ⟨alone.outcome, alone.slot, fun other isOther otherAnchor otherOwn different => ?_⟩
  rcases List.mem_append.1 isOther with mounted | alsoWaits
  · obtain ⟨lodger, member, rfl⟩ := List.mem_map.1 mounted
    exact ⟨gathered.regionNodes_update (gathered.prepare waits own plain) member member otherOwn,
      List.disjoint_comm.1 (gathered.disjoint_of_waiting member otherOwn waits own)⟩
  · exact alone.others other alsoWaits otherAnchor otherOwn different

theorem bindsAlone_of_mounted
    (gathered : Gathered parent base document (earlier ++ lodger :: later) waiting)
    (own : anchor ∈ lodger.hosted.made.anchors)
    (plain : ∀ id, anchor.kind = .region → value ≠ .node id) :
    BindsAlone document ((earlier ++ lodger :: later).map Lodger.hosted ++ waiting) anchor
      value := by
  have perm : (earlier ++ lodger :: later).Perm (lodger :: (earlier ++ later)) := List.perm_middle
  have member := perm.mem_iff.2 List.mem_cons_self
  have stays := gathered.stays lodger member
  obtain ⟨site, reaches⟩ := stays.reaches anchor own
  obtain ⟨outcome, rehold, onward, confined, presents, leaves⟩ :=
    gathered.exists_confined reaches plain
  have before := gathered.lodges rfl
  have after := onward.lodges rfl
  have pinned := gathered.getLast?_aside rfl
  refine ⟨outcome, reaches.changesSlot stays.distinct before after pinned confined presents,
    fun other isOther otherAnchor otherOwn different => ?_⟩
  rcases List.mem_append.1 isOther with mounted | waits
  · obtain ⟨second, isLodger, rfl⟩ := List.mem_map.1 mounted
    rcases List.mem_cons.1 (perm.mem_iff.1 isLodger) with rfl | among
    · obtain ⟨_, otherReaches⟩ := stays.reaches otherAnchor otherOwn
      exact reaches.sparesRegion stays.distinct before after pinned confined otherReaches
        stays.present different
    · have again : second ∈ earlier ++ { lodger with held := rehold } :: later :=
        List.perm_middle.mem_iff.2 (List.mem_cons_of_mem _ among)
      exact ⟨gathered.regionNodes_update onward isLodger again otherOwn,
        gathered.disjoint_of_mounted among own otherOwn⟩
  · exact ⟨(gathered.housed.lives other waits).regionNodes_of_leaves (leaves other waits) otherOwn,
      gathered.disjoint_of_waiting member own waits otherOwn⟩

end Gathered

end Slots

/-! ## Runs of mounts and updates -/

/-- Instances are gathered in the row of the parent: they are created and mounted there, and slots
of them are bound before and afterwards.  The mounted ones are listed in the order of their
mounting, with the anchors that they have since; the others wait. -/
inductive Gathers (parent : NodeId) (base : Document) (living : List Hosted) :
    Document → List Hosted → List Hosted → Prop
  | start : Gathers parent base living base [] living
  /-- Another instance is created, and waits. -/
  | create {document copied : Document} {mounted waiting : List Hosted} {options : CompileOptions}
      {fragments : List String} {template : Template} {root : NodeId} {values : List Value}
      {made : Instance} (gathers : Gathers parent base living document mounted waiting)
      (compiled : Template.compile options fragments = .ok template)
      (copyMade : document.copyFrom template.document template.root = .ok (copied, root))
      (plain : ∀ id, ¬ template.PutsInRegion values id)
      (created : (Instance.create document template values).outcome = .ok made) :
      Gathers parent base living (Instance.create document template values).document mounted
        (⟨made, copied, template.skeleton copied root⟩ :: waiting)
  /-- A slot of a waiting instance is bound. -/
  | prepare {document : Document} {mounted waiting : List Hosted} {hosted : Hosted}
      {anchor : Anchor} {value : Value}
      (gathers : Gathers parent base living document mounted waiting)
      (member : hosted ∈ waiting) (own : anchor ∈ hosted.made.anchors)
      (plain : ∀ id, anchor.kind = .region → value ≠ .node id) :
      Gathers parent base living (Anchor.update document anchor value).document mounted waiting
  /-- A waiting instance is mounted. -/
  | mount {document new : Document} {mounted earlier later : List Hosted} {hosted : Hosted}
      {moved : Instance}
      (gathers : Gathers parent base living document mounted (earlier ++ hosted :: later))
      (done : Instance.mount document hosted.made parent = .ok (new, moved)) :
      Gathers parent base living new (mounted ++ [{ hosted with made := moved }])
        (earlier ++ later)
  /-- A slot of a mounted instance is bound. -/
  | update {document : Document} {mounted waiting : List Hosted} {hosted : Hosted}
      {anchor : Anchor} {value : Value}
      (gathers : Gathers parent base living document mounted waiting)
      (member : hosted ∈ mounted) (own : anchor ∈ hosted.made.anchors)
      (plain : ∀ id, anchor.kind = .region → value ≠ .node id) :
      Gathers parent base living (Anchor.update document anchor value).document mounted waiting

section Runs

variable {parent : NodeId} {base document : Document} {lodgers : List Lodger}
  {living mounted waiting : List Hosted}

theorem Gathers.exists_gathered (gathers : Gathers parent base living document mounted waiting)
    (hosts : Hosts base living) (present : parent < base.size)
    (outside : ∀ hosted ∈ living, parent ∉ hosted.skeleton) :
    ∃ lodgers, lodgers.map Lodger.hosted = mounted ∧
      Gathered parent base document lodgers waiting := by
  induction gathers with
  | start => exact ⟨[], rfl, .start hosts outside⟩
  | create _ compiled copyMade plain created inductionHypothesis =>
      obtain ⟨lodgers, same, gathered⟩ := inductionHypothesis
      exact ⟨lodgers, same, gathered.create present compiled copyMade plain created⟩
  | prepare _ member own plain inductionHypothesis =>
      obtain ⟨lodgers, same, gathered⟩ := inductionHypothesis
      exact ⟨lodgers, same, gathered.prepare member own plain⟩
  | mount _ done inductionHypothesis =>
      obtain ⟨lodgers, rfl, gathered⟩ := inductionHypothesis
      obtain ⟨lodger, same, onward⟩ := gathered.mount done
      exact ⟨lodgers ++ [lodger], by simp [same], onward⟩
  | update _ member own plain inductionHypothesis =>
      obtain ⟨lodgers, rfl, gathered⟩ := inductionHypothesis
      obtain ⟨lodger, isLodger, rfl⟩ := List.mem_map.1 member
      obtain ⟨_, reaches⟩ := (gathered.stays lodger isLodger).reaches _ own
      obtain ⟨earlier, later, rfl⟩ := List.append_of_mem isLodger
      obtain ⟨_, rehold, onward, _⟩ := gathered.exists_confined reaches plain
      exact ⟨_, by simp, onward⟩

/-- What stood below the children that the parent had at first stands there still. -/
theorem Gathered.below_eq (gathered : Gathered parent base document lodgers waiting) {id : NodeId}
    (child : id ∈ base.children parent) :
    document.content? id = base.content? id ∧ document.below id = base.below id := by
  have step := gathered.formed.arranged.isChild_iff.2 child
  refine ⟨(gathered.same (.single step)).1, below_eq_of_same gathered.formed
    gathered.housed.wellFormed ?_ ?_⟩
  · exact fun lower path => (gathered.same (.tail' path step)).1
  · exact fun lower path => (gathered.same (.tail' path step)).2

theorem Gathered.bindsAlone {hosted : Hosted} {anchor : Anchor} {value : Value}
    (gathered : Gathered parent base document lodgers waiting)
    (member : hosted ∈ lodgers.map Lodger.hosted ++ waiting) (own : anchor ∈ hosted.made.anchors)
    (plain : ∀ id, anchor.kind = .region → value ≠ .node id) :
    BindsAlone document (lodgers.map Lodger.hosted ++ waiting) anchor value := by
  rcases List.mem_append.1 member with isMounted | waits
  · obtain ⟨lodger, isLodger, rfl⟩ := List.mem_map.1 isMounted
    obtain ⟨earlier, later, rfl⟩ := List.append_of_mem isLodger
    exact gathered.bindsAlone_of_mounted own plain
  · exact gathered.bindsAlone_of_waiting waits own plain

/-- An instance can be mounted in every element and every fragment that is not its own root or below
it, and all its regions are the same afterwards.  Instances that are mounted in one node after the
other follow what stood there before, of which nothing changes, and binding a slot of any of them
changes no other slot.  The node is not in the skeleton of any of the instances, since one with this
node in its skeleton could not be mounted there. -/
theorem Hosts.mount_side_by_side (hosts : Hosts base living) :
    (∀ hosted ∈ living, ∀ target, Mounts base hosted.made target) ∧
      ∀ parent < base.size, (∀ hosted ∈ living, parent ∉ hosted.skeleton) →
        ∀ reached mounted waiting, Gathers parent base living reached mounted waiting →
          base.children parent <+: reached.children parent ∧
          (∀ id ∈ base.children parent,
            reached.content? id = base.content? id ∧ reached.below id = base.below id) ∧
          (∀ hosted ∈ waiting, ∀ target, Mounts reached hosted.made target) ∧
          ∀ hosted ∈ mounted ++ waiting, ∀ anchor ∈ hosted.made.anchors, ∀ value,
            (∀ id, anchor.kind = .region → value ≠ .node id) →
              BindsAlone reached (mounted ++ waiting) anchor value := by
  refine ⟨fun hosted member target =>
    (hosts.housed.lives hosted member).mounts hosts.housed.wellFormed target, ?_⟩
  intro parent present outside reached mounted waiting gathers
  obtain ⟨lodgers, rfl, gathered⟩ := gathers.exists_gathered hosts present outside
  refine ⟨?_, fun id => gathered.below_eq, ?_, ?_⟩
  · rw [gathered.row]
    exact List.prefix_append ..
  · exact fun hosted waits target =>
      (gathered.housed.lives hosted waits).mounts gathered.housed.wellFormed target
  · exact fun hosted member anchor own value plain => gathered.bindsAlone member own plain

/-- A slot that opens an instance keeps behind a text that was there before the instance was
mounted. -/
theorem Hosts.mount_behind_text :
    ∃ base hosted new moved, Hosts base [hosted] ∧ base.children 0 = [1] ∧
      hosted.made.anchors = [.region none 4] ∧ Mounts base hosted.made 0 ∧
      Instance.mount base hosted.made 0 = .ok (new, moved) ∧
      moved.anchors = [.region (some 1) 4] ∧
      BindsAlone new [{ hosted with made := moved }] (.region (some 1) 4) .null ∧
      [1] <+: (Anchor.update new (.region (some 1) 4) .null).document.children 0 := by
  let filled := ((Document.empty.perform (.createElement "p")).perform
    (.createText "lead")).perform (.append 0 1)
  have reachable : filled.Reachable :=
    ((Reachable.empty.onward rfl rfl).onward rfl rfl).onward rfl rfl
  have computed : (Template.compile {} ["", "<b>x</b>"]).toOption.bind (fun template =>
      (filled.copyFrom template.document template.root).toOption.bind fun copy =>
        let creation := Instance.create filled template [.text "a"]
        creation.outcome.toOption.bind fun made =>
          (Instance.mount creation.document made 0).toOption.map fun mounted =>
            (template.slots.length, template.skeleton copy.1 copy.2, made, mounted.2,
              creation.document.children 0)) =
      some (1, [2, 4, 5, 6], ⟨2, [.region none 4]⟩, ⟨2, [.region (some 1) 4]⟩, [1]) := by
    decide +kernel
  obtain ⟨template, compiled, computed⟩ := Option.bind_eq_some_iff.1 computed
  obtain ⟨⟨copied, root⟩, copyMade, computed⟩ := Option.bind_eq_some_iff.1 computed
  obtain ⟨made, created, computed⟩ := Option.bind_eq_some_iff.1 computed
  obtain ⟨⟨new, moved⟩, done, result⟩ := Option.map_eq_some_iff.1 computed
  simp only [Prod.mk.injEq] at result
  obtain ⟨slots, skeleton, rfl, rfl, row⟩ := result
  obtain ⟨_, _, _, copyAgain, again, hosts⟩ := (Hosts.start reachable).exists_create
    (eq_ok_of_toOption compiled) (show [Value.text "a"].length = _ from slots.symm) (by simp)
  rw [eq_ok_of_toOption created, Except.ok.injEq] at again
  rw [eq_ok_of_toOption copyMade, Except.ok.injEq, Prod.mk.injEq] at copyAgain
  obtain ⟨rfl, rfl⟩ := copyAgain
  subst again
  have mounted := eq_ok_of_toOption done
  let base := (Instance.create filled template [.text "a"]).document
  let hosted : Hosted := ⟨⟨2, [.region none 4]⟩, copied, template.skeleton copied root⟩
  let behind : Hosted := { hosted with made := ⟨2, [.region (some 1) 4]⟩ }
  let emptied := (Anchor.update new (.region (some 1) 4) .null).document
  have child : 1 ∈ base.children 0 := by
    rw [row]
    exact List.mem_singleton_self 1
  have present := hosts.housed.wellFormed.arranged.parent_lt_size_of_mem child
  have waits : Gathers 0 base [hosted] base [] ([] ++ hosted :: []) := .start
  have gathers : Gathers 0 base [hosted] new [behind] [] := waits.mount mounted
  have onward : Gathers 0 base [hosted] emptied [behind] [] :=
    gathers.update List.mem_cons_self List.mem_cons_self (by simp)
  obtain ⟨mounts, others⟩ := hosts.mount_side_by_side
  have sideBySide := others 0 present (by simp [skeleton])
  have alone := (sideBySide _ _ _ gathers).2.2.2 behind List.mem_cons_self (.region (some 1) 4)
    List.mem_cons_self .null (by simp)
  have still := (sideBySide _ _ _ onward).1
  rw [row] at still
  exact ⟨base, hosted, new, _, hosts, row, rfl, mounts hosted List.mem_cons_self 0, mounted, rfl,
    alone, still⟩

end Runs

end MarkupTemplate
