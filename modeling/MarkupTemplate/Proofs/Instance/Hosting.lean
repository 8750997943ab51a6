import MarkupTemplate.Proofs.Instance.Creation

/-!
# Documents that host instances

Any number of instances can live in one document.  Each of them holds on to its own skeleton, and
as long as no node of another skeleton is put into a region, instances can be created and the slots
of all of them be bound in any order: every instance lives on as if it were alone.
-/

namespace MarkupTemplate

open Document Relation Template

/-- An instance, with the document in which its template was just copied, and the skeleton it has
had since. -/
structure Hosted where
  made : Instance
  copied : Document
  skeleton : List NodeId

namespace Hosted

/-- The frame of the copy. -/
def frame (hosted : Hosted) : Frame :=
  .ofCopy hosted.skeleton hosted.copied

end Hosted

/-- The instances live in the document: it was reached by creating them, and by steps that put no
node of their skeletons into a region. -/
inductive Hosts : Document → List Hosted → Prop
  | start {document : Document} (reachable : document.Reachable) : Hosts document []
  /-- A template is instantiated. -/
  | create {document copied : Document} {living : List Hosted} {options : CompileOptions}
      {fragments : List String} {template : Template} {root : NodeId} {values : List Value}
      {made : Instance} (hosts : Hosts document living)
      (compiled : Template.compile options fragments = .ok template)
      (copyMade : document.copyFrom template.document template.root = .ok (copied, root))
      (admitted : ∀ id, template.PutsInRegion values id →
        id < document.size ∧ ∀ other ∈ living, id ∉ other.skeleton)
      (created : (Instance.create document template values).outcome = .ok made) :
      Hosts (Instance.create document template values).document
        (⟨made, copied, template.skeleton copied root⟩ :: living)
  /-- A slot of an instance is bound. -/
  | update {document : Document} {living : List Hosted} {hosted : Hosted} {anchor : Anchor}
      {value : Value} (hosts : Hosts document living) (member : hosted ∈ living)
      (own : anchor ∈ hosted.made.anchors)
      (admitted : ∀ other ∈ living, anchor.Admits other.skeleton document value) :
      Hosts (Anchor.update document anchor value).document living
  /-- The document is added to. -/
  | extend {document new : Document} {living : List Hosted} (hosts : Hosts document living)
      (reachable : new.Reachable) (spares : document.Spares new) : Hosts new living
  /-- Instances are given up. -/
  | forget {document : Document} {living kept : List Hosted} (hosts : Hosts document living)
      (among : kept.Sublist living) : Hosts document kept

/-! ## Living instances -/

/-- The instance is settled, and its skeleton stands below its root. -/
structure Lives (document : Document) (hosted : Hosted) : Prop where
  exists_settled : ∃ sites, Settled hosted.frame sites hosted.made.anchors document
  root : hosted.made.root ∈ hosted.skeleton
  fragment : document.content? hosted.made.root = some .fragment
  below : ∀ {id}, id ∈ hosted.skeleton →
    ReflTransGen document.IsChild id hosted.made.root

theorem Lives.exists_holds {document : Document} {hosted : Hosted} (lives : Lives document hosted) :
    ∃ held, hosted.frame.Holds held document := by
  obtain ⟨_, settled⟩ := lives.exists_settled
  exact settled.exists_holds

/-- The anchors of a living instance serve slots of its frame. -/
theorem Lives.exists_serves {document : Document} {hosted : Hosted} (lives : Lives document hosted)
    {anchor : Anchor} (own : anchor ∈ hosted.made.anchors) :
    ∃ held site, hosted.frame.Distinct ∧ hosted.frame.Holds held document ∧
      hosted.frame.Serves document site anchor := by
  obtain ⟨_, settled⟩ := lives.exists_settled
  obtain ⟨held, holds⟩ := settled.exists_holds
  obtain ⟨site, _, serves⟩ := settled.exists_site own
  exact ⟨held, site, settled.distinct, holds, serves⟩

/-- Above a node of the skeleton there is no other than one of the skeleton. -/
theorem Lives.closed {document : Document} {hosted : Hosted} (lives : Lives document hosted)
    {id upper : NodeId} (fixed : id ∈ hosted.skeleton) (child : id ∈ document.children upper) :
    upper ∈ hosted.skeleton := by
  obtain ⟨_, holds⟩ := lives.exists_holds
  exact holds.closed fixed child

/-- An instance lives on as long as its frame holds and nodes keep their kind. -/
theorem Lives.of_holds {document new : Document} {hosted : Hosted} (lives : Lives document hosted)
    (onward : ∀ {held}, hosted.frame.Holds held document →
      ∃ rehold, hosted.frame.Holds rehold new)
    (husk : ∀ {id}, id < document.size →
      (new.content? id).map Content.husk = (document.content? id).map Content.husk) :
    Lives new hosted := by
  obtain ⟨sites, settled⟩ := lives.exists_settled
  obtain ⟨held, holds⟩ := settled.exists_holds
  obtain ⟨rehold, still⟩ := onward holds
  refine ⟨⟨sites, settled.distinct, settled.nodup, ⟨rehold, still⟩, ?_⟩, lives.root, ?_, ?_⟩
  · exact settled.serves.imp fun _ _ serves =>
      serves.of_husk fun fixed => husk (holds.present fixed)
  · refine Content.eq_of_husk rfl rfl ?_
    rw [husk (holds.present lives.root), lives.fragment]
  · exact fun fixed => holds.above still fixed (lives.below fixed)

/-- Nothing has changed for these nodes: their rows are what they were, none of them has got another
parent, and all nodes have kept their kind. -/
structure Document.Leaves (nodes : List NodeId) (old new : Document) : Prop where
  wellFormed : new.WellFormed
  size_le : old.size ≤ new.size
  children : ∀ {id}, id ∈ nodes → new.children id = old.children id
  parents : ∀ {id parent}, id ∈ nodes → id ∈ new.children parent → id ∈ old.children parent
  husk : ∀ {id}, id < old.size →
    (new.content? id).map Content.husk = (old.content? id).map Content.husk

theorem Document.Leaves.holds {document new : Document} {frame : Frame}
    {held : NodeId → List NodeId} (leaves : Leaves frame.fixed document new)
    (holds : frame.Holds held document) : frame.Holds held new :=
  holds.of_rows leaves.wellFormed leaves.size_le leaves.children leaves.parents

theorem Frame.Owns.mem_fixed {frame : Frame} {owner : NodeId} {site : Site}
    (owns : frame.Owns owner site) : owner ∈ frame.fixed := by
  cases site with
  | region gap => exact owns.1
  | attributeValue => contradiction

/-- Binding a slot of a lodged frame changes nothing for nodes in whose rows the frame has no
place. -/
theorem Frame.Confined.leaves {document : Document} {frame : Frame} {place : NodeId → NodeId}
    {ahead behind held rehold : NodeId → List NodeId} {site : Site} {anchor : Anchor}
    {value : Value}
    (confined : frame.Confined place held rehold document
      (Anchor.update document anchor value).document site)
    (before : frame.Lodges place ahead behind held document)
    (after : frame.Lodges place ahead behind rehold (Anchor.update document anchor value).document)
    {nodes : List NodeId} (present : ∀ {id}, id ∈ nodes → id < document.size)
    (apart : ∀ owner ∈ frame.fixed, place owner ∉ nodes) :
    Leaves nodes document (Anchor.update document anchor value).document where
  wellFormed := after.wellFormed
  size_le := confined.size_le
  children member := confined.children fun owner owns same =>
    apart owner owns.mem_fixed (same ▸ member)
  parents member child :=
    (confined.mem_children before after child).resolve_right (Nat.ne_of_lt (present member))
  husk := Anchor.husk_update anchor value

theorem Document.Spares.leaves {document new : Document} (spares : document.Spares new)
    (wellFormed : new.WellFormed) {nodes : List NodeId}
    (present : ∀ {id}, id ∈ nodes → id < document.size) : Leaves nodes document new where
  wellFormed := wellFormed
  size_le := spares.size_le
  children member := spares.children (present member)
  parents member child := by
    rwa [spares.children (spares.above (present member) child)] at child
  husk within := by rw [spares.content? within]

theorem Lives.of_leaves {document new : Document} {hosted : Hosted} (lives : Lives document hosted)
    (leaves : Leaves hosted.skeleton document new) : Lives new hosted :=
  lives.of_holds (fun holds => ⟨_, leaves.holds holds⟩) leaves.husk

/-- The regions of an instance are what they were if nothing has changed for its skeleton. -/
theorem Lives.regionNodes_of_leaves {document new : Document} {hosted : Hosted}
    (lives : Lives document hosted) (leaves : Leaves hosted.skeleton document new)
    {anchor : Anchor} (own : anchor ∈ hosted.made.anchors) :
    Anchor.regionNodes new anchor = Anchor.regionNodes document anchor := by
  obtain ⟨_, _, _, holds, serves⟩ := lives.exists_serves own
  have still := serves.of_husk fun fixed => leaves.husk (holds.present fixed)
  rw [serves.regionNodes_eq holds, still.regionNodes_eq (leaves.holds holds)]

/-- The instances live, and no node is in two skeletons. -/
structure Housed (document : Document) (living : List Hosted) : Prop where
  wellFormed : document.WellFormed
  lives : ∀ hosted ∈ living, Lives document hosted
  disjoint : living.Pairwise fun first second => first.skeleton.Disjoint second.skeleton

namespace Housed

variable {document new : Document} {living kept : List Hosted} {hosted other : Hosted}
  {anchor : Anchor} {value : Value}

theorem disjoint_of_ne (housed : Housed document living) (member : hosted ∈ living)
    (isOther : other ∈ living) (different : hosted ≠ other) :
    hosted.skeleton.Disjoint other.skeleton := by
  have symmetric : Std.Symm fun first second : Hosted =>
      first.skeleton.Disjoint second.skeleton := ⟨fun _ _ apart => List.disjoint_comm.1 apart⟩
  exact housed.disjoint.forall member isOther different

theorem forget (housed : Housed document living) (among : kept.Sublist living) :
    Housed document kept :=
  ⟨housed.wellFormed, fun hosted member => housed.lives hosted (among.subset member),
    housed.disjoint.sublist among⟩

theorem of_leaves (housed : Housed document living) (wellFormed : new.WellFormed)
    (leaves : ∀ hosted ∈ living, Leaves hosted.skeleton document new) : Housed new living :=
  ⟨wellFormed, fun hosted member => (housed.lives hosted member).of_leaves (leaves hosted member),
    housed.disjoint⟩

theorem present (housed : Housed document living) (member : hosted ∈ living) {id : NodeId}
    (fixed : id ∈ hosted.skeleton) : id < document.size := by
  obtain ⟨_, holds⟩ := (housed.lives hosted member).exists_holds
  exact holds.present fixed

/-- Adding to a document disturbs no instance. -/
theorem extend (housed : Housed document living) (wellFormed : new.WellFormed)
    (spares : document.Spares new) : Housed new living :=
  housed.of_leaves wellFormed fun _ member => spares.leaves wellFormed (housed.present member)

/-! ## Binding slots -/

/-- Binding a slot of one instance disturbs none, unless a node of a skeleton is put into a
region. -/
theorem update (housed : Housed document living) (member : hosted ∈ living)
    (own : anchor ∈ hosted.made.anchors)
    (admitted : ∀ other ∈ living, anchor.Admits other.skeleton document value) :
    (Anchor.update document anchor value).outcome = .ok () ∧
      Housed (Anchor.update document anchor value).document living := by
  obtain ⟨sites, settled⟩ := (housed.lives hosted member).exists_settled
  obtain ⟨held, holds⟩ := settled.exists_holds
  obtain ⟨site, _, serves⟩ := settled.exists_site own
  obtain ⟨outcome, _, onward⟩ := settled.update own (admitted hosted member)
  refine ⟨outcome, Anchor.wellFormed_update housed.wellFormed anchor value,
    fun other isOther => ?_, housed.disjoint⟩
  refine (housed.lives other isOther).of_holds (fun otherHolds => ?_)
    (Anchor.husk_update anchor value)
  by_cases same : hosted = other
  · exact same ▸ onward.exists_holds
  · exact otherHolds.exists_holds_of_update holds settled.distinct serves (admitted hosted member)
      (admitted other isOther) (housed.disjoint_of_ne member isOther same)

theorem bindAll (housed : Housed document living) (member : hosted ∈ living)
    {bound : List (Anchor × Value)} (own : ∀ entry ∈ bound, entry.1 ∈ hosted.made.anchors)
    (admitted : ∀ entry ∈ bound, ∀ other ∈ living,
      entry.1.Admits other.skeleton document entry.2) :
    Housed (Instance.bindAll document bound).document living := by
  induction bound generalizing document with
  | nil => exact housed
  | cons first rest inductionHypothesis =>
      obtain ⟨anchor, value⟩ := first
      rw [List.forall_mem_cons] at own admitted
      obtain ⟨outcome, onward⟩ := housed.update member own.1 admitted.1
      rw [Instance.bindAll, Attempt.andThen, outcome]
      refine inductionHypothesis onward own.2 fun entry later other isOther id isRegion isNode => ?_
      obtain ⟨present, free⟩ := admitted.2 entry later other isOther id isRegion isNode
      exact ⟨Nat.lt_of_lt_of_le present (Anchor.size_le_update anchor value), free⟩

/-! ## New instances -/

/-- A new copy lives beside the instances that are there. -/
theorem cons {copied : Document} {template : Template} {marker : String}
    {block : Forest (NodeId × Content)} (housed : Housed document living)
    (copy : Instance.CopyOf document template marker copied block) :
    Housed copied (⟨⟨document.size, Instance.anchorsOf marker none block⟩, copied,
      template.skeleton copied document.size⟩ :: living) := by
  have onward := housed.extend copy.copiedIn.wellFormed (copy.spares housed.wellFormed)
  refine ⟨onward.wellFormed, ?_, List.pairwise_cons.2 ⟨?_, onward.disjoint⟩⟩
  · rw [List.forall_mem_cons]
    refine ⟨⟨⟨_, copy.settled⟩, ?_, copy.copiedIn.copied, ?_⟩, onward.lives⟩
    · refine copy.mem_skeleton_iff.2 ⟨Or.inl rfl, ?_⟩
      rw [copy.copiedIn.copied]
      simp
    · intro id fixed
      rcases (copy.mem_skeleton_iff.1 fixed).1 with rfl | inside
      · exact ReflTransGen.refl
      · exact (copy.stands.above inside).to_reflTransGen
  · intro other isOther id fixed old
    exact Nat.not_lt_of_le (copy.size_le fixed) (housed.present isOther old)

theorem create {copied : Document} {options : CompileOptions} {fragments : List String}
    {template : Template} {root : NodeId} {values : List Value} {made : Instance}
    (housed : Housed document living)
    (compiled : Template.compile options fragments = .ok template)
    (copyMade : document.copyFrom template.document template.root = .ok (copied, root))
    (admitted : ∀ id, template.PutsInRegion values id →
      id < document.size ∧ ∀ other ∈ living, id ∉ other.skeleton)
    (created : (Instance.create document template values).outcome = .ok made) :
    Housed (Instance.create document template values).document
      (⟨made, copied, template.skeleton copied root⟩ :: living) := by
  obtain ⟨_, block, same, copy⟩ := Instance.exists_copyOf_of_compile housed.wellFormed compiled
  rw [copyMade, Except.ok.injEq, Prod.mk.injEq] at same
  obtain ⟨rfl, rfl⟩ := same
  obtain ⟨rfl, _, new⟩ := copy.of_create copyMade created
  rw [new]
  refine (housed.cons copy).bindAll List.mem_cons_self
    (fun entry member => (List.of_mem_zip member).1) ?_
  intro entry member other isOther id isRegion isNode
  obtain ⟨present, free⟩ := admitted id (copy.putsInRegion (isNode ▸ member) isRegion)
  refine ⟨Nat.lt_of_lt_of_le present (copy.spares housed.wellFormed).size_le, ?_⟩
  rw [List.mem_cons] at isOther
  rcases isOther with rfl | old
  · exact fun fixed => Nat.not_lt_of_le (copy.size_le fixed) present
  · exact free other old

/-- An instance without a node in its regions is added to the document. -/
theorem spares_create {copied : Document} {options : CompileOptions} {fragments : List String}
    {template : Template} {root : NodeId} {values : List Value} {made : Instance}
    (housed : Housed document living)
    (compiled : Template.compile options fragments = .ok template)
    (copyMade : document.copyFrom template.document template.root = .ok (copied, root))
    (plain : ∀ id, ¬ template.PutsInRegion values id)
    (created : (Instance.create document template values).outcome = .ok made) :
    document.Spares (Instance.create document template values).document ∧
      ∀ id ∈ template.skeleton copied root, document.size ≤ id := by
  obtain ⟨_, block, same, copy⟩ := Instance.exists_copyOf_of_compile housed.wellFormed compiled
  rw [copyMade, Except.ok.injEq, Prod.mk.injEq] at same
  obtain ⟨rfl, rfl⟩ := same
  obtain ⟨_, _, new⟩ := copy.of_create copyMade created
  rw [new]
  exact ⟨copy.spares_bindAll housed.wellFormed plain, fun id fixed => copy.size_le fixed⟩

end Housed

/-- In a document that hosts instances, all of them live. -/
theorem Hosts.housed {document : Document} {living : List Hosted}
    (hosts : Hosts document living) : Housed document living := by
  induction hosts with
  | start reachable => exact ⟨reachable.wellFormed, by simp, .nil⟩
  | create _ compiled copyMade admitted created housed =>
      exact housed.create compiled copyMade admitted created
  | update _ member own admitted housed => exact (housed.update member own admitted).2
  | extend _ reachable spares housed => exact housed.extend reachable.wellFormed spares
  | forget _ among housed => exact housed.forget among

/-- Any compiled template can be instantiated beside the instances that are there. -/
theorem Hosts.exists_create {document : Document} {living : List Hosted}
    (hosts : Hosts document living) {options : CompileOptions} {fragments : List String}
    {template : Template} (compiled : Template.compile options fragments = .ok template)
    {values : List Value} (count : values.length = template.slots.length)
    (plain : ∀ id, .node id ∉ values) :
    ∃ made copied root, document.copyFrom template.document template.root = .ok (copied, root) ∧
      (Instance.create document template values).outcome = .ok made ∧
      Hosts (Instance.create document template values).document
        (⟨made, copied, template.skeleton copied root⟩ :: living) := by
  have none : ∀ id, ¬ template.PutsInRegion values id :=
    fun id ⟨_, member, _⟩ => plain id (List.of_mem_zip member).2
  obtain ⟨copied, block, copyMade, copy⟩ :=
    Instance.exists_copyOf_of_compile hosts.housed.wellFormed compiled
  obtain ⟨made, created⟩ := copy.outcome_create copyMade count fun id puts => absurd puts (none id)
  exact ⟨made, copied, document.size, copyMade, created,
    hosts.create compiled copyMade (fun id puts => absurd puts (none id)) created⟩

end MarkupTemplate
