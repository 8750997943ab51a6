import MarkupTemplate.Proofs.Instance.Lodgers

/-!
# Instances gathered in one row

Any number of instances can be mounted in one node after the other, and their slots be bound at any
time.  The row of that node begins with what stood there at first, and every mounted instance
follows with its block.  Creating, binding and mounting instances leads from one such row to
another.
-/

namespace MarkupTemplate

open Document Relation Template

/-! ## Skeletons in a row -/

/-- The skeletons of mounted and waiting instances. -/
def skeletons (lodgers : List Lodger) (waiting : List Hosted) : List (List NodeId) :=
  lodgers.map (fun lodger => lodger.hosted.skeleton) ++ waiting.map Hosted.skeleton

/-- Instances were gathered in the row of the parent, which had other children in the document that
this began with.  Of these, and of what stands below them, nothing has changed. -/
structure Gathered (parent : NodeId) (base document : Document) (lodgers : List Lodger)
    (waiting : List Hosted) : Prop where
  formed : base.WellFormed
  housed : Housed document waiting
  ended : ∀ hosted ∈ waiting, hosted.Ended
  stays : ∀ lodger ∈ lodgers, lodger.Stays document
  row : document.children parent = base.children parent ++ lodgers.flatMap Lodger.block
  pinned : Lodger.Pinned (base.children parent).getLast? lodgers
  disjoint : (skeletons lodgers waiting).Pairwise List.Disjoint
  outside : ∀ skeleton ∈ skeletons lodgers waiting, ∀ id ∈ skeleton,
    ¬ ReflTransGen base.IsChild id parent
  closed : ∀ skeleton ∈ skeletons lodgers waiting, ∀ {id upper}, id ∈ skeleton →
    id ∈ document.children upper → upper = parent ∨ upper ∈ skeleton
  size_le : base.size ≤ document.size
  same : ∀ {id}, TransGen base.IsChild id parent →
    document.content? id = base.content? id ∧ document.children id = base.children id

theorem skeletons_perm (earlier later : List Lodger) (lodger : Lodger) (waiting : List Hosted) :
    (skeletons (earlier ++ lodger :: later) waiting).Perm
      (lodger.hosted.skeleton :: skeletons (earlier ++ later) waiting) := by
  simp only [skeletons, List.map_append, List.map_cons, List.append_assoc, List.cons_append]
  exact List.perm_middle

theorem skeletons_perm_waiting (lodgers : List Lodger) (hosted : Hosted)
    (earlier later : List Hosted) :
    (skeletons lodgers (earlier ++ hosted :: later)).Perm
      (hosted.skeleton :: skeletons lodgers (earlier ++ later)) := by
  simp only [skeletons, List.map_append, List.map_cons, ← List.append_assoc]
  exact List.perm_middle

theorem skeletons_rehold (earlier later : List Lodger) (lodger : Lodger) (waiting : List Hosted)
    (rehold : NodeId → List NodeId) :
    skeletons (earlier ++ { lodger with held := rehold } :: later) waiting =
      skeletons (earlier ++ lodger :: later) waiting := by
  simp only [skeletons, List.map_append, List.map_cons]

/-- Whatever skeleton of pairwise disjoint ones is taken first, it is disjoint from the others. -/
theorem disjoint_of_perm {skeleton : List NodeId} {all others : List (List NodeId)}
    (disjoint : all.Pairwise List.Disjoint) (perm : all.Perm (skeleton :: others)) :
    (∀ other ∈ others, skeleton.Disjoint other) ∧ others.Pairwise List.Disjoint :=
  List.pairwise_cons.1 ((perm.pairwise_iff fun apart => List.disjoint_comm.1 apart).1 disjoint)

namespace Gathered

variable {parent : NodeId} {base document new : Document} {lodgers earlier later : List Lodger}
  {lodger other : Lodger} {waiting : List Hosted} {hosted : Hosted}

theorem start (hosts : Hosts base waiting)
    (outside : ∀ hosted ∈ waiting, parent ∉ hosted.skeleton) :
    Gathered parent base base [] waiting where
  formed := hosts.housed.wellFormed
  housed := hosts.housed
  ended := hosts.ended
  stays := by simp
  row := by simp
  pinned := trivial
  disjoint := List.pairwise_map.2 hosts.housed.disjoint
  outside := by
    intro skeleton member id fixed path
    obtain ⟨hosted, isHosted, rfl⟩ := List.mem_map.1 member
    obtain ⟨_, holds⟩ := (hosts.housed.lives hosted isHosted).exists_holds
    exact outside hosted isHosted (holds.not_above fixed path)
  closed := by
    intro skeleton member id upper fixed child
    obtain ⟨hosted, isHosted, rfl⟩ := List.mem_map.1 member
    exact Or.inr ((hosts.housed.lives hosted isHosted).closed fixed child)
  size_le := Nat.le_refl _
  same _ := ⟨rfl, rfl⟩

/-! ### Reading the rows -/

theorem mem_skeletons (member : lodger ∈ lodgers) :
    lodger.hosted.skeleton ∈ skeletons lodgers waiting :=
  List.mem_append_left _ (List.mem_map.2 ⟨lodger, member, rfl⟩)

theorem mem_skeletons_of_waiting (member : hosted ∈ waiting) :
    hosted.skeleton ∈ skeletons lodgers waiting :=
  List.mem_append_right _ (List.mem_map_of_mem member)

section Reading

variable (gathered : Gathered parent base document lodgers waiting)

include gathered

theorem parent_not_mem {skeleton : List NodeId} (member : skeleton ∈ skeletons lodgers waiting) :
    parent ∉ skeleton :=
  fun fixed => gathered.outside skeleton member parent fixed ReflTransGen.refl

theorem present {skeleton : List NodeId} (member : skeleton ∈ skeletons lodgers waiting)
    {id : NodeId} (fixed : id ∈ skeleton) : id < document.size := by
  rcases List.mem_append.1 member with mounted | waits
  · obtain ⟨lodger, isLodger, rfl⟩ := List.mem_map.1 mounted
    exact (gathered.stays lodger isLodger).present fixed
  · obtain ⟨hosted, isHosted, rfl⟩ := List.mem_map.1 waits
    exact gathered.housed.present isHosted fixed

/-- The frame of a mounted instance is lodged in the row of the parent. -/
theorem lodges (split : lodgers = earlier ++ lodger :: later) :
    lodger.hosted.frame.Lodges (lodger.place parent)
      (lodger.aside (base.children parent ++ earlier.flatMap Lodger.block))
      (lodger.aside (later.flatMap Lodger.block)) lodger.held document := by
  have member : lodger ∈ lodgers := by
    rw [split]
    simp
  have stays := gathered.stays lodger member
  refine Frame.lodges_of_moved stays.own (gathered.parent_not_mem (mem_skeletons member))
    gathered.housed.wellFormed (fun _ => ?_) stays.row
  rw [gathered.row, split]
  simp [Lodger.block]

theorem getLast?_aside (split : lodgers = earlier ++ lodger :: later) (owner : NodeId) :
    (lodger.aside (base.children parent ++ earlier.flatMap Lodger.block) owner).getLast? =
      lodger.pins owner := by
  subst split
  have ends : ∀ first ∈ earlier, first.block.getLast? = first.last? := fun first member =>
    (gathered.stays first (List.mem_append_left _ member)).getLast?_block
  have pinned := ((Lodger.pinned_append_iff ends).1 gathered.pinned).2
  rw [Lodger.pins, pinned.1]
  exact getLast?_update_nil lodger.root _ owner

/-- The region of an anchor of a mounted instance is what its gap holds. -/
theorem regionNodes_eq (member : lodger ∈ lodgers) {site : Site} {anchor : Anchor}
    (reaches : lodger.hosted.frame.Reaches lodger.pins document site anchor) :
    Anchor.regionNodes document anchor = Frame.heldAt lodger.held site := by
  obtain ⟨earlier, later, split⟩ := List.append_of_mem member
  exact (gathered.lodges split).regionNodes_eq (gathered.getLast?_aside split) reaches

theorem blocks_subset : lodgers.flatMap Lodger.block ⊆ document.children parent := by
  rw [gathered.row]
  exact List.subset_append_right ..

/-- No node belongs to two instances. -/
theorem not_belongs {first second block other : List NodeId}
    (isFirst : first ∈ skeletons lodgers waiting) (isSecond : second ∈ skeletons lodgers waiting)
    (apart : first.Disjoint second) (within : block ⊆ lodgers.flatMap Lodger.block)
    (otherWithin : other ⊆ lodgers.flatMap Lodger.block) (blocks : block.Disjoint other)
    {id : NodeId} (belongs : document.Belongs block first id) :
    ¬ document.Belongs other second id := by
  have arranged := gathered.housed.wellFormed.arranged
  rcases belongs with inBlock | ⟨owner, fixed, child⟩
  · rintro (inOther | ⟨upper, otherFixed, again⟩)
    · exact blocks inBlock inOther
    · have same := arranged.eq_of_mem (gathered.blocks_subset (within inBlock)) again
      exact gathered.parent_not_mem isSecond (same ▸ otherFixed)
  · rintro (inOther | ⟨upper, otherFixed, again⟩)
    · have same := arranged.eq_of_mem (gathered.blocks_subset (otherWithin inOther)) child
      exact gathered.parent_not_mem isFirst (same ▸ fixed)
    · exact apart fixed (arranged.eq_of_mem child again ▸ otherFixed)

/-! ### What stood in the row at first -/

/-- The node above one that was there at first is still the same. -/
theorem exists_upper {id : NodeId} (below : TransGen base.IsChild id parent) :
    ∃ upper, ReflTransGen base.IsChild upper parent ∧ id ∈ base.children upper ∧
      id ∈ document.children upper := by
  obtain ⟨upper, step, path⟩ := TransGen.head'_iff.1 below
  have child := gathered.formed.arranged.isChild_iff.1 step
  refine ⟨upper, path, child, ?_⟩
  rcases reflTransGen_iff_eq_or_transGen.1 path with same | above
  · subst same
    rw [gathered.row]
    exact List.mem_append_left _ child
  · rwa [(gathered.same above).2]

theorem not_below_of_child {id owner : NodeId} (child : id ∈ document.children owner)
    (apart : ¬ ReflTransGen base.IsChild owner parent) : ¬ TransGen base.IsChild id parent := by
  intro below
  obtain ⟨upper, path, _, again⟩ := gathered.exists_upper below
  exact apart (gathered.housed.wellFormed.arranged.eq_of_mem again child ▸ path)

/-- What belongs to an instance was not there at first. -/
theorem not_below_of_belongs {skeleton block : List NodeId}
    (among : skeleton ∈ skeletons lodgers waiting) (within : block ⊆ lodgers.flatMap Lodger.block)
    {id : NodeId} (belongs : document.Belongs block skeleton id) :
    ¬ TransGen base.IsChild id parent := by
  rcases belongs with inBlock | ⟨owner, fixed, child⟩
  · intro below
    obtain ⟨upper, _, old, again⟩ := gathered.exists_upper below
    have arranged := gathered.housed.wellFormed.arranged
    obtain rfl := arranged.eq_of_mem again (gathered.blocks_subset (within inBlock))
    have distinct := arranged.nodup upper
    rw [gathered.row] at distinct
    exact (List.nodup_append'.1 distinct).2.2 old (within inBlock)
  · exact gathered.not_below_of_child child (gathered.outside _ among _ fixed)

theorem closed_of_confined {frame : Frame} {place : NodeId → NodeId}
    {ahead behind held rehold : NodeId → List NodeId} {site : Site}
    (before : frame.Lodges place ahead behind held document)
    (after : frame.Lodges place ahead behind rehold new)
    (confined : frame.Confined place held rehold document new site) :
    ∀ skeleton ∈ skeletons lodgers waiting, ∀ {id upper}, id ∈ skeleton →
      id ∈ new.children upper → upper = parent ∨ upper ∈ skeleton := by
  intro skeleton among id upper fixed child
  refine gathered.closed skeleton among fixed ?_
  exact (confined.mem_children before after child).resolve_right
    (Nat.ne_of_lt (gathered.present among fixed))

/-- What was there at first is the same after a slot was bound that is not there. -/
theorem same_of_confined {frame : Frame} {place : NodeId → NodeId}
    {held rehold : NodeId → List NodeId} {site : Site}
    (confined : frame.Confined place held rehold document new site)
    (rows : ∀ owner, frame.Owns owner site → ¬ TransGen base.IsChild (place owner) parent)
    (nodes : ∀ id ∈ Frame.footprint held site, ¬ TransGen base.IsChild id parent) {id : NodeId}
    (below : TransGen base.IsChild id parent) :
    new.content? id = base.content? id ∧ new.children id = base.children id := by
  obtain ⟨upper, _, child, _⟩ := gathered.exists_upper below
  have within := Nat.lt_of_lt_of_le (gathered.formed.arranged.lt_size_of_mem child)
    gathered.size_le
  obtain ⟨content, children⟩ := gathered.same below
  rw [confined.content? within fun inside => nodes id inside below,
    confined.children fun owner owns same => rows owner owns (same ▸ below)]
  exact ⟨content, children⟩

end Reading

/-! ### Binding a slot of a mounted instance -/

section Binding

variable {anchor : Anchor} {value : Value} {site : Site} {held rehold : NodeId → List NodeId}

/-- A slot of a mounted instance has a row in its skeleton, or in the parent, which is in none: no
row of another skeleton changes when it is bound. -/
theorem leaves_of_confined
    (gathered : Gathered parent base document (earlier ++ lodger :: later) waiting)
    {ahead behind : NodeId → List NodeId}
    (before : lodger.hosted.frame.Lodges (lodger.place parent) ahead behind held document)
    (after : lodger.hosted.frame.Lodges (lodger.place parent) ahead behind rehold
      (Anchor.update document anchor value).document)
    (confined : lodger.hosted.frame.Confined (lodger.place parent) held rehold document
      (Anchor.update document anchor value).document site) :
    ∀ skeleton ∈ skeletons (earlier ++ later) waiting,
      Leaves skeleton document (Anchor.update document anchor value).document := by
  intro skeleton among
  have perm := skeletons_perm earlier later lodger waiting
  have apart := (disjoint_of_perm gathered.disjoint perm).1 skeleton among
  have amongAll := perm.mem_iff.2 (List.mem_cons_of_mem _ among)
  refine confined.leaves before after (gathered.present amongAll) fun owner fixed inside => ?_
  by_cases isRoot : owner = lodger.root
  · rw [Lodger.place, isRoot, Function.update_self] at inside
    exact gathered.parent_not_mem amongAll inside
  · rw [Lodger.place, Function.update_of_ne isRoot] at inside
    exact apart fixed inside

/-- Binding a slot of a mounted instance to anything but a node changes nothing but what the slot
holds. -/
theorem exists_confined
    (gathered : Gathered parent base document (earlier ++ lodger :: later) waiting)
    (reaches : lodger.hosted.frame.Reaches lodger.pins document site anchor)
    (plain : ∀ id, anchor.kind = .region → value ≠ .node id) :
    (Anchor.update document anchor value).outcome = .ok () ∧ ∃ rehold,
      Gathered parent base (Anchor.update document anchor value).document
        (earlier ++ { lodger with held := rehold } :: later) waiting ∧
      lodger.hosted.frame.Confined (lodger.place parent) lodger.held rehold document
        (Anchor.update document anchor value).document site ∧
      (∀ gap, site = .region gap →
        (Anchor.update document anchor value).document.Presents (rehold gap) value) ∧
      ∀ hosted ∈ waiting, Leaves hosted.skeleton document
        (Anchor.update document anchor value).document := by
  have lodges := gathered.lodges rfl
  have member : lodger ∈ earlier ++ lodger :: later := by simp
  have stays := gathered.stays lodger member
  obtain ⟨rehold, outcome, after, confined, presents⟩ :=
    lodges.exists_confined_of_reaches stays.distinct (gathered.getLast?_aside rfl) reaches plain
  have leaves := gathered.leaves_of_confined lodges after confined
  have waits : ∀ hosted ∈ waiting, Leaves hosted.skeleton document
      (Anchor.update document anchor value).document :=
    fun hosted isHosted => leaves _ (mem_skeletons_of_waiting isHosted)
  refine ⟨outcome, rehold, ?_, confined, presents, waits⟩
  constructor
  · exact gathered.formed
  · exact gathered.housed.of_leaves after.wellFormed waits
  · exact gathered.ended
  · intro other isOther
    rcases List.mem_cons.1 (List.perm_middle.mem_iff.1 isOther) with rfl | among
    · exact stays.rehold after confined.size_le (Anchor.husk_update anchor value)
    · have isOld := List.perm_middle.mem_iff.2 (List.mem_cons_of_mem lodger among)
      exact (gathered.stays other isOld).of_leaves (leaves _ (mem_skeletons among))
  · have row := after.row stays.root
    rw [Lodger.place, Lodger.aside, Lodger.aside, Function.update_self, Function.update_self,
      Function.update_self] at row
    rw [row]
    simp [Lodger.block, Lodger.root]
  · exact gathered.pinned.rehold rehold
  · rw [skeletons_rehold]
    exact gathered.disjoint
  · rw [skeletons_rehold]
    exact gathered.outside
  · rw [skeletons_rehold]
    exact gathered.closed_of_confined lodges after confined
  · exact Nat.le_trans gathered.size_le confined.size_le
  · have outside := gathered.outside _ (mem_skeletons member)
    intro old below
    refine gathered.same_of_confined confined (fun owner owns => ?_) (fun id inside => ?_) below
    · by_cases isRoot : owner = lodger.root
      · rw [Lodger.place, isRoot, Function.update_self]
        exact gathered.formed.acyclic parent
      · rw [Lodger.place, Function.update_of_ne isRoot]
        exact fun below => outside owner owns.mem_fixed below.to_reflTransGen
    · rcases reaches.mem_footprint inside with fixed | inGap
      · exact fun below => outside id fixed below.to_reflTransGen
      · exact gathered.not_below_of_belongs (mem_skeletons member)
          (Lodger.block_subset member) (stays.belongs reaches inGap)

/-- Binding a slot of a waiting instance leaves the mounted ones alone. -/
theorem prepare (gathered : Gathered parent base document lodgers waiting)
    (member : hosted ∈ waiting) (own : anchor ∈ hosted.made.anchors)
    (plain : ∀ id, anchor.kind = .region → value ≠ .node id) :
    Gathered parent base (Anchor.update document anchor value).document lodgers waiting := by
  have isSkeleton : hosted.skeleton ∈ skeletons lodgers waiting := mem_skeletons_of_waiting member
  have outside := gathered.outside _ isSkeleton
  obtain ⟨held, site, distinct, holds, serves⟩ :=
    (gathered.housed.lives hosted member).exists_serves own
  obtain ⟨rehold, _, onward, confined, _⟩ := holds.exists_confined distinct serves plain
  have leaves : ∀ {skeleton}, skeleton ∈ skeletons lodgers waiting →
      hosted.skeleton.Disjoint skeleton →
        Leaves skeleton document (Anchor.update document anchor value).document :=
    fun among apart => confined.leaves holds.lodges onward.lodges (gathered.present among)
      fun owner fixed inside => apart fixed inside
  constructor
  · exact gathered.formed
  · exact (gathered.housed.update member own fun other _ id isRegion isNode =>
      absurd isNode (plain id isRegion)).2
  · exact gathered.ended
  · intro lodger isLodger
    have apart := (List.pairwise_append.1 gathered.disjoint).2.2 lodger.hosted.skeleton
      (List.mem_map.2 ⟨lodger, isLodger, rfl⟩) hosted.skeleton (List.mem_map_of_mem member)
    exact (gathered.stays lodger isLodger).of_leaves
      (leaves (mem_skeletons isLodger) (List.disjoint_comm.1 apart))
  · have apart : ∀ owner, hosted.frame.Owns owner site → parent ≠ id owner := fun owner owns same =>
      gathered.parent_not_mem isSkeleton ((show parent = owner from same) ▸ owns.mem_fixed)
    rw [confined.children apart, gathered.row]
  · exact gathered.pinned
  · exact gathered.disjoint
  · exact gathered.outside
  · exact gathered.closed_of_confined holds.lodges onward.lodges confined
  · exact Nat.le_trans gathered.size_le confined.size_le
  · refine gathered.same_of_confined confined
      (fun owner owns below => outside owner owns.mem_fixed below.to_reflTransGen) ?_
    intro id inside
    rcases (serves.reaches (Frame.staysInRow_nil _ anchor)).mem_footprint inside with fixed | inGap
    · exact fun below => outside id fixed below.to_reflTransGen
    · exact gathered.not_below_of_belongs isSkeleton (List.nil_subset _)
        (serves.belongs holds inGap)

end Binding

/-! ### New instances -/

/-- A new instance waits beside the others. -/
theorem create {copied : Document} {options : CompileOptions} {fragments : List String}
    {template : Template} {root : NodeId} {values : List Value} {made : Instance}
    (gathered : Gathered parent base document lodgers waiting) (present : parent < base.size)
    (compiled : Template.compile options fragments = .ok template)
    (copyMade : document.copyFrom template.document template.root = .ok (copied, root))
    (plain : ∀ id, ¬ template.PutsInRegion values id)
    (created : (Instance.create document template values).outcome = .ok made) :
    Gathered parent base (Instance.create document template values).document lodgers
      (⟨made, copied, template.skeleton copied root⟩ :: waiting) := by
  have housed := gathered.housed
  have onward := housed.create compiled copyMade (fun id puts => absurd puts (plain id)) created
  have ended := housed.ended_create compiled copyMade created
  obtain ⟨spares, new⟩ := housed.spares_create compiled copyMade plain created
  have perm := skeletons_perm_waiting lodgers ⟨made, copied, template.skeleton copied root⟩ []
    waiting
  constructor
  · exact gathered.formed
  · exact onward
  · exact List.forall_mem_cons.2 ⟨ended, gathered.ended⟩
  · intro lodger isLodger
    have stays := gathered.stays lodger isLodger
    exact stays.of_leaves (spares.leaves onward.wellFormed stays.present)
  · rw [spares.children (Nat.lt_of_lt_of_le present gathered.size_le), gathered.row]
  · exact gathered.pinned
  · refine (perm.pairwise_iff fun apart => List.disjoint_comm.1 apart).2
      (List.pairwise_cons.2 ⟨fun skeleton among id fixed old => ?_, gathered.disjoint⟩)
    exact Nat.not_lt_of_le (new id fixed) (gathered.present among old)
  · intro skeleton among
    rcases List.mem_cons.1 (perm.mem_iff.1 among) with rfl | old
    · intro id fixed path
      have within : id < base.size := by
        rcases ReflTransGen.cases_head path with rfl | ⟨upper, step, _⟩
        · exact present
        · exact gathered.formed.arranged.lt_size_of_mem
            (gathered.formed.arranged.isChild_iff.1 step)
      exact Nat.not_lt_of_le (new id fixed) (Nat.lt_of_lt_of_le within gathered.size_le)
    · exact gathered.outside skeleton old
  · intro skeleton among id upper fixed child
    rcases List.mem_cons.1 (perm.mem_iff.1 among) with rfl | old
    · exact Or.inr ((onward.lives _ List.mem_cons_self).closed fixed child)
    · refine gathered.closed skeleton old fixed ?_
      exact (spares.leaves onward.wellFormed (gathered.present old)).parents fixed child
  · exact Nat.le_trans gathered.size_le spares.size_le
  · intro id below
    obtain ⟨_, _, child, _⟩ := gathered.exists_upper below
    have within := Nat.lt_of_lt_of_le (gathered.formed.arranged.lt_size_of_mem child)
      gathered.size_le
    rw [spares.content? within, spares.children within]
    exact gathered.same below

/-! ### Mounting a waiting instance -/

/-- Mounting an instance leaves the other ones alone. -/
theorem leaves_of_mount {earlier later : List Hosted} {moved : Instance}
    (gathered : Gathered parent base document lodgers (earlier ++ hosted :: later))
    (done : Instance.mount document hosted.made parent = .ok (new, moved)) :
    ∀ skeleton ∈ skeletons lodgers (earlier ++ later), Leaves skeleton document new := by
  intro skeleton among
  have wellFormed := gathered.housed.wellFormed
  have lives := gathered.housed.lives hosted (by simp)
  have rows := Instance.children_of_mount done wellFormed lives.fragment
  have perm := skeletons_perm_waiting lodgers hosted earlier later
  have amongAll := perm.mem_iff.2 (List.mem_cons_of_mem _ among)
  -- the two rows that change are those of the parent and of the root
  have notParent := gathered.parent_not_mem amongAll
  have rootFree : hosted.made.root ∉ skeleton :=
    (disjoint_of_perm gathered.disjoint perm).1 skeleton among lives.root
  have outside := Instance.not_above_of_mount done wellFormed lives.fragment
  constructor
  · exact Instance.wellFormed_mount wellFormed done
  · exact Nat.le_of_eq (Instance.size_of_mount done).symm
  · intro id fixed
    rw [rows, Function.update_of_ne (by rintro rfl; exact notParent fixed),
      Function.update_of_ne (by rintro rfl; exact rootFree fixed)]
  · intro id upper fixed child
    refine (Instance.mem_children_of_mount done wellFormed lives.fragment child).resolve_right ?_
    rintro ⟨rfl, inRoot⟩
    rcases gathered.closed skeleton amongAll fixed inRoot with same | inside
    · exact outside (same ▸ ReflTransGen.refl)
    · exact rootFree inside
  · exact fun _ => congrArg _ (Instance.content?_of_mount done _)

/-- A mounted instance follows the others. -/
theorem mount {earlier later : List Hosted} {moved : Instance}
    (gathered : Gathered parent base document lodgers (earlier ++ hosted :: later))
    (done : Instance.mount document hosted.made parent = .ok (new, moved)) :
    ∃ lodger, lodger.hosted = { hosted with made := moved } ∧
      Gathered parent base new (lodgers ++ [lodger]) (earlier ++ later) := by
  have among : (earlier ++ later).Sublist (earlier ++ hosted :: later) := by simp
  have wellFormed := gathered.housed.wellFormed
  have lives := gathered.housed.lives hosted (by simp)
  have rows := Instance.children_of_mount done wellFormed lives.fragment
  have leaves := gathered.leaves_of_mount done
  obtain ⟨lodger, same, pin, block, stays⟩ :=
    lives.exists_stays_of_mount wellFormed (gathered.ended hosted (by simp)) done
  have isSkeleton : hosted.skeleton ∈ skeletons lodgers (earlier ++ hosted :: later) :=
    mem_skeletons_of_waiting (by simp)
  have perm : (skeletons (lodgers ++ [lodger]) (earlier ++ later)).Perm
      (skeletons lodgers (earlier ++ hosted :: later)) := by
    refine (skeletons_perm lodgers [] lodger _).trans ?_
    rw [same, List.append_nil]
    exact (skeletons_perm_waiting lodgers hosted earlier later).symm
  refine ⟨lodger, same, ?_⟩
  constructor
  · exact gathered.formed
  · exact (gathered.housed.forget among).of_leaves (Instance.wellFormed_mount wellFormed done)
      fun _ waits => leaves _ (mem_skeletons_of_waiting waits)
  · exact fun _ waits => gathered.ended _ (among.subset waits)
  · rw [List.forall_mem_append, List.forall_mem_singleton]
    exact ⟨fun old member => (gathered.stays old member).of_leaves
      (leaves _ (mem_skeletons member)), stays⟩
  · rw [rows, Function.update_self, gathered.row]
    simp [block]
  · refine (Lodger.pinned_append_iff fun _ member =>
      (gathered.stays _ member).getLast?_block).2 ⟨gathered.pinned, ?_, trivial⟩
    rw [pin, gathered.row]
  · exact (perm.pairwise_iff fun apart => List.disjoint_comm.1 apart).2 gathered.disjoint
  · exact fun skeleton member => gathered.outside skeleton (perm.mem_iff.1 member)
  · intro skeleton member id upper fixed child
    rcases Instance.mem_children_of_mount done wellFormed lives.fragment child with old | moved
    · exact gathered.closed skeleton (perm.mem_iff.1 member) fixed old
    · exact Or.inl moved.1
  · exact (Instance.size_of_mount done).symm ▸ gathered.size_le
  · intro id below
    have notParent : id ≠ parent := by
      rintro rfl
      exact gathered.formed.acyclic id below
    have notRoot : id ≠ hosted.made.root := by
      rintro rfl
      exact gathered.outside _ isSkeleton _ lives.root below.to_reflTransGen
    rw [Instance.content?_of_mount done, rows, Function.update_of_ne notParent,
      Function.update_of_ne notRoot]
    exact gathered.same below

end Gathered

end MarkupTemplate
