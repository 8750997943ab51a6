import MarkupTemplate.Proofs.Instance.Mounting

/-!
# Mounted instances as lodgers

What stood below the root of a mounted instance is a block in the row of another node.  This block
ends at a node of the skeleton, whatever the slots of the instance hold, so that the instance which
is mounted behind it stays pinned to the same node for good.
-/

namespace MarkupTemplate

open Document Relation Template

/-! ## Rows that end at fixed nodes -/

/-- The row of the root ends at a node of the skeleton. -/
def Hosted.Ended (hosted : Hosted) : Prop :=
  ∀ last, (hosted.frame.rows hosted.made.root).getLast? = some last → last ∈ hosted.skeleton

/-- The last tree of a cut forest is not an empty text. -/
theorem Forest.SlotsBounded.last_ne {forest : Forest (NodeId × Content)}
    (bounded : forest.contents.SlotsBounded) {label : NodeId × Content}
    (last : forest.roots.getLast? = some label) :
    label ∈ forest.labels ∧ label.2 ≠ .text "" := by
  induction forest with
  | empty => contradiction
  | plant first children siblings _ siblingsHypothesis =>
      obtain ⟨standIn, _, beside⟩ := bounded
      cases siblings with
      | empty =>
          obtain rfl : first = label := Option.some.inj last
          refine ⟨List.mem_cons_self, fun empty => ?_⟩
          obtain ⟨_, _, shape⟩ := standIn empty
          contradiction
      | plant next inside rest =>
          have later : (Forest.plant next inside rest).roots.getLast? = some label := by
            rwa [Forest.roots, Forest.roots, List.getLast?_cons_cons, ← Forest.roots] at last
          obtain ⟨member, different⟩ := siblingsHypothesis beside later
          exact ⟨List.mem_cons_of_mem _ (List.mem_append_right _ member), different⟩

theorem Instance.CopyOf.last_mem_skeleton {document copied : Document} {template : Template}
    {marker : String} {block : Forest (NodeId × Content)}
    (copy : CopyOf document template marker copied block) {last : NodeId}
    (ends : (copied.children document.size).getLast? = some last) :
    last ∈ template.skeleton copied document.size := by
  have row : copied.children document.size = block.rootIds := by
    rw [copy.stands.row]
    simp
  rw [row, Forest.rootIds, List.getLast?_map] at ends
  obtain ⟨label, isLast, rfl⟩ := Option.map_eq_some_iff.1 ends
  obtain ⟨member, different⟩ := copy.bounded.last_ne isLast
  refine copy.mem_skeleton_iff.2 ⟨Or.inr (List.mem_map_of_mem member), ?_⟩
  rw [copy.stands.grows.content?_of_mem member]
  simpa using different

theorem Housed.ended_create {document copied : Document} {living : List Hosted}
    {options : CompileOptions} {fragments : List String} {template : Template} {root : NodeId}
    {values : List Value} {made : Instance} (housed : Housed document living)
    (compiled : Template.compile options fragments = .ok template)
    (copyMade : document.copyFrom template.document template.root = .ok (copied, root))
    (created : (Instance.create document template values).outcome = .ok made) :
    Hosted.Ended ⟨made, copied, template.skeleton copied root⟩ := by
  obtain ⟨_, block, same, copy⟩ := Instance.exists_copyOf_of_compile housed.wellFormed compiled
  rw [copyMade, Except.ok.injEq, Prod.mk.injEq] at same
  obtain ⟨rfl, rfl⟩ := same
  obtain ⟨rfl, _⟩ := copy.of_create copyMade created
  exact fun last ends => copy.last_mem_skeleton ends

theorem Hosts.ended {document : Document} {living : List Hosted} (hosts : Hosts document living) :
    ∀ hosted ∈ living, hosted.Ended := by
  induction hosts with
  | start => simp
  | create hosts compiled copyMade _ created inductionHypothesis =>
      rw [List.forall_mem_cons]
      exact ⟨hosts.housed.ended_create compiled copyMade created, inductionHypothesis⟩
  | update _ _ _ _ inductionHypothesis => exact inductionHypothesis
  | extend _ _ _ inductionHypothesis => exact inductionHypothesis
  | forget _ among inductionHypothesis =>
      exact fun hosted member => inductionHypothesis hosted (among.subset member)

/-! ## Lodgers -/

/-- The node is in the block, or it is a child of a node of the skeleton. -/
def Document.Belongs (document : Document) (block skeleton : List NodeId) (id : NodeId) : Prop :=
  id ∈ block ∨ ∃ owner ∈ skeleton, id ∈ document.children owner

theorem Frame.Serves.belongs {frame : Frame} {held : NodeId → List NodeId} {document : Document}
    {site : Site} {anchor : Anchor} (serves : frame.Serves document site anchor)
    (holds : frame.Holds held document) {id : NodeId} (inside : id ∈ Frame.heldAt held site) :
    document.Belongs [] frame.fixed id := by
  cases serves with
  | attributeValue => contradiction
  | region place _ => exact Or.inr ⟨_, place.owner, holds.mem_children place inside⟩

/-- A mounted instance, with what its gaps hold, and the node that ended the row when the instance
was mounted in it. -/
structure Lodger where
  hosted : Hosted
  held : NodeId → List NodeId
  pin : Option NodeId

namespace Lodger

variable {lodger : Lodger} {document new : Document}

def root (lodger : Lodger) : NodeId :=
  lodger.hosted.made.root

/-- What stood below the root, and is now in the row of the parent. -/
def block (lodger : Lodger) : List NodeId :=
  (lodger.hosted.frame.rows lodger.root).flatMap lodger.held

theorem block_subset {lodgers : List Lodger} (member : lodger ∈ lodgers) :
    lodger.block ⊆ lodgers.flatMap block :=
  fun _ inside => List.mem_flatMap.2 ⟨lodger, member, inside⟩

/-- The node at the end of the block. -/
def last? (lodger : Lodger) : Option NodeId :=
  (lodger.hosted.frame.rows lodger.root).getLast?

/-- The node that the anchors in a row of the instance are pinned to. -/
def pins (lodger : Lodger) : NodeId → Option NodeId :=
  Function.update (fun _ => none) lodger.root lodger.pin

/-- The places of the rows of the instance: that of the root is in the row of the parent. -/
def place (lodger : Lodger) (parent : NodeId) : NodeId → NodeId :=
  Function.update id lodger.root parent

/-- What stands on one side of the rows of the instance: these nodes beside that of the root. -/
def aside (lodger : Lodger) (ids : List NodeId) : NodeId → List NodeId :=
  Function.update (fun _ => []) lodger.root ids

/-- The rows of the skeleton but for that of the root are in the document, and the anchors serve the
slots. -/
structure Stays (lodger : Lodger) (document : Document) : Prop where
  distinct : lodger.hosted.frame.Distinct
  root : lodger.root ∈ lodger.hosted.skeleton
  ended : lodger.hosted.Ended
  own : ∀ {id}, id ∈ lodger.hosted.skeleton → lodger.held id = [id]
  present : ∀ {id}, id ∈ lodger.hosted.skeleton → id < document.size
  row : ∀ {id}, id ∈ lodger.hosted.skeleton → id ≠ lodger.root →
    document.children id = (lodger.hosted.frame.rows id).flatMap lodger.held
  reaches : ∀ anchor ∈ lodger.hosted.made.anchors,
    ∃ site, lodger.hosted.frame.Reaches lodger.pins document site anchor

theorem Stays.getLast?_block (stays : lodger.Stays document) :
    lodger.block.getLast? = lodger.last? := by
  have own : ∀ {id}, id ∈ lodger.hosted.frame.fixed → lodger.held id = [id] := stays.own
  exact Frame.getLast?_flatMap own stays.ended

theorem Stays.of_leaves (stays : lodger.Stays document)
    (leaves : Leaves lodger.hosted.skeleton document new) : lodger.Stays new where
  distinct := stays.distinct
  root := stays.root
  ended := stays.ended
  own := stays.own
  present fixed := Nat.lt_of_lt_of_le (stays.present fixed) leaves.size_le
  row fixed notRoot := (leaves.children fixed).trans (stays.row fixed notRoot)
  reaches anchor own := by
    obtain ⟨site, reaches⟩ := stays.reaches anchor own
    exact ⟨site, reaches.of_husk fun fixed => leaves.husk (stays.present fixed)⟩

/-- What a slot of the instance holds belongs to it. -/
theorem Stays.belongs (stays : lodger.Stays document) {site : Site} {anchor : Anchor}
    (reaches : lodger.hosted.frame.Reaches lodger.pins document site anchor) {id : NodeId}
    (inside : id ∈ Frame.heldAt lodger.held site) :
    document.Belongs lodger.block lodger.hosted.skeleton id := by
  cases reaches with
  | attributeValue => contradiction
  | @region owner gap _ _ _ gapAt _ =>
      have inRow : id ∈ (lodger.hosted.frame.rows owner).flatMap lodger.held :=
        List.mem_flatMap.2 ⟨gap, gapAt.mem_rows, inside⟩
      by_cases isRoot : owner = lodger.root
      · subst isRoot
        exact Or.inl inRow
      · refine Or.inr ⟨owner, gapAt.owner, ?_⟩
        rwa [stays.row gapAt.owner isRoot]

/-- The instance stays when what it holds has changed. -/
theorem Stays.rehold (stays : lodger.Stays document) {parent : NodeId}
    {ids others : List NodeId} {rehold : NodeId → List NodeId}
    (lodges : lodger.hosted.frame.Lodges (lodger.place parent) (lodger.aside ids)
      (lodger.aside others) rehold new) (size_le : document.size ≤ new.size)
    (husk : ∀ {id}, id < document.size →
      (new.content? id).map Content.husk = (document.content? id).map Content.husk) :
    Stays { lodger with held := rehold } new where
  distinct := stays.distinct
  root := stays.root
  ended := stays.ended
  own := lodges.own
  present fixed := Nat.lt_of_lt_of_le (stays.present fixed) size_le
  row {id} fixed notRoot := by
    have different : id ≠ lodger.root := notRoot
    have row := lodges.row fixed
    simpa only [place, aside, Function.update_of_ne different, id_eq, List.nil_append,
      List.append_nil] using row
  reaches anchor own := by
    obtain ⟨site, reaches⟩ := stays.reaches anchor own
    exact ⟨site, reaches.of_husk fun fixed => husk (stays.present fixed)⟩

/-- Every lodger is pinned to the node that ends the row before its own block. -/
def Pinned : Option NodeId → List Lodger → Prop
  | _, [] => True
  | last, lodger :: rest => lodger.pin = last ∧ Pinned (lodger.last?.or last) rest

theorem pinned_append_iff {ids : List NodeId} {earlier later : List Lodger}
    (ends : ∀ lodger ∈ earlier, lodger.block.getLast? = lodger.last?) :
    Pinned ids.getLast? (earlier ++ later) ↔
      Pinned ids.getLast? earlier ∧ Pinned (ids ++ earlier.flatMap block).getLast? later := by
  induction earlier generalizing ids with
  | nil => simp [Pinned]
  | cons first rest inductionHypothesis =>
      rw [List.forall_mem_cons] at ends
      have here : first.last?.or ids.getLast? = (ids ++ first.block).getLast? := by
        rw [List.getLast?_append, ends.1]
      rw [List.cons_append, Pinned, Pinned, here, inductionHypothesis ends.2, List.flatMap_cons,
        List.append_assoc, and_assoc]

/-- What a lodger holds has no part in who is pinned where. -/
theorem Pinned.rehold {last : Option NodeId} {earlier later : List Lodger}
    (pinned : Pinned last (earlier ++ lodger :: later)) (rehold : NodeId → List NodeId) :
    Pinned last (earlier ++ { lodger with held := rehold } :: later) := by
  induction earlier generalizing last with
  | nil => exact pinned
  | cons first rest inductionHypothesis => exact ⟨pinned.1, inductionHypothesis pinned.2⟩

end Lodger

/-- A mounted instance stays in the row of the parent. -/
theorem Lives.exists_stays_of_mount {document new : Document} {hosted : Hosted}
    {moved : Instance} {parent : NodeId} (lives : Lives document hosted)
    (wellFormed : document.WellFormed) (ended : hosted.Ended)
    (done : Instance.mount document hosted.made parent = .ok (new, moved)) :
    ∃ lodger : Lodger, lodger.hosted = { hosted with made := moved } ∧
      lodger.pin = (document.children parent).getLast? ∧
      lodger.block = document.children hosted.made.root ∧ lodger.Stays new := by
  obtain ⟨sites, settled⟩ := lives.exists_settled
  obtain ⟨held, holds⟩ := settled.exists_holds
  have sameRoot : moved.root = hosted.made.root := by rw [(Instance.append_of_mount done).2]
  refine ⟨⟨{ hosted with made := moved }, held, (document.children parent).getLast?⟩, rfl, rfl, ?_,
    settled.distinct, ?_, ?_, holds.own, fun fixed => ?_, ?_, ?_⟩
  · rw [holds.row lives.root, ← sameRoot]
    rfl
  · rw [Lodger.root, sameRoot]
    exact lives.root
  · rw [Hosted.Ended, sameRoot]
    exact ended
  · rw [Instance.size_of_mount done]
    exact holds.present fixed
  · intro id fixed notRoot
    rw [Lodger.root, sameRoot] at notRoot
    exact (lives.children_eq_of_mount wellFormed done fixed notRoot).trans (holds.row fixed)
  · intro anchor own
    obtain ⟨site, _, reaches⟩ :=
      Frame.exists_site (Lives.reaches_of_mount wellFormed done holds settled.serves) own
    refine ⟨site, ?_⟩
    rw [Lodger.pins, Lodger.root, sameRoot]
    exact reaches

end MarkupTemplate
