import MarkupTemplate.Proofs.Document.Destinations
import MarkupTemplate.Proofs.Instance.Hosting

/-!
# Mounting an instance

An instance is mounted by appending the fragment at its root to another node, whose row then ends
with what stood below the root.  The slots stay what they were.  Only a slot that opened the
instance has to be told where it now begins: behind the node that ended the row before.
-/

namespace MarkupTemplate

open Document Relation Template

/-- What mounting an instance does: it is refused without a trace, or moves what stands below the
root to the end of the row of the parent, and every slot has the same nodes in its region. -/
structure Mounts (document : Document) (made : Instance) (parent : NodeId) : Prop where
  refused : (∃ cause, Instance.mount document made parent = .error cause) ↔
    document.content? parent = none ∨
      (∃ container, document.content? parent = some container ∧
        container.mayHaveChildren = false) ∨
      ReflTransGen document.IsChild parent made.root
  unchanged : (∃ cause, Instance.mount document made parent = .error cause) →
    document.perform (.mount made parent) = document
  performed : ∀ {mounted moved}, Instance.mount document made parent = .ok (mounted, moved) →
    document.perform (.mount made parent) = mounted ∧ moved.root = made.root
  children : ∀ {mounted moved}, Instance.mount document made parent = .ok (mounted, moved) →
    mounted.children = Function.update (Function.update document.children made.root []) parent
      (document.children parent ++ document.children made.root)
  content? : ∀ {mounted moved}, Instance.mount document made parent = .ok (mounted, moved) →
    ∀ id, mounted.content? id = document.content? id
  regions : ∀ {mounted moved}, Instance.mount document made parent = .ok (mounted, moved) →
    moved.anchors.map (Anchor.regionNodes mounted) =
      made.anchors.map (Anchor.regionNodes document)

variable {document mounted : Document} {made moved : Instance} {parent : NodeId}

/-! ## The document after a mount -/

namespace Instance

theorem mount_refused_iff (wellFormed : document.WellFormed)
    (fragment : document.content? made.root = some .fragment) :
    (∃ cause, mount document made parent = .error cause) ↔
      document.content? parent = none ∨
        (∃ container, document.content? parent = some container ∧
          container.mayHaveChildren = false) ∨
        ReflTransGen document.IsChild parent made.root := by
  have same : (∃ cause, mount document made parent = .error cause) ↔
      ∃ cause, document.insert parent none made.root = .error cause := by
    unfold mount append
    cases document.insert parent none made.root with
    | error cause => simp [Except.map]
    | ok edited => simp [Except.map]
  rw [same, Destination.insert_refused_iff wellFormed]
  simp [fragment]

theorem perform_mount_of_error {cause : Error}
    (refused : mount document made parent = .error cause) :
    document.perform (.mount made parent) = document := by
  simp only [perform, refused]
  rfl

section Mounted

variable (done : mount document made parent = .ok (mounted, moved))

include done

theorem perform_mount_of_ok : document.perform (.mount made parent) = mounted := by
  simp only [perform, done]
  rfl

/-- The root was appended to the parent, and the anchors were adapted to that. -/
theorem append_of_mount :
    document.insertAt (.lastIn parent) made.root = .ok mounted ∧
      moved = { made with
        anchors := made.anchors.map
          (mountedAnchor document made.root (document.lastChild? parent)) } := by
  unfold mount at done
  cases appended : document.append parent made.root with
  | error cause =>
      rw [appended] at done
      contradiction
  | ok edited =>
      rw [appended] at done
      obtain ⟨rfl, rfl⟩ := Prod.mk.inj (Except.ok.inj done)
      exact ⟨appended, rfl⟩

theorem content?_of_mount (id : NodeId) : mounted.content? id = document.content? id :=
  Destination.content?_insertAt rfl (append_of_mount done).1 id

theorem size_of_mount : mounted.size = document.size :=
  size_eq_of_content? (content?_of_mount done)

/-- What stood below the root ends the row of the parent. -/
theorem children_of_mount (wellFormed : document.WellFormed)
    (fragment : document.content? made.root = some .fragment) :
    mounted.children = Function.update (Function.update document.children made.root []) parent
      (document.children parent ++ document.children made.root) :=
  Destination.children_insertAt_of_fragment wellFormed rfl (append_of_mount done).1 fragment

/-- Only the children of the root have got another parent. -/
theorem mem_children_of_mount (wellFormed : document.WellFormed)
    (fragment : document.content? made.root = some .fragment) {id upper : NodeId}
    (child : id ∈ mounted.children upper) :
    id ∈ document.children upper ∨ (upper = parent ∧ id ∈ document.children made.root) := by
  rw [children_of_mount done wellFormed fragment] at child
  by_cases isParent : upper = parent
  · subst isParent
    rw [Function.update_self, List.mem_append] at child
    exact child.imp_right fun inRoot => ⟨rfl, inRoot⟩
  · rw [Function.update_of_ne isParent] at child
    by_cases isRoot : upper = made.root
    · rw [isRoot, Function.update_self] at child
      contradiction
    · rw [Function.update_of_ne isRoot] at child
      exact Or.inl child

theorem not_above_of_mount (wellFormed : document.WellFormed)
    (fragment : document.content? made.root = some .fragment) :
    ¬ ReflTransGen document.IsChild parent made.root := by
  intro above
  obtain ⟨cause, refused⟩ := (mount_refused_iff wellFormed fragment).2 (Or.inr (Or.inr above))
  rw [done] at refused
  contradiction

end Mounted

end Instance

/-! ## The slots after a mount -/

/-- The nodes pinned by the row of a root that was moved behind other nodes. -/
theorem getLast?_update_nil (root : NodeId) (ahead : List NodeId) (owner : NodeId) :
    (Function.update (fun _ => []) root ahead owner).getLast? =
      Function.update (fun _ => none) root ahead.getLast? owner := by
  by_cases same : owner = root
  · rw [same, Function.update_self, Function.update_self]
  · rw [Function.update_of_ne same, Function.update_of_ne same]
    rfl

/-- Where every anchor has in its region what a frame holds at its site, the regions are known. -/
theorem Frame.map_regionNodes_eq {relation : Site → Anchor → Prop} {sites : List Site}
    {anchors : List Anchor} {held : NodeId → List NodeId}
    (related : List.Forall₂ relation sites anchors)
    (read : ∀ site anchor, relation site anchor →
      Anchor.regionNodes document anchor = Frame.heldAt held site) :
    anchors.map (Anchor.regionNodes document) = sites.map (Frame.heldAt held) := by
  induction related with
  | nil => rfl
  | cons here _ inductionHypothesis =>
      rw [List.map_cons, List.map_cons, read _ _ here, inductionHypothesis]

/-- An anchor of a frame that holds serves the same slot once the row of a fixed node was moved
behind another one, if it is pinned to that. -/
theorem Frame.Serves.mountedAnchor {frame : Frame} {held : NodeId → List NodeId} {site : Site}
    {anchor : Anchor} (serves : frame.Serves document site anchor)
    (holds : frame.Holds held document) (root : NodeId) (last : Option NodeId) :
    frame.Reaches (Function.update (fun _ => none) root last) document site
      (Instance.mountedAnchor document root last anchor) := by
  cases serves with
  | attributeValue fixed element => exact .attributeValue fixed element
  | @region owner gap after left right place boundary =>
      have reaches : frame.Reaches (Function.update (fun _ => none) root last) document _ _ :=
        .region place boundary
      cases begun : left.getLast? with
      | some before =>
          rw [begun, Option.some_or] at reaches
          exact reaches
      | none =>
          have inRow : after ∈ frame.rows owner := by
            rw [place.row]
            simp
          have above : document.parent? after = some owner :=
            holds.wellFormed.arranged.parent?_eq_some_iff.2
              ((holds.mem_children_iff place.ended).2 ⟨place.owner, inRow⟩)
          rw [begun, Option.none_or] at reaches
          simp only [Instance.mountedAnchor, above, Option.some.injEq]
          by_cases same : owner = root
          · rw [if_pos same]
            rwa [same, Function.update_self] at reaches
          · rw [if_neg same]
            rwa [Function.update_of_ne same] at reaches

namespace Lives

variable {hosted : Hosted}

/-- A node that is not above the instance's root is not in its skeleton either. -/
theorem not_mem_skeleton (lives : Lives document hosted)
    (apart : ¬ ReflTransGen document.IsChild parent hosted.made.root) : parent ∉ hosted.skeleton :=
  fun fixed => apart (lives.below fixed)

section Mounted

variable (lives : Lives document hosted) (wellFormed : document.WellFormed)
  (done : Instance.mount document hosted.made parent = .ok (mounted, moved))

include lives wellFormed done

/-- No row of the skeleton has changed but that of the root. -/
theorem children_eq_of_mount {id : NodeId} (fixed : id ∈ hosted.skeleton)
    (notRoot : id ≠ hosted.made.root) : mounted.children id = document.children id := by
  have apart := Instance.not_above_of_mount done wellFormed lives.fragment
  have notParent : id ≠ parent := fun same => lives.not_mem_skeleton apart (same ▸ fixed)
  rw [Instance.children_of_mount done wellFormed lives.fragment, Function.update_of_ne notParent,
    Function.update_of_ne notRoot]

/-- The frame of the instance is lodged in the row of the parent. -/
theorem lodges_of_mount {held : NodeId → List NodeId}
    (holds : hosted.frame.Holds held document) :
    hosted.frame.Lodges (Function.update id hosted.made.root parent)
      (Function.update (fun _ => []) hosted.made.root (document.children parent))
      (Function.update (fun _ => []) hosted.made.root []) held mounted := by
  have apart := Instance.not_above_of_mount done wellFormed lives.fragment
  refine holds.lodges_of_moved (lives.not_mem_skeleton apart)
    (Instance.wellFormed_mount wellFormed done) ?_ (lives.children_eq_of_mount wellFormed done)
  rw [Instance.children_of_mount done wellFormed lives.fragment, Function.update_self,
    List.append_nil]

omit lives in
/-- The anchors of the mounted instance serve its slots. -/
theorem reaches_of_mount {sites : List Site} {held : NodeId → List NodeId}
    (holds : hosted.frame.Holds held document)
    (serves : List.Forall₂ (hosted.frame.Serves document) sites hosted.made.anchors) :
    List.Forall₂ (hosted.frame.Reaches
      (Function.update (fun _ => none) hosted.made.root (document.children parent).getLast?)
      mounted) sites moved.anchors := by
  obtain ⟨_, rfl⟩ := Instance.append_of_mount done
  rw [wellFormed.arranged.lastChild, List.forall₂_map_right_iff]
  refine serves.imp fun _ _ serves => (serves.mountedAnchor holds hosted.made.root _).of_husk ?_
  exact fun _ => congrArg _ (Instance.content?_of_mount done _)

/-- Every slot of the mounted instance has the same nodes in its region as before. -/
theorem regionNodes_of_mount :
    moved.anchors.map (Anchor.regionNodes mounted) =
      hosted.made.anchors.map (Anchor.regionNodes document) := by
  obtain ⟨sites, settled⟩ := lives.exists_settled
  obtain ⟨held, holds⟩ := settled.exists_holds
  have lodges := lives.lodges_of_mount wellFormed done holds
  have reaches := reaches_of_mount wellFormed done holds settled.serves
  rw [Frame.map_regionNodes_eq reaches fun _ _ here =>
      lodges.regionNodes_eq (getLast?_update_nil _ _) here,
    Frame.map_regionNodes_eq settled.serves fun _ _ here => here.regionNodes_eq holds]

end Mounted

theorem mounts (lives : Lives document hosted) (wellFormed : document.WellFormed)
    (parent : NodeId) : Mounts document hosted.made parent where
  refused := Instance.mount_refused_iff wellFormed lives.fragment
  unchanged := by
    rintro ⟨cause, refused⟩
    exact Instance.perform_mount_of_error refused
  performed done := by
    refine ⟨Instance.perform_mount_of_ok done, ?_⟩
    rw [(Instance.append_of_mount done).2]
  children done := Instance.children_of_mount done wellFormed lives.fragment
  content? done := Instance.content?_of_mount done
  regions done := lives.regionNodes_of_mount wellFormed done

end Lives

end MarkupTemplate
