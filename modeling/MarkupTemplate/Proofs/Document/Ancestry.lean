import Mathlib.Logic.Relation
import MarkupTemplate.Proofs.Document.Links

/-!
# Ancestors

Links to parents lead upward, and in a document without cycles they come to an end.  The nodes met
on the way are then all ancestors, each once, and a node lies one step deeper than its parent; so
properties of nodes can be shown from the children upward.
-/

namespace MarkupTemplate.Document

open Relation

/-- The lower node is a child of the upper one. -/
def IsChild (document : Document) (lower upper : NodeId) : Prop :=
  document.parent? lower = some upper

/-- No node lies above itself. -/
def Acyclic (document : Document) : Prop :=
  ∀ id, ¬ TransGen document.IsChild id id

/-! ## Following a link to its end -/

theorem reflTransGen_of_mem_follow {link : NodeId → Option NodeId} {limit : Nat}
    {id reached : NodeId}
    (member : reached ∈ follow link limit (some id)) :
    ReflTransGen (fun lower upper => link lower = some upper) id reached := by
  induction limit generalizing id with
  | zero => simp [follow] at member
  | succ limit inductionHypothesis =>
      rcases List.mem_cons.1 member with rfl | later
      · exact ReflTransGen.refl
      · cases next : link id with
        | none =>
            rw [next] at later
            cases limit <;> simp [follow] at later
        | some upper =>
            rw [next] at later
            exact ReflTransGen.head next (inductionHypothesis later)

theorem nodup_follow {link : NodeId → Option NodeId}
    (acyclic : ∀ id, ¬ TransGen (fun lower upper => link lower = some upper) id id)
    (limit : Nat) (start : Option NodeId) : (follow link limit start).Nodup := by
  induction limit generalizing start with
  | zero => exact List.nodup_nil
  | succ limit inductionHypothesis =>
      cases start with
      | none => exact List.nodup_nil
      | some id =>
          refine List.nodup_cons.2 ⟨?_, inductionHypothesis (link id)⟩
          intro again
          cases next : link id with
          | none =>
              rw [next] at again
              cases limit <;> simp [follow] at again
          | some upper =>
              rw [next] at again
              exact acyclic id (TransGen.head' next (reflTransGen_of_mem_follow again))

/-- What was found before the limit is closed under the link. -/
theorem mem_follow_of_link {link : NodeId → Option NodeId} {limit : Nat} {start : Option NodeId}
    {lower upper : NodeId} (ended : (follow link limit start).length < limit)
    (member : lower ∈ follow link limit start) (next : link lower = some upper) :
    upper ∈ follow link limit start := by
  induction limit generalizing start with
  | zero => simp [follow] at member
  | succ limit inductionHypothesis =>
      cases start with
      | none => simp [follow] at member
      | some id =>
          simp only [follow, List.length_cons, Nat.add_lt_add_iff_right] at ended
          rcases List.mem_cons.1 member with rfl | later
          · refine List.mem_cons_of_mem _ ?_
            rw [next] at ended ⊢
            cases limit with
            | zero => simp at ended
            | succ limit => exact List.mem_cons_self
          · exact List.mem_cons_of_mem _ (inductionHypothesis ended later)

/-- A higher limit finds nothing more once the link has come to its end. -/
theorem follow_succ_eq {link : NodeId → Option NodeId} {limit : Nat} {start : Option NodeId}
    (ended : (follow link limit start).length < limit) :
    follow link (limit + 1) start = follow link limit start := by
  induction limit generalizing start with
  | zero => simp at ended
  | succ limit inductionHypothesis =>
      cases start with
      | none => rfl
      | some id =>
          simp only [follow, List.length_cons, Nat.add_lt_add_iff_right] at ended
          exact congrArg (id :: ·) (inductionHypothesis ended)

/-! ## Ancestors of a node -/

section Ancestors

variable {document : Document} {kids : NodeId → List NodeId}

theorem length_upward_le (arranged : Arranged document kids) (acyclic : document.Acyclic)
    {id : NodeId} (present : id < document.size) :
    (document.upward id).length ≤ document.size := by
  have within : document.upward id ⊆ List.range document.size := by
    intro reached member
    apply List.mem_range.2
    rcases (reflTransGen_of_mem_follow member).cases_tail with rfl | ⟨lower, _, above⟩
    · exact present
    · exact arranged.parent_lt_size_of_mem (arranged.parent?_eq_some_iff.1 above)
  have bound := ((nodup_follow acyclic _ _).subperm within).length_le
  rwa [List.length_range] at bound

theorem upward_of_missing {id : NodeId} (missing : document.size ≤ id) :
    document.upward id = [id] := by
  have absent : document.node? id = none := Array.getElem?_eq_none missing
  have noParent : document.parent? id = none := by
    simp [parent?, absent]
  unfold upward chain
  simp only [follow, noParent]
  cases document.size <;> rfl

theorem upward_of_child (arranged : Arranged document kids) (acyclic : document.Acyclic)
    {lower upper : NodeId} (child : document.IsChild lower upper) :
    document.upward lower = lower :: document.upward upper := by
  have member := arranged.parent?_eq_some_iff.1 child
  have bound := length_upward_le arranged acyclic (arranged.lt_size_of_mem member)
  have next : document.parent? lower = some upper := child
  unfold upward chain at bound ⊢
  rw [follow, next] at bound ⊢
  simp only [List.length_cons] at bound
  rw [follow_succ_eq bound]

/-- The nodes found on the way upward are the node and all its ancestors. -/
theorem isInclusiveAncestor_iff (arranged : Arranged document kids) (acyclic : document.Acyclic)
    {ancestor id : NodeId} :
    document.isInclusiveAncestor ancestor id = true ↔
      ReflTransGen document.IsChild id ancestor := by
  unfold isInclusiveAncestor
  rw [List.contains_iff_mem]
  constructor
  · exact reflTransGen_of_mem_follow
  · intro path
    induction path with
    | refl => exact List.mem_cons_self
    | tail path above inductionHypothesis =>
        by_cases present : id < document.size
        · have bound := length_upward_le arranged acyclic present
          exact mem_follow_of_link (Nat.lt_succ_of_le bound) inductionHypothesis above
        · rw [upward_of_missing (Nat.le_of_not_lt present), List.mem_singleton]
            at inductionHypothesis
          subst inductionHypothesis
          have member := arranged.parent?_eq_some_iff.1 above
          exact absurd (arranged.lt_size_of_mem member) present

/-- What holds of a node whenever it holds of its children holds of every node. -/
theorem induction_on_children (arranged : Arranged document kids) (acyclic : document.Acyclic)
    {motive : NodeId → Prop}
    (step : ∀ id, (∀ child ∈ kids id, motive child) → motive id) (id : NodeId) : motive id := by
  have descend : ∀ room id, document.size - (document.upward id).length ≤ room →
      motive id := by
    intro room
    induction room with
    | zero =>
        intro id tight
        apply step
        intro child member
        have deeper := upward_of_child arranged acyclic (arranged.parent?_eq_some_iff.2 member)
        have bound := length_upward_le arranged acyclic (arranged.lt_size_of_mem member)
        rw [deeper, List.length_cons] at bound
        omega
    | succ room inductionHypothesis =>
        intro id roomy
        apply step
        intro child member
        apply inductionHypothesis
        have deeper := upward_of_child arranged acyclic (arranged.parent?_eq_some_iff.2 member)
        rw [deeper, List.length_cons]
        omega
  exact descend _ id (Nat.le_refl _)

end Ancestors

/-! ## Cycles and a change of one parent -/

section Regrafting

variable {lesser greater : NodeId → NodeId → Prop} {moved parent : NodeId}

/-- A path after one node was given another parent either existed before, or leads through that
node and on from its new parent. -/
theorem transGen_of_regrafted
    (changed : ∀ {lower upper}, greater lower upper →
      lesser lower upper ∨ lower = moved ∧ upper = parent)
    (apart : ¬ ReflTransGen lesser parent moved) {lower upper : NodeId}
    (path : TransGen greater lower upper) :
    TransGen lesser lower upper ∨
      ReflTransGen lesser lower moved ∧ ReflTransGen lesser parent upper := by
  induction path with
  | single step =>
      rcases changed step with old | ⟨rfl, rfl⟩
      · exact Or.inl (TransGen.single old)
      · exact Or.inr ⟨ReflTransGen.refl, ReflTransGen.refl⟩
  | tail _ step inductionHypothesis =>
      rcases inductionHypothesis with before | ⟨before, after⟩
      · rcases changed step with old | ⟨rfl, rfl⟩
        · exact Or.inl (before.tail old)
        · exact Or.inr ⟨before.to_reflTransGen, ReflTransGen.refl⟩
      · rcases changed step with old | ⟨rfl, rfl⟩
        · exact Or.inr ⟨before, after.tail old⟩
        · exact absurd after apart

theorem acyclic_of_regrafted
    (changed : ∀ {lower upper}, greater lower upper →
      lesser lower upper ∨ lower = moved ∧ upper = parent)
    (apart : ¬ ReflTransGen lesser parent moved) (acyclic : ∀ id, ¬ TransGen lesser id id)
    (id : NodeId) : ¬ TransGen greater id id := by
  intro cycle
  rcases transGen_of_regrafted changed apart cycle with old | ⟨toMoved, fromParent⟩
  · exact acyclic id old
  · exact apart (fromParent.trans toMoved)

end Regrafting

end MarkupTemplate.Document
