import MarkupTemplate.Proofs.Document.Addresses
import MarkupTemplate.Proofs.Document.Copying

/-!
# Addresses and nodes

Below a root of a well-formed document every node has one address, which leads back to it, and
nothing else has any; whatever an address leads to has that address.  In a copy of the tree every
address leads to the copy of the node that it leads to in the tree itself, or nowhere in both.
-/

namespace MarkupTemplate.Document

open Relation

variable {document : Document} {root target : NodeId} {address : Address}

/-! ## One step further -/

@[simp]
theorem resolve?_nil : document.resolve? root [] = (document.node? root).map fun _ => root := by
  unfold resolve?
  cases document.node? root <;> rfl

theorem resolve?_concat (address : Address) (index : Nat) :
    document.resolve? root (address ++ [index]) =
      (document.resolve? root address).bind fun id => document.childAt? id index := by
  unfold resolve?
  cases document.node? root with
  | none => rfl
  | some node =>
      rw [Option.bind_some, Option.bind_some, List.foldlM_append]
      simp

/-! ## Addresses of nodes, and nodes at addresses -/

/-- Every node below the root has an address, which leads to it. -/
theorem WellFormed.exists_addresses (wellFormed : document.WellFormed)
    (present : root < document.size) (below : ReflTransGen document.IsChild target root) :
    ∃ address, document.Addresses root address target := by
  induction below using ReflTransGen.head_induction_on with
  | refl => exact ⟨[], addresses_root present⟩
  | head child _ inductionHypothesis =>
      obtain ⟨address, addressed⟩ := inductionHypothesis
      obtain ⟨earlier, later, row⟩ :=
        List.append_of_mem (wellFormed.arranged.isChild_iff.1 child)
      exact ⟨_, addressed.child wellFormed row⟩

/-- What an address leads to has that address. -/
theorem WellFormed.addresses_of_resolve? (wellFormed : document.WellFormed)
    (resolved : document.resolve? root address = some target) :
    document.Addresses root address target := by
  induction address using List.reverseRecOn generalizing target with
  | nil =>
      rw [resolve?_nil] at resolved
      obtain ⟨node, found, rfl⟩ := Option.map_eq_some_iff.1 resolved
      exact addresses_root (node?_isSome_iff.1 (by rw [found]; rfl))
  | append_singleton address index inductionHypothesis =>
      rw [resolve?_concat] at resolved
      obtain ⟨parent, reached, step⟩ := Option.bind_eq_some_iff.1 resolved
      obtain ⟨within, rfl⟩ := List.getElem?_eq_some_iff.1 step
      have row : document.children parent = (document.children parent).take index ++
          (document.children parent)[index] :: (document.children parent).drop (index + 1) := by
        rw [List.getElem_cons_drop, List.take_append_drop]
      have addressed := (inductionHypothesis reached).child wellFormed row
      rwa [List.length_take, Nat.min_eq_left (Nat.le_of_lt within)] at addressed

theorem addressOf_of_not_below (apart : ¬ ReflTransGen document.IsChild target root) :
    document.addressOf root target = .error (.notDescendant target) := by
  refine if_neg fun contained => apart ?_
  exact reflTransGen_of_mem_follow (List.contains_iff_mem.1 contained)

theorem WellFormed.addressOf_eq_ok_iff (wellFormed : document.WellFormed)
    (present : root < document.size) :
    document.addressOf root target = .ok address ↔
      document.resolve? root address = some target := by
  constructor
  · intro found
    by_cases below : ReflTransGen document.IsChild target root
    · obtain ⟨other, addressed⟩ := wellFormed.exists_addresses present below
      rw [addressed.found, Except.ok.injEq] at found
      exact found ▸ addressed.resolved
    · rw [addressOf_of_not_below below] at found
      contradiction
  · exact fun resolved => (wellFormed.addresses_of_resolve? resolved).found

/-! ## Addresses in a copy -/

/-- Under other names, an address leads to the same node. -/
theorem Renames.resolve? {source copied : Document} {name : NodeId → NodeId}
    (renames : Renames source copied root name) (sourceFormed : source.WellFormed)
    (address : Address) :
    copied.resolve? (name root) address = (source.resolve? root address).map name := by
  induction address using List.reverseRecOn with
  | nil =>
      have kept : copied.content? (name root) = source.content? root := renames.content? .refl
      have same := congrArg (Option.map fun _ => name root) kept
      rw [Document.content?, Document.content?, Option.map_map, Option.map_map] at same
      rw [resolve?_nil, resolve?_nil, Option.map_map]
      exact same
  | append_singleton address index inductionHypothesis =>
      rw [resolve?_concat, resolve?_concat, inductionHypothesis]
      cases reached : source.resolve? root address with
      | none => rfl
      | some parent =>
          have below := (sourceFormed.addresses_of_resolve? reached).above
          rw [Option.map_some, Option.bind_some, Option.bind_some, childAt?, childAt?,
            renames.children below, List.getElem?_map]

/-! ## The whole -/

/-- Exactly the nodes below the root have addresses, each the one that leads to it, and in a copy
of the tree the addresses lead to the copies. -/
theorem addresses_below_root (wellFormed : document.WellFormed) (present : root < document.size) :
    (∀ target, (∃ address, document.addressOf root target = .ok address) ↔
        ReflTransGen document.IsChild target root) ∧
      (∀ target, ¬ ReflTransGen document.IsChild target root →
        document.addressOf root target = .error (.notDescendant target)) ∧
      (∀ target address, document.addressOf root target = .ok address →
        document.resolve? root address = some target) ∧
      (∀ target address, document.resolve? root address = some target →
        document.addressOf root target = .ok address) ∧
      ∀ other : Document, ∃ copied, other.copyFrom document root = .ok (copied, other.size) ∧
        ∀ address, copied.resolve? other.size address =
          (document.resolve? root address).map (other.nameOfCopy document root) := by
  refine ⟨fun target => ⟨?_, ?_⟩, fun target => addressOf_of_not_below, ?_, ?_, ?_⟩
  · rintro ⟨address, found⟩
    by_contra apart
    rw [addressOf_of_not_below apart] at found
    contradiction
  · intro below
    obtain ⟨address, addressed⟩ := wellFormed.exists_addresses present below
    exact ⟨address, addressed.found⟩
  · exact fun target address => (wellFormed.addressOf_eq_ok_iff present).1
  · exact fun target address => (wellFormed.addressOf_eq_ok_iff present).2
  · intro other
    obtain ⟨content, carried⟩ := exists_content_of_lt present
    obtain ⟨copied, made, renames⟩ := exists_renames wellFormed other carried
    refine ⟨copied, made, fun address => ?_⟩
    rw [← renames.resolve? wellFormed, nameOfCopy_root]

/-- The bold text in the second item of a list, and its copy next to a paragraph. -/
theorem addresses_below_list :
    let document := (Document.empty.parse false "<ul><li>1</li><li>2<b>!</b></li></ul>").document
    let other := (Document.empty.parse false "<p>kept</p>").document
    document.addressOf 1 7 = .ok [1, 1, 0] ∧ document.resolve? 1 [1, 1, 0] = some 7 ∧
      ∃ copied, other.copyFrom document 1 = .ok (copied, other.size) ∧
        copied.resolve? other.size [1, 1, 0] = some 9 := by
  intro document other
  have present : (1 : NodeId) < document.size := by decide +kernel
  have formed : document.WellFormed := (wellFormed_empty.copiedIn_parse false _).wellFormed
  obtain ⟨_, _, back, forth, copies⟩ := addresses_below_root formed present
  have found : document.addressOf 1 7 = .ok [1, 1, 0] :=
    forth 7 [1, 1, 0] (by decide +kernel)
  obtain ⟨copied, made, leads⟩ := copies other
  refine ⟨found, back 7 _ found, copied, made, ?_⟩
  rw [leads, back 7 _ found]
  decide +kernel

end MarkupTemplate.Document
