import MarkupTemplate.Document.Address
import MarkupTemplate.Proofs.Document.Blocks

/-!
# Addresses in a forest

Where a node stands in a forest can be said from the forest alone: by the places on the way down to
it.  In a document in which the forest grows below a root, this is the address of the node below
the root, and the address leads back to the node.
-/

namespace MarkupTemplate

/-- The labels of a forest in document order, each with its address, when the forest stands in the
row at an address from a place on. -/
def Forest.placed {Label : Type} (path : Address) (index : Nat) :
    Forest Label → List (Address × Label)
  | .empty => []
  | .plant label children siblings =>
      (path ++ [index], label) ::
        (children.placed (path ++ [index]) 0 ++ siblings.placed path (index + 1))

namespace Document

open Relation

variable {document : Document} {root : NodeId}

/-- The address leads from the root to the node, and it is the node's address. -/
structure Addresses (document : Document) (root : NodeId) (address : Address) (id : NodeId) :
    Prop where
  found : document.addressOf root id = .ok address
  resolved : document.resolve? root address = some id

theorem addresses_root (present : root < document.size) : document.Addresses root [] root := by
  obtain ⟨node, found⟩ := exists_node_of_lt present
  constructor
  · have first : document.upward root = root :: (document.upward root).tail := by
      unfold upward chain
      rw [follow]
      rfl
    unfold addressOf
    rw [first]
    simp
  · unfold resolve?
    rw [found]
    rfl

namespace Addresses

variable {address : Address} {id parent : NodeId}

theorem above (addressed : document.Addresses root address id) :
    ReflTransGen document.IsChild id root := by
  have found := addressed.found
  unfold addressOf at found
  simp only at found
  split at found
  · rename_i contained
    exact reflTransGen_of_mem_follow (List.contains_iff_mem.1 contained)
  · contradiction

theorem child (addressed : document.Addresses root address parent)
    (wellFormed : document.WellFormed) {earlier later : List NodeId}
    (row : document.children parent = earlier ++ id :: later) :
    document.Addresses root (address ++ [earlier.length]) id := by
  have isChild : document.IsChild id parent := wellFormed.arranged.isChild_iff.2 (by simp [row])
  have different : id ≠ root := by
    rintro rfl
    exact wellFormed.acyclic id (TransGen.head' isChild addressed.above)
  have place : document.placeOf id = earlier.length := by
    rw [placeOf, wellFormed.arranged.earlierSiblings_eq row, List.length_reverse]
  constructor
  · have found := addressed.found
    unfold addressOf at found ⊢
    rw [upward_of_child wellFormed.arranged wellFormed.acyclic isChild]
    simp only at found ⊢
    split at found
    · rename_i contained
      have member := List.contains_iff_mem.1 contained
      rw [if_pos (List.contains_iff_mem.2 (List.mem_cons_of_mem _ member)),
        List.takeWhile_cons_of_pos (by simpa using different), List.map_cons, List.reverse_cons,
        Except.ok.inj found, place]
    · contradiction
  · have resolved := addressed.resolved
    unfold resolve? at resolved ⊢
    cases present : document.node? root with
    | none =>
        rw [present] at resolved
        contradiction
    | some node =>
        rw [present, Option.bind_some] at resolved
        rw [Option.bind_some, List.foldlM_append, resolved]
        simp [childAt?, row]

end Addresses

end Document

end MarkupTemplate
