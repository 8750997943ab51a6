import MarkupTemplate.Proofs.Document.Sparing
import MarkupTemplate.Proofs.Document.Walking

/-!
# Walks through a document that changes

Between one call of a walker and the next, its caller may split the text that was given out, insert
nodes after it and its pieces, change them and remove them.  The walker gives out what it would
have given out anyway: the elements and texts that stood below the root at the beginning, each of
them once, and then nothing any more.
-/

namespace MarkupTemplate

namespace Document

/-! ## Walks with turns of operations -/

/-- The document and the walker after a number of calls.  Behind every call, the operations of one
turn are performed. -/
def session (document : Document) (root : NodeId) (turns : Nat → List Operation) :
    Nat → Document × Walker
  | 0 => (document, Walker.start document root)
  | calls + 1 =>
      let before := document.session root turns calls
      ((turns calls).foldl perform before.1, before.2.advance before.1)

/-- What the walker gives out when it is called after a number of calls. -/
def answer (document : Document) (root : NodeId) (turns : Nat → List Operation) (calls : Nat) :
    Option NodeId :=
  (document.session root turns calls).2.upcoming

/-- The node is in the tree of the root, and is not the text that was given out. -/
def IsFixed (document : Document) (root given id : NodeId) : Prop :=
  id ∈ root :: document.descendants root ∧
    ¬ (id = given ∧ ∃ data, document.content? id = some (.text data))

/-- Behind every call, the operations spare the nodes that are in the tree at that time, but for the
text that was given out.  So they may split it, put nodes directly after it that are not in the
tree, change its data and remove it; and the same may be done with its pieces and everything else
that was made or inserted since. -/
def TurnsSpare (document : Document) (root : NodeId) (turns : Nat → List Operation) : Prop :=
  ∀ calls given, document.answer root turns calls = some given →
    ∀ operation ∈ turns calls,
      operation.Spares ((document.session root turns calls).1.IsFixed root given)

variable {document : Document} {root given id : NodeId}

theorem not_isFixed_text {data : String} (text : document.content? given = some (.text data)) :
    ¬ document.IsFixed root given given :=
  fun fixed => fixed.2 ⟨rfl, data, text⟩

namespace WellFormed

variable (wellFormed : document.WellFormed)

include wellFormed

theorem root_lt_size (member : id ∈ document.descendants root) : root < document.size := by
  by_contra missing
  have row := wellFormed.arranged.children_of_missing (Nat.le_of_not_lt missing)
  rw [wellFormed.descendants_eq_flatMap, row] at member
  contradiction

theorem lt_size_of_mem_tree (present : root < document.size)
    (member : id ∈ root :: document.descendants root) : id < document.size := by
  rcases List.mem_cons.1 member with rfl | below
  · exact present
  · exact (wellFormed.hasBelow_below root).grows.lt_size below

/-- Whatever was made since is not fixed. -/
theorem not_isFixed_of_size_le (present : root < document.size) (made : document.size ≤ id) :
    ¬ document.IsFixed root given id :=
  fun fixed => Nat.not_lt_of_le made (wellFormed.lt_size_of_mem_tree present fixed.1)

theorem isFixed_root (member : given ∈ document.descendants root) :
    document.IsFixed root given root :=
  ⟨List.mem_cons_self, fun same =>
    wellFormed.not_mem_descendants_self root (same.1 ▸ member)⟩

/-- The nodes behind the one that was given out are fixed. -/
theorem isFixed_of_later {earlier later : List NodeId}
    (split : document.descendants root = earlier ++ given :: later) (member : id ∈ later) :
    document.IsFixed root given id := by
  refine ⟨List.mem_cons_of_mem root (split ▸ by simp [member]), ?_⟩
  rintro ⟨rfl, _⟩
  have distinct := wellFormed.nodup_descendants root
  rw [split, List.nodup_middle, List.nodup_cons] at distinct
  exact distinct.1 (List.mem_append_right earlier member)

/-- Of the nodes below the root, the one that is not fixed has nothing below it. -/
theorem isFixed_or_bare (member : id ∈ document.descendants root) :
    document.IsFixed root given id ∨ document.descendants id = [] := by
  by_cases text : id = given ∧ ∃ data, document.content? id = some (.text data)
  · right
    obtain ⟨_, data, carried⟩ := text
    have row : document.children id = [] := by
      by_contra nonempty
      have may := wellFormed.container carried nonempty
      contradiction
    rw [wellFormed.descendants_eq_flatMap, row, List.flatMap_nil]
  · exact .inl ⟨List.mem_cons_of_mem root member, text⟩

end WellFormed

end Document

/-! ## One turn -/

namespace Walker

variable {document : Document} {walker : Walker} {given : NodeId} {later : List NodeId}

theorem root_advance (document : Document) (walker : Walker) :
    (walker.advance document).root = walker.root := by
  unfold advance
  split <;> rfl

/-- Behind a step and an edit that keeps the fixed nodes, the walker has the same nodes before it as
without the edit. -/
theorem HasBefore.onward_of_keeps (hasBefore : walker.HasBefore document later)
    (wellFormed : document.WellFormed) (isGiven : walker.upcoming = some given) {new : Document}
    (keeps : Document.Keeps (document.IsFixed walker.root given) document new) :
    ∃ passed rest, later = passed ++ given :: rest ∧
      (∀ other ∈ passed, document.isVisible other = false) ∧
      later.filter document.isVisible = given :: rest.filter document.isVisible ∧
      rest.filter new.isVisible = rest.filter document.isVisible ∧
      (walker.advance document).HasBefore new rest := by
  obtain ⟨earlier, split⟩ := hasBefore.split
  obtain ⟨passed, rest, rfl, unseen, visible, _, upcoming⟩ := hasBefore.advance wellFormed isGiven
  rw [← List.append_assoc] at split
  have member : given ∈ document.descendants walker.root := split ▸ by simp
  have behind : ∀ id ∈ rest, document.IsFixed walker.root given id :=
    fun id => wellFormed.isFixed_of_later split
  obtain ⟨before, shape⟩ := keeps.exists_earlier wellFormed (wellFormed.isFixed_root member)
    (fun id below => wellFormed.isFixed_or_bare below) split behind
  have same : ∀ id ∈ rest, new.isVisible id = document.isVisible id := by
    intro id isBehind
    rw [Document.isVisible, keeps.content? id (behind id isBehind), Document.isVisible]
  have filtered := List.filter_congr same
  refine ⟨passed, rest, rfl, unseen, visible, filtered, ⟨before, ?_⟩, ?_⟩
  · rw [root_advance]
    exact shape
  · rw [upcoming, ← List.head?_filter, ← List.head?_filter, filtered]

theorem HasBefore.mem_descendants (hasBefore : walker.HasBefore document later)
    (isGiven : walker.upcoming = some given) : given ∈ document.descendants walker.root := by
  obtain ⟨⟨earlier, split⟩, upcoming⟩ := hasBefore
  rw [isGiven] at upcoming
  rw [split]
  exact List.mem_append_right earlier (List.mem_of_find?_eq_some upcoming.symm)

/-- Such an edit is made by operations that spare the fixed nodes. -/
theorem HasBefore.keeps_turn (hasBefore : walker.HasBefore document later)
    (wellFormed : document.WellFormed) (isGiven : walker.upcoming = some given)
    {turn : List Operation}
    (spare : ∀ operation ∈ turn, operation.Spares (document.IsFixed walker.root given)) :
    Document.Keeps (document.IsFixed walker.root given) document
      (turn.foldl Document.perform document) := by
  have present := wellFormed.root_lt_size (hasBefore.mem_descendants isGiven)
  exact wellFormed.keeps_foldl (fun id fixed => wellFormed.lt_size_of_mem_tree present fixed.1)
    spare

end Walker

/-! ## All turns -/

namespace Document

variable {document : Document} {root : NodeId} {turns : Nat → List Operation}

/-- The walker has given out a node at every call, and has the others before it. -/
structure Underway (document : Document) (root : NodeId) (calls : Nat)
    (state : Document × Walker) : Prop where
  wellFormed : state.1.WellFormed
  below : state.2.root = root
  ahead : ∃ later, state.2.HasBefore state.1 later ∧
    later.filter state.1.isVisible = (document.visibleBelow root).drop calls

theorem Underway.upcoming_eq {calls : Nat} {state : Document × Walker}
    (underway : document.Underway root calls state) :
    state.2.upcoming = (document.visibleBelow root)[calls]? := by
  obtain ⟨later, hasBefore, remaining⟩ := underway.ahead
  rw [hasBefore.upcoming, ← List.head?_filter, remaining, List.head?_drop]

theorem Underway.onward {calls : Nat} {given : NodeId} {state : Document × Walker}
    (underway : document.Underway root calls state) (isGiven : state.2.upcoming = some given)
    {turn : List Operation}
    (spare : ∀ operation ∈ turn, operation.Spares (state.1.IsFixed root given)) :
    document.Underway root (calls + 1) (turn.foldl perform state.1, state.2.advance state.1) := by
  obtain ⟨wellFormed, rfl, later, hasBefore, remaining⟩ := underway
  have keeps := hasBefore.keeps_turn wellFormed isGiven spare
  obtain ⟨_, rest, _, _, visible, same, onward⟩ :=
    hasBefore.onward_of_keeps wellFormed isGiven keeps
  refine ⟨keeps.wellFormed, Walker.root_advance _ _, rest, onward, ?_⟩
  rw [visible] at remaining
  rw [← List.tail_drop, ← remaining, List.tail_cons]
  exact same

/-- Every walk is under way until it has come to its end. -/
theorem ended_or_underway (wellFormed : document.WellFormed)
    (spare : document.TurnsSpare root turns) (calls : Nat) :
    (document.answer root turns calls = none ∧ (document.visibleBelow root).length ≤ calls) ∨
      document.Underway root calls (document.session root turns calls) := by
  induction calls with
  | zero => exact .inr ⟨wellFormed, rfl, _, Walker.hasBefore_start wellFormed root, rfl⟩
  | succ calls inductionHypothesis =>
      cases given : document.answer root turns calls with
      | none =>
          have few : (document.visibleBelow root).length ≤ calls := by
            rcases inductionHypothesis with ⟨_, few⟩ | underway
            · exact few
            · exact List.getElem?_eq_none_iff.1 (underway.upcoming_eq.symm.trans given)
          refine .inl ⟨?_, Nat.le_succ_of_le few⟩
          rw [answer] at given ⊢
          rw [session, Walker.advance, given]
          exact given
      | some id =>
          rcases inductionHypothesis with ⟨ended, _⟩ | underway
          · rw [given] at ended
            contradiction
          · exact .inr (underway.onward given (spare calls id given))

/-- What walks below a root give out. -/
structure Visits (document : Document) (root : NodeId) : Prop where
  /-- The same list comes from a stack, onto which children are pushed from the last one back. -/
  listed : document.visibleBelow root =
    (document.unstack document.size (document.pushChildren root [])).filter document.isVisible
  walk : document.walk root = document.visibleBelow root
  /-- It makes no difference what is done to the texts that have been given out. -/
  answers : ∀ turns, document.TurnsSpare root turns →
    ∀ calls, document.answer root turns calls = (document.visibleBelow root)[calls]?

/-- A walker gives out the elements and texts below its root one after the other, and then nothing,
even if every text is split and edited as soon as it is given out. -/
theorem visits_in_order (wellFormed : document.WellFormed) (root : NodeId) :
    document.Visits root where
  listed := by rw [wellFormed.unstack_pushChildren, visibleBelow]
  walk := wellFormed.walk_eq root
  answers turns spare calls := by
    rcases ended_or_underway wellFormed spare calls with ⟨ended, few⟩ | underway
    · rw [ended, List.getElem?_eq_none few]
    · exact underway.upcoming_eq

/-- When a text is given out, it is split, its second piece is split, a boundary is put behind this
piece, whose data is changed, and the text itself is removed. -/
theorem visits_of_split_text :
    let document := ((((empty.perform .createFragment).perform (.createText "ab")).perform
      (.createElement "i")).perform (.append 0 1)).perform (.append 0 2)
    let turns := fun calls => if calls = 0 then [Operation.splitText 1 1, .splitText 3 0,
      .createBoundary, .insertAfter 3 5, .setData 3 "c", .detach 1] else []
    document.visibleBelow 0 = [1, 2] ∧ document.TurnsSpare 0 turns ∧
      (document.session 0 turns 1).1.children 0 = [3, 5, 4, 2] ∧ document.Visits 0 ∧
      ∀ calls, document.answer 0 turns calls = [1, 2][calls]? := by
  intro document turns
  have reachable : document.Reachable :=
    ((((Reachable.empty.onward rfl rfl).onward rfl rfl).onward rfl rfl).onward rfl rfl).onward
      rfl rfl
  have formed := reachable.wellFormed
  have visible : document.visibleBelow 0 = [1, 2] := by decide
  have free : ∀ id, document.size ≤ id → ¬ document.IsFixed 0 1 id := fun id made =>
    formed.not_isFixed_of_size_le (by decide) made
  have carried : document.content? 1 = some (.text "ab") := rfl
  have text : ¬ document.IsFixed 0 1 1 := not_isFixed_text carried
  have spare : document.TurnsSpare 0 turns := by
    intro calls given isGiven operation member
    cases calls with
    | succ calls => contradiction
    | zero =>
        have first : document.answer 0 turns 0 = some 1 := by decide
        obtain rfl : 1 = given := Option.some.inj (first.symm.trans isGiven)
        simp only [turns, ↓reduceIte, List.mem_cons, List.not_mem_nil, or_false] at member
        rcases member with rfl | rfl | rfl | rfl | rfl | rfl
        · exact .splitText text 1
        · exact .splitText (free 3 (by decide)) 0
        · exact .create .boundary
        · exact .insertAfter (free 3 (by decide)) (free 5 (by decide))
        · exact .setData (free 3 (by decide)) "c"
        · exact .detach text
  refine ⟨visible, spare, by decide, visits_in_order formed 0, fun calls => ?_⟩
  rw [(visits_in_order formed 0).answers turns spare, visible]

end Document

end MarkupTemplate
