import MarkupTemplate.Proofs.Document.Copying

/-!
# What reading builds

Reading takes events one after the other, and every event that stands for a node creates the next
one.  Where the node goes is decided by the elements that the events before it left open: it becomes
a child of the innermost, or of the new fragment.  So the nodes are numbered as they stand in the
text, and that is the order in which they stand in the tree.
-/

namespace MarkupTemplate

open Relation

/-! ## Nodes of events -/

namespace Event

/-- What the node of an event carries.  End tags and declarations have no node. -/
def content? : Event → Option Content
  | .startElement name attributes => some (.element name attributes)
  | .emptyElement name attributes => some (.element name attributes)
  | .text content => some (.text content)
  | .comment content => some (.comment content)
  | .endElement _ => none
  | .declaration _ => none

/-- The name of the element that an event leaves open. -/
def opens? : Event → Option String
  | .startElement name _ => if isVoidElement name then none else some name
  | _ => none

/-- How many nodes the events have. -/
def nodeCount (events : List Event) : Nat :=
  (events.filterMap content?).length

theorem content?_ne_none_of_opens? {event : Event} {name : String}
    (opens : event.opens? = some name) : event.content? ≠ none := by
  cases event <;> simp [opens?, content?] at opens ⊢

@[simp]
theorem nodeCount_append (earlier later : List Event) :
    nodeCount (earlier ++ later) = nodeCount earlier + nodeCount later := by
  simp [nodeCount]

theorem nodeCount_of_content? {event : Event} {content : Content}
    (stands : event.content? = some content) : nodeCount [event] = 1 := by
  simp [nodeCount, stands]

theorem nodeCount_of_no_content {event : Event} (none_stands : event.content? = none) :
    nodeCount [event] = 0 := by
  simp [nodeCount, none_stands]

/-- The node with a number is that of one event. -/
theorem exists_of_lt_nodeCount {events : List Event} {number : Nat}
    (within : number < nodeCount events) :
    ∃ earlier event later content, events = earlier ++ event :: later ∧
      event.content? = some content ∧ nodeCount earlier = number := by
  induction events using List.reverseRecOn with
  | nil => exact absurd within (Nat.not_lt_zero _)
  | append_singleton events last inductionHypothesis =>
      by_cases before : number < nodeCount events
      · obtain ⟨earlier, event, later, content, rfl, stands, count⟩ := inductionHypothesis before
        exact ⟨earlier, event, later ++ [last], content, by simp, stands, count⟩
      · rw [nodeCount_append] at within
        cases stands : last.content? with
        | none =>
            rw [nodeCount_of_no_content stands] at within
            exact absurd within before
        | some content =>
            rw [nodeCount_of_content? stands] at within
            exact ⟨events, last, [], content, rfl, stands, by omega⟩

/-- Events before which there are as many nodes are the same event, if they have nodes. -/
theorem eq_of_nodeCount_eq {first second : List Event} {event other : Event}
    {later rest : List Event} (same : first ++ event :: later = second ++ other :: rest)
    (stands : event.content? ≠ none) (alsoStands : other.content? ≠ none)
    (counts : nodeCount first = nodeCount second) : event = other := by
  have positive : ∀ {event : Event} (between : List Event), event.content? ≠ none →
      nodeCount (event :: between) ≠ 0 := by
    intro event between stands
    obtain ⟨content, carried⟩ := Option.ne_none_iff_exists'.1 stands
    simp [nodeCount, carried]
  rcases List.append_eq_append_iff.1 same with ⟨between, rfl, split⟩ | ⟨between, rfl, split⟩
  · cases between with
    | nil => exact (List.cons.inj split).1
    | cons next between =>
        obtain ⟨rfl, _⟩ := List.cons.inj split
        rw [nodeCount_append] at counts
        exact absurd (Nat.left_eq_add.1 counts) (positive between stands)
  · cases between with
    | nil => exact (List.cons.inj split).1.symm
    | cons next between =>
        obtain ⟨rfl, _⟩ := List.cons.inj split
        rw [nodeCount_append] at counts
        exact absurd (Nat.add_eq_left.1 counts) (positive between alsoStands)

end Event

/-! ## Open elements -/

/-- The elements that are open after events, the innermost first, when the first event that has a
node gives it the first number. -/
inductive LeftOpen (first : NodeId) : List Event → List OpenElement → Prop
  | start : LeftOpen first [] []
  | opening {events : List Event} {opened : List OpenElement} {event : Event} {name : String}
      (before : LeftOpen first events opened) (opens : event.opens? = some name) :
      LeftOpen first (events ++ [event]) (⟨first + Event.nodeCount events, name⟩ :: opened)
  /-- An end tag closes the nearest open element of its name, and everything opened after it. -/
  | closing {events : List Event} {inner outer : List OpenElement} {element : OpenElement}
      {name : String} (before : LeftOpen first events (inner ++ element :: outer))
      (others : ∀ other ∈ inner, Text.agreeIgnoringCase other.name.toList name.toList = false)
      (agrees : Text.agreeIgnoringCase element.name.toList name.toList = true) :
      LeftOpen first (events ++ [.endElement name]) outer
  /-- It closes nothing if no element of its name is open. -/
  | stray {events : List Event} {opened : List OpenElement} {name : String}
      (before : LeftOpen first events opened)
      (others : ∀ other ∈ opened, Text.agreeIgnoringCase other.name.toList name.toList = false) :
      LeftOpen first (events ++ [.endElement name]) opened
  | other {events : List Event} {opened : List OpenElement} {event : Event}
      (before : LeftOpen first events opened) (opensNone : event.opens? = none)
      (closesNone : ∀ name, event ≠ .endElement name) : LeftOpen first (events ++ [event]) opened

/-- Every open element was begun by an event, and has its node. -/
theorem LeftOpen.exists_event {first : NodeId} {events : List Event} {opened : List OpenElement}
    (leftOpen : LeftOpen first events opened) {element : OpenElement} (member : element ∈ opened) :
    ∃ earlier event later, events = earlier ++ event :: later ∧
      event.opens? = some element.name ∧ element.id = first + Event.nodeCount earlier := by
  have onward : ∀ {events : List Event} {last : Event},
      (∃ earlier event later, events = earlier ++ event :: later ∧
        event.opens? = some element.name ∧ element.id = first + Event.nodeCount earlier) →
      ∃ earlier event later, events ++ [last] = earlier ++ event :: later ∧
        event.opens? = some element.name ∧ element.id = first + Event.nodeCount earlier := by
    rintro _ last ⟨earlier, event, later, rfl, opens, number⟩
    exact ⟨earlier, event, later ++ [last], by simp, opens, number⟩
  induction leftOpen with
  | start => contradiction
  | @opening events opened event name before opens inductionHypothesis =>
      rcases List.mem_cons.1 member with rfl | old
      · exact ⟨events, event, [], rfl, opens, rfl⟩
      · exact onward (inductionHypothesis old)
  | closing before others agrees inductionHypothesis =>
      exact onward (inductionHypothesis (List.mem_append_right _ (List.mem_cons_of_mem _ member)))
  | stray before others inductionHypothesis => exact onward (inductionHypothesis member)
  | other before opensNone closesNone inductionHypothesis =>
      exact onward (inductionHypothesis member)

/-! ## Nodes that are created in their places -/

namespace Document

theorem parent?_createIn (document : Document) (parent : NodeId) (content : Content)
    (id : NodeId) :
    (document.createIn parent content).1.parent? id =
      if id = document.size then some parent else document.parent? id := by
  rw [createIn_fst, parent?, parent?, node?_attach, node?_create]
  by_cases fresh : id = document.size
  · rw [if_pos fresh, if_pos fresh]
    simp [Node.afterAttach, fresh]
  · rw [if_neg fresh, if_neg fresh]
    cases document.node? id <;> simp [Node.afterAttach, fresh]

/-- Every event that has a node created it in the innermost element that was open, or in the root,
which was created before. -/
structure Places (document : Document) (root : NodeId) (events : List Event) : Prop where
  size : document.size = root + 1 + Event.nodeCount events
  node : ∀ {earlier event later content}, events = earlier ++ event :: later →
    event.content? = some content → ∃ opened, LeftOpen (root + 1) earlier opened ∧
      document.content? (root + 1 + Event.nodeCount earlier) = some content ∧
      document.parent? (root + 1 + Event.nodeCount earlier) =
        some ((opened.head?.map OpenElement.id).getD root)

namespace Places

variable {document : Document} {root : NodeId} {events : List Event} {event : Event}

theorem eq_or_mem_of_concat {earlier later : List Event} {taken last : Event}
    (split : events ++ [last] = earlier ++ taken :: later) :
    (earlier = events ∧ taken = last) ∨ ∃ rest, events = earlier ++ taken :: rest := by
  rcases List.eq_nil_or_concat later with rfl | ⟨rest, final, rfl⟩
  · have same := List.append_inj' split rfl
    exact .inl ⟨same.1.symm, (List.cons.inj same.2).1.symm⟩
  · rw [List.concat_eq_append, ← List.cons_append, ← List.append_assoc] at split
    exact .inr ⟨rest, (List.append_inj' split rfl).1⟩

theorem pass (places : document.Places root events) (none_stands : event.content? = none) :
    document.Places root (events ++ [event]) := by
  refine ⟨?_, ?_⟩
  · rw [places.size, Event.nodeCount_append, Event.nodeCount_of_no_content none_stands]
    rfl
  · intro earlier taken later content split stands
    rcases eq_or_mem_of_concat split with ⟨_, rfl⟩ | ⟨rest, whole⟩
    · rw [none_stands] at stands
      contradiction
    · exact places.node whole stands

theorem create (places : document.Places root events) {opened : List OpenElement}
    (leftOpen : LeftOpen (root + 1) events opened) {content : Content}
    (stands : event.content? = some content) :
    (document.createIn ((opened.head?.map OpenElement.id).getD root) content).1.Places root
      (events ++ [event]) := by
  refine ⟨?_, ?_⟩
  · rw [size_createIn, places.size, Event.nodeCount_append, Event.nodeCount_of_content? stands,
      Nat.add_assoc]
  · intro earlier taken later carried split stood
    rcases eq_or_mem_of_concat split with ⟨rfl, rfl⟩ | ⟨rest, rfl⟩
    · rw [stands] at stood
      refine ⟨opened, leftOpen, ?_, ?_⟩
      · rw [content?_createIn, if_pos places.size.symm, stood]
      · rw [parent?_createIn, if_pos places.size.symm]
    · obtain ⟨inner, before, found, above⟩ := places.node rfl stood
      have old := Nat.ne_of_lt (lt_size_of_content? found)
      refine ⟨inner, before, ?_, ?_⟩
      · rw [content?_createIn, if_neg old, found]
      · rw [parent?_createIn, if_neg old, above]

end Places

end Document

/-! ## Taking one event -/

namespace TreeBuilder

/-- The builder has taken the events into the root. -/
structure HasTaken (builder : TreeBuilder) (root : NodeId) (events : List Event) : Prop where
  root_eq : builder.root = root
  leftOpen : LeftOpen (root + 1) events builder.opened
  places : builder.document.Places root events

variable {builder : TreeBuilder} {root : NodeId} {events : List Event} {event : Event}

theorem parent_eq (builder : TreeBuilder) :
    builder.parent = (builder.opened.head?.map OpenElement.id).getD builder.root := by
  unfold parent
  cases builder.opened <;> rfl

theorem splitAtName?_cases (name : String) (opened : List OpenElement) :
    (splitAtName? name opened = none ∧ ∀ other ∈ opened,
        Text.agreeIgnoringCase other.name.toList name.toList = false) ∨
      ∃ inner element outer, splitAtName? name opened = some (inner, outer) ∧
        opened = inner ++ element :: outer ∧
        (∀ other ∈ inner, Text.agreeIgnoringCase other.name.toList name.toList = false) ∧
        Text.agreeIgnoringCase element.name.toList name.toList = true := by
  induction opened with
  | nil => exact .inl ⟨rfl, by simp⟩
  | cons innermost opened inductionHypothesis =>
      rw [splitAtName?]
      split
      · rename_i agrees
        exact .inr ⟨[], innermost, opened, rfl, rfl, by simp, agrees⟩
      · rename_i differs
        have apart := Bool.eq_false_iff.2 differs
        rcases inductionHypothesis with ⟨missing, others⟩ |
          ⟨inner, element, outer, found, rfl, others, agrees⟩
        · exact .inl ⟨by rw [missing]; rfl, List.forall_mem_cons.2 ⟨apart, others⟩⟩
        · exact .inr ⟨innermost :: inner, element, outer, by rw [found]; rfl, rfl,
            List.forall_mem_cons.2 ⟨apart, others⟩, agrees⟩

/-- An event that is refused is an end tag, and leaves the builder as it was. -/
theorem take_of_refused {strict : Bool} {cause : FaultCause}
    (refused : (builder.take strict event).2 = some cause) :
    (builder.take strict event).1 = builder ∧ ∃ name, event = .endElement name := by
  cases event with
  | endElement name =>
      refine ⟨?_, name, rfl⟩
      rw [take, closeElement] at refused ⊢
      split at refused
      · contradiction
      · split at refused
        · rename_i strictly
          rw [if_pos strictly]
        · contradiction
      · rfl
  | _ => contradiction

namespace HasTaken

theorem addLeaf (taken : builder.HasTaken root events) {content : Content}
    (stands : event.content? = some content) (opensNone : event.opens? = none) :
    (builder.addLeaf content).HasTaken root (events ++ [event]) := by
  refine ⟨taken.root_eq, taken.leftOpen.other opensNone ?_, ?_⟩
  · rintro name rfl
    contradiction
  · have created := taken.places.create taken.leftOpen stands
    rwa [← taken.root_eq, ← parent_eq, taken.root_eq] at created

theorem openElement (taken : builder.HasTaken root events) (name : String)
    (attributes : List Attribute) :
    (builder.openElement name attributes).HasTaken root
      (events ++ [.startElement name attributes]) := by
  unfold TreeBuilder.openElement
  by_cases void : isVoidElement name = true
  · rw [if_pos void]
    exact taken.addLeaf rfl (if_pos void)
  · rw [if_neg void]
    have stands : (Event.startElement name attributes).content? = some _ := rfl
    have opens : (Event.startElement name attributes).opens? = some name := if_neg void
    have created := taken.places.create taken.leftOpen stands
    rw [← taken.root_eq, ← parent_eq, taken.root_eq] at created
    have opening := taken.leftOpen.opening opens
    rw [← taken.places.size] at opening
    exact ⟨taken.root_eq, opening, created⟩

theorem closeElement (taken : builder.HasTaken root events) {strict : Bool} {name : String}
    (accepted : (builder.closeElement strict name).2 = none) :
    (builder.closeElement strict name).1.HasTaken root (events ++ [.endElement name]) := by
  have none_stands : (Event.endElement name).content? = none := rfl
  have places := taken.places.pass none_stands
  unfold TreeBuilder.closeElement at accepted ⊢
  rcases splitAtName?_cases name builder.opened with ⟨missing, others⟩ |
    ⟨inner, element, outer, found, shape, others, agrees⟩
  · rw [missing]
    exact ⟨taken.root_eq, taken.leftOpen.stray others, places⟩
  · have closed := (shape ▸ taken.leftOpen).closing others agrees
    rw [found] at accepted ⊢
    cases inner with
    | nil => exact ⟨taken.root_eq, closed, places⟩
    | cons innermost inner =>
        simp only at accepted ⊢
        split at accepted
        · contradiction
        · rename_i forgiving
          rw [if_neg forgiving]
          exact ⟨taken.root_eq, closed, places⟩

/-- Taking an event that is not refused. -/
theorem take (taken : builder.HasTaken root events) {strict : Bool}
    (accepted : (builder.take strict event).2 = none) :
    (builder.take strict event).1.HasTaken root (events ++ [event]) := by
  cases event with
  | startElement name attributes => exact taken.openElement name attributes
  | emptyElement name attributes => exact taken.addLeaf rfl rfl
  | endElement name => exact taken.closeElement accepted
  | text content => exact taken.addLeaf rfl rfl
  | comment content => exact taken.addLeaf rfl rfl
  | declaration content =>
      exact ⟨taken.root_eq, taken.leftOpen.other rfl (by simp), taken.places.pass rfl⟩

end HasTaken

end TreeBuilder

/-! ## Taking all events -/

/-- Of the events that were read, those that are taken: all of them, or those up to the first that
there is a fault with, which is one known to the reader or one in the nesting of an end tag. -/
structure EndsAfter (readings taken : List EventReading) (fault? : Option Fault) : Prop where
  leads : taken <+: readings
  faultless : ∀ reading ∈ taken.dropLast, reading.fault? = none
  whole : fault? = none → taken = readings
  cause : taken ≠ readings → ∃ last fault, taken.getLast? = some last ∧ fault? = some fault ∧
    (last.fault? = some fault ∨
      (∃ name, last.event = .endElement name) ∧ fault.position = last.position)

namespace EndsAfter

variable {reading : EventReading} {rest taken : List EventReading} {fault? : Option Fault}

theorem at_once {fault : Fault} (found : reading.fault? = some fault ∨
    (∃ name, reading.event = .endElement name) ∧ fault.position = reading.position) :
    EndsAfter (reading :: rest) [reading] (some fault) where
  leads := ⟨rest, rfl⟩
  faultless := by simp
  whole := by simp
  cause := fun _ => ⟨reading, fault, rfl, rfl, found⟩

theorem cons (ends : EndsAfter rest taken fault?) (faultless : reading.fault? = none) :
    EndsAfter (reading :: rest) (reading :: taken) fault? where
  leads := List.cons_prefix_cons.2 ⟨rfl, ends.leads⟩
  faultless := by
    cases taken with
    | nil => simp
    | cons next taken => exact List.forall_mem_cons.2 ⟨faultless, ends.faultless⟩
  whole := fun through => congrArg (reading :: ·) (ends.whole through)
  cause := by
    intro partly
    obtain ⟨last, fault, isLast, found, reason⟩ :=
      ends.cause fun same => partly (congrArg (reading :: ·) same)
    refine ⟨last, fault, ?_, found, reason⟩
    rw [List.getLast?_cons, isLast]
    rfl

/-- What is found after the events changes nothing if there was a fault before. -/
theorem orElse (ends : EndsAfter rest taken fault?) (later? : Option Fault) :
    EndsAfter rest taken (fault? <|> later?) where
  leads := ends.leads
  faultless := ends.faultless
  whole := by
    intro through
    cases fault? with
    | none => exact ends.whole rfl
    | some fault => contradiction
  cause := by
    intro partly
    obtain ⟨last, fault, isLast, rfl, reason⟩ := ends.cause partly
    exact ⟨last, fault, isLast, rfl, reason⟩

end EndsAfter

theorem TreeBuilder.HasTaken.exists_endsAfter {builder : TreeBuilder} {root : NodeId}
    {events : List Event} (hasTaken : builder.HasTaken root events) (strict : Bool)
    (readings : List EventReading) :
    ∃ taken, EndsAfter readings taken (builder.takeAll strict readings).2 ∧
      (builder.takeAll strict readings).1.document.Places root
        (events ++ taken.map EventReading.event) := by
  induction readings generalizing builder events with
  | nil => exact ⟨[], ⟨List.prefix_rfl, by simp, fun _ => rfl, absurd rfl⟩, by
      rw [List.map_nil, List.append_nil]
      exact hasTaken.places⟩
  | cons reading rest inductionHypothesis =>
      rw [takeAll]
      cases refused : (builder.take strict reading.event).2 with
      | some cause =>
          -- The refused end tag counts as taken: it has no node, so all nodes keep their places.
          obtain ⟨same, name, isEnd⟩ := take_of_refused refused
          refine ⟨[reading], .at_once (.inr ⟨⟨name, isEnd⟩, rfl⟩), ?_⟩
          simp only [same]
          exact hasTaken.places.pass (by rw [isEnd]; rfl)
      | none =>
          have next := hasTaken.take refused
          simp only
          cases known : reading.fault? with
          | some fault => exact ⟨[reading], .at_once (.inl known), next.places⟩
          | none =>
              obtain ⟨taken, ends, places⟩ := inductionHypothesis next
              refine ⟨reading :: taken, ends.cons known, ?_⟩
              rwa [List.append_assoc] at places

namespace Document

/-! ## What was built -/

/-- The new document holds what the old one held, and a fragment with one node for every event that
has a node, all in the order of the events. -/
structure BuiltFrom (old new : Document) (events : List Event) : Prop where
  kept : ∀ id, id < old.size → new.node? id = old.node? id
  fragment : new.content? old.size = some .fragment ∧ new.parent? old.size = none
  /-- Every event that has a node created it in the innermost element that was open. -/
  places : new.Places old.size events
  /-- The nodes are numbered in document order. -/
  ordered : new.descendants old.size = List.range' (old.size + 1) (Event.nodeCount events)
  beneath : ∀ id, old.size < id → id < new.size → TransGen new.IsChild id old.size
  /-- Only an event that leaves its element open gives it children. -/
  childless : ∀ earlier event later, events = earlier ++ event :: later →
    event.content? ≠ none → event.opens? = none →
      new.children (old.size + 1 + Event.nodeCount earlier) = []

variable {document : Document}

/-- The parent of a node is the fragment, or its event left it open. -/
theorem Places.exists_opens {root id parent : Nat} {events : List Event}
    (places : document.Places root events) (within : id < document.size) (new : root < id)
    (above : document.parent? id = some parent) (other : parent ≠ root) :
    ∃ earlier event later, events = earlier ++ event :: later ∧ event.opens? ≠ none ∧
      parent = root + 1 + Event.nodeCount earlier := by
  obtain ⟨number, rfl⟩ := Nat.exists_eq_add_of_lt new
  have counted : number < Event.nodeCount events := by
    have size := places.size
    omega
  obtain ⟨earlier, event, later, content, rfl, stands, rfl⟩ := Event.exists_of_lt_nodeCount counted
  obtain ⟨opened, leftOpen, _, found⟩ := places.node rfl stands
  rw [Nat.add_right_comm, above, Option.some.injEq] at found
  cases opened with
  | nil => exact absurd found other
  | cons innermost outer =>
      obtain ⟨before, began, between, rfl, opens, number⟩ :=
        leftOpen.exists_event List.mem_cons_self
      refine ⟨before, began, between ++ event :: later, by simp, ?_, found.trans number⟩
      rw [opens]
      exact Option.some_ne_none _

theorem WellFormed.builtFrom_parse (wellFormed : document.WellFormed) (strict : Bool)
    (markup : String) :
    ∃ taken, EndsAfter (readEvents strict markup.toList) taken
        (document.parse strict markup).fault? ∧
      BuiltFrom document (document.parse strict markup).document
        (taken.map EventReading.event) := by
  have copied : document.CopiedIn (document.parse strict markup).document document.size .fragment
      (Growth.ofMarkup strict markup.toList).1.forest := wellFormed.copiedIn_parse strict markup
  let start : TreeBuilder := { document := (document.create .fragment).1, root := document.size }
  have begun : start.HasTaken document.size [] := by
    refine ⟨rfl, .start, size_create document .fragment, ?_⟩
    intro earlier event later content split
    simp at split
  obtain ⟨taken, ends, places⟩ :=
    begun.exists_endsAfter strict (readEvents strict markup.toList)
  refine ⟨taken, ends.orElse _, ?_⟩
  rw [List.nil_append] at places
  change (document.parse strict markup).document.Places document.size _ at places
  have size := places.size
  have planted : (document.parse strict markup).document.size = document.size + 1 +
      (Growth.ofMarkup strict markup.toList).1.forest.labels.length := by
    rw [parse_eq]
    exact (size_plant _ _ _).trans (congrArg (· + _) (size_create document .fragment))
  have ordered : (document.parse strict markup).document.descendants document.size =
      List.range' (document.size + 1)
        (Event.nodeCount (taken.map EventReading.event)) := by
    have same : (Growth.ofMarkup strict markup.toList).1.forest.labels.length =
        Event.nodeCount (taken.map EventReading.event) :=
      Nat.add_left_cancel (planted.symm.trans size)
    rw [descendants, copied.hasBelow.below_eq copied.wellFormed, ← same]
    exact Forest.ids_numbered _ _
  refine ⟨fun id within => copied.node?_eq wellFormed within, ⟨copied.copied, copied.orphan⟩,
    places, ordered, ?_, ?_⟩
  · intro id after within
    rw [← copied.wellFormed.mem_descendants_iff, ordered, List.mem_range'_1, ← size]
    exact ⟨after, within⟩
  · intro earlier event later split stands opensNone
    -- A child would have been created while an event had left this node open; that event has the
    -- node's number, so it is the node's own.
    by_contra nonempty
    obtain ⟨child, member⟩ := List.exists_mem_of_ne_nil _ nonempty
    have above := copied.wellFormed.arranged.parent?_eq_some_iff.2 member
    have fresh : document.size < child := by
      rcases Nat.lt_trichotomy child document.size with old | rfl | new
      · have inOld := (copied.mem_children old _).1 member
        have within : document.size + 1 + Event.nodeCount earlier < document.size :=
          wellFormed.arranged.parent_lt_size_of_mem inOld
        omega
      · rw [copied.orphan] at above
        contradiction
      · exact new
    obtain ⟨before, began, between, alsoSplit, opens, number⟩ := places.exists_opens
      (copied.wellFormed.arranged.lt_size_of_mem member) fresh above (by omega)
    have same : event = began := by
      refine Event.eq_of_nodeCount_eq (split.symm.trans alsoSplit) stands ?_
        (Nat.add_left_cancel number)
      obtain ⟨name, opening⟩ := Option.ne_none_iff_exists'.1 opens
      exact Event.content?_ne_none_of_opens? opening
    exact opens (same ▸ opensNone)

/-- Reading markup into a document adds a fragment and, in the order of the events that are taken,
one node for every event that has one.  Forgiving reading takes all events. -/
theorem parse_builtFrom (reachable : document.Reachable) (strict : Bool) (markup : String) :
    let parsed := document.parse strict markup
    parsed.root = document.size ∧
      ∃ taken, EndsAfter (readEvents strict markup.toList) taken parsed.fault? ∧
        (strict = false → taken = readEvents strict markup.toList) ∧
        BuiltFrom document parsed.document (taken.map EventReading.event) := by
  intro parsed
  obtain ⟨taken, ends, built⟩ := reachable.wellFormed.builtFrom_parse strict markup
  refine ⟨rfl, taken, ends, ?_, built⟩
  rintro rfl
  exact ends.whole (fault?_parse_forgiving document markup)

/-- Items that are not ended, beside a paragraph that was read before. -/
theorem parse_builtFrom_of_items :
    let document := Document.empty.perform (.parse false "<p>kept</p>")
    let parsed := document.parse false "<ul><LI>a<br>b<li>c</li></UL>d"
    document.Reachable ∧ parsed.document.children 3 = [4, 11] ∧
      parsed.document.children 5 = [6, 7, 8, 9] ∧ ∃ taken,
        EndsAfter (readEvents false "<ul><LI>a<br>b<li>c</li></UL>d".toList) taken parsed.fault? ∧
          BuiltFrom document parsed.document (taken.map EventReading.event) := by
  intro document parsed
  have reachable : document.Reachable := Reachable.empty.onward rfl rfl
  obtain ⟨_, taken, ends, _, built⟩ :=
    parse_builtFrom reachable false "<ul><LI>a<br>b<li>c</li></UL>d"
  exact ⟨reachable, by decide +kernel, by decide +kernel, taken, ends, built⟩

end Document

end MarkupTemplate
