import MarkupTemplate.Document.Parse
import MarkupTemplate.Proofs.Document.Planting

/-!
# Growing forests from events

A tree under construction can be described without a document: the trees that were read so far
into the innermost open element, and for every open element the trees before it.  Taking events in
such a growth builds the same forest that taking them in a document plants there, so whatever is
shown of growths holds of parsed documents.
-/

namespace MarkupTemplate

/-- An open element, with the trees before it. -/
structure Opening where
  earlier : Forest Content
  name : String
  attributes : List Attribute

/-- A forest under construction. -/
structure Growth where
  /-- The trees in the innermost open element so far. -/
  row : Forest Content := .empty
  /-- The open elements, the innermost first. -/
  opened : List Opening := []

namespace Growth

/-! ## Taking events -/

def addLeaf (growth : Growth) (content : Content) : Growth :=
  { growth with row := growth.row ++ Forest.single content .empty }

def enter (growth : Growth) (name : String) (attributes : List Attribute) : Growth :=
  { opened := ⟨growth.row, name, attributes⟩ :: growth.opened }

def openElement (growth : Growth) (name : String) (attributes : List Attribute) : Growth :=
  if isVoidElement name then growth.addLeaf (.element name attributes)
  else growth.enter name attributes

/-- Close the innermost open elements, as many as the given number. -/
def leave : Nat → Growth → Growth
  | 0, growth => growth
  | _ + 1, ⟨row, []⟩ => ⟨row, []⟩
  | count + 1, ⟨row, opening :: outer⟩ =>
      leave count ⟨opening.earlier ++
        Forest.single (.element opening.name opening.attributes) row, outer⟩

/-- How many open elements lie inside the nearest one of that name. -/
def depth? (growth : Growth) (name : String) : Option Nat :=
  growth.opened.findIdx? fun opening =>
    Text.agreeIgnoringCase opening.name.toList name.toList

def closeElement (growth : Growth) (strict : Bool) (name : String) :
    Growth × Option FaultCause :=
  match growth.depth? name, growth.opened with
  | some (depth + 1), innermost :: _ =>
      if strict then (growth, some (.mismatchedEndTag innermost.name name))
      else (growth.leave (depth + 2), none)
  | some depth, _ => (growth.leave (depth + 1), none)
  | none, _ => (growth, if strict then some (.unexpectedEndTag name) else none)

def take (growth : Growth) (strict : Bool) : Event → Growth × Option FaultCause
  | .startElement name attributes => (growth.openElement name attributes, none)
  | .emptyElement name attributes => (growth.addLeaf (.element name attributes), none)
  | .endElement name => growth.closeElement strict name
  | .text content => (growth.addLeaf (.text content), none)
  | .comment content => (growth.addLeaf (.comment content), none)
  | .declaration _ => (growth, none)

def takeAll (growth : Growth) (strict : Bool) : List EventReading → Growth × Option Fault
  | [] => (growth, none)
  | reading :: rest =>
      let taken := growth.take strict reading.event
      match taken.2 with
      | some cause => (taken.1, some ⟨reading.position, cause⟩)
      | none =>
          match reading.fault? with
          | some fault => (taken.1, some fault)
          | none => taken.1.takeAll strict rest

/-- The forest, once everything that is still open is closed. -/
def forest (growth : Growth) : Forest Content :=
  (growth.leave growth.opened.length).row

end Growth

/-! ## Growing in a document -/

namespace TreeBuilder

/-- Plant a forest where the next node goes. -/
def grow (builder : TreeBuilder) (forest : Forest Content) : TreeBuilder :=
  { builder with document := builder.document.plant builder.parent forest }

/-- Add an element and leave it open. -/
def enter (builder : TreeBuilder) (name : String) (attributes : List Attribute) : TreeBuilder :=
  let created := builder.document.createIn builder.parent (.element name attributes)
  { builder with document := created.1, opened := ⟨created.2, name⟩ :: builder.opened }

theorem grow_append (builder : TreeBuilder) (earlier later : Forest Content) :
    builder.grow (earlier ++ later) = (builder.grow earlier).grow later := by
  unfold grow
  rw [Document.plant_append]
  rfl

theorem grow_single_empty (builder : TreeBuilder) (content : Content) :
    builder.grow (Forest.single content .empty) = builder.addLeaf content := rfl

end TreeBuilder

namespace Growth

/-- The builder in which the elements have been opened, with the trees before each of them. -/
def opening (start : TreeBuilder) : List Opening → TreeBuilder
  | [] => start
  | innermost :: outer =>
      ((opening start outer).grow innermost.earlier).enter innermost.name innermost.attributes

/-- The builder that has planted the growth. -/
def builder (start : TreeBuilder) (growth : Growth) : TreeBuilder :=
  (opening start growth.opened).grow growth.row

variable {start : TreeBuilder}

theorem builder_addLeaf (growth : Growth) (content : Content) :
    (growth.addLeaf content).builder start = (growth.builder start).addLeaf content := by
  unfold builder addLeaf
  rw [TreeBuilder.grow_append, TreeBuilder.grow_single_empty]

theorem builder_enter (growth : Growth) (name : String) (attributes : List Attribute) :
    (growth.enter name attributes).builder start =
      (growth.builder start).enter name attributes := rfl

theorem builder_openElement (growth : Growth) (name : String) (attributes : List Attribute) :
    (growth.openElement name attributes).builder start =
      (growth.builder start).openElement name attributes := by
  unfold openElement TreeBuilder.openElement
  split
  · exact builder_addLeaf growth _
  · exact builder_enter growth name attributes

theorem builder_leave (fresh : start.opened = []) (count : Nat) (growth : Growth) :
    (growth.leave count).builder start =
      { growth.builder start with opened := (growth.builder start).opened.drop count } := by
  induction count generalizing growth with
  | zero => rfl
  | succ count inductionHypothesis =>
      obtain ⟨row, opened⟩ := growth
      cases opened with
      | nil =>
          simp [leave, builder, opening, TreeBuilder.grow, fresh]
      | cons innermost outer =>
          rw [leave, inductionHypothesis]
          have document : (builder start ⟨innermost.earlier ++
              Forest.single (.element innermost.name innermost.attributes) row, outer⟩).document =
              (builder start ⟨row, innermost :: outer⟩).document := by
            unfold builder
            rw [TreeBuilder.grow_append]
            rfl
          rw [TreeBuilder.mk.injEq]
          exact ⟨document, rfl, rfl⟩

theorem map_name_opened (fresh : start.opened = []) (growth : Growth) :
    (growth.builder start).opened.map OpenElement.name = growth.opened.map Opening.name := by
  obtain ⟨row, opened⟩ := growth
  change (opening start opened).opened.map OpenElement.name = opened.map Opening.name
  induction opened with
  | nil => simp [opening, fresh]
  | cons innermost outer inductionHypothesis =>
      change innermost.name :: (opening start outer).opened.map OpenElement.name = _
      rw [inductionHypothesis]
      rfl

theorem splitAtName?_eq (name : String) (opened : List OpenElement) :
    TreeBuilder.splitAtName? name opened =
      (opened.findIdx? fun element =>
        Text.agreeIgnoringCase element.name.toList name.toList).map fun depth =>
          (opened.take depth, opened.drop (depth + 1)) := by
  induction opened with
  | nil => rfl
  | cons element outer inductionHypothesis =>
      rw [TreeBuilder.splitAtName?, inductionHypothesis, List.findIdx?_cons]
      split
      · rfl
      · rw [Option.map_map, Option.map_map]
        rfl

theorem depth?_eq (fresh : start.opened = []) (growth : Growth) (name : String) :
    growth.depth? name = (growth.builder start).opened.findIdx? fun element =>
      Text.agreeIgnoringCase element.name.toList name.toList := by
  have names := map_name_opened fresh growth
  have indexed := congrArg
    (List.findIdx? fun shown : String => Text.agreeIgnoringCase shown.toList name.toList) names
  rw [List.findIdx?_map, List.findIdx?_map] at indexed
  exact indexed.symm

theorem builder_closeElement (fresh : start.opened = []) (growth : Growth) (strict : Bool)
    (name : String) :
    (growth.builder start).closeElement strict name =
      ((growth.closeElement strict name).1.builder start,
        (growth.closeElement strict name).2) := by
  have names := map_name_opened fresh growth
  unfold TreeBuilder.closeElement closeElement
  rw [splitAtName?_eq, ← depth?_eq fresh]
  cases found : growth.depth? name with
  | none => rfl
  | some depth =>
      cases depth with
      | zero =>
          simp only [Option.map_some, List.take_zero]
          rw [builder_leave fresh]
      | succ depth =>
          have some_open : growth.opened ≠ [] := by
            intro none_open
            simp [depth?, none_open] at found
          obtain ⟨innermost, outer, shape⟩ := List.exists_cons_of_ne_nil some_open
          rw [shape, List.map_cons] at names
          obtain ⟨element, elements, built⟩ := List.exists_cons_of_ne_nil
            (l := (growth.builder start).opened) (by rintro empty; simp [empty] at names)
          rw [built, List.map_cons, List.cons.injEq] at names
          simp only [Option.map_some, built, List.take_succ_cons, shape, names.1]
          cases strict with
          | true => rfl
          | false =>
              simp only [Bool.false_eq_true, ↓reduceIte]
              rw [builder_leave fresh, built]

theorem builder_take (fresh : start.opened = []) (growth : Growth) (strict : Bool)
    (event : Event) :
    (growth.builder start).take strict event =
      ((growth.take strict event).1.builder start, (growth.take strict event).2) := by
  cases event with
  | startElement name attributes =>
      rw [take, builder_openElement]
      rfl
  | emptyElement name attributes =>
      rw [take, builder_addLeaf]
      rfl
  | endElement name => exact builder_closeElement fresh growth strict name
  | text content =>
      rw [take, builder_addLeaf]
      rfl
  | comment content =>
      rw [take, builder_addLeaf]
      rfl
  | declaration content => rfl

theorem builder_takeAll (fresh : start.opened = []) (growth : Growth) (strict : Bool)
    (readings : List EventReading) :
    (growth.builder start).takeAll strict readings =
      ((growth.takeAll strict readings).1.builder start,
        (growth.takeAll strict readings).2) := by
  induction readings generalizing growth with
  | nil => rfl
  | cons reading rest inductionHypothesis =>
      simp only [TreeBuilder.takeAll, takeAll, builder_take fresh]
      cases (growth.take strict reading.event).2 with
      | some cause => rfl
      | none =>
          cases reading.fault? with
          | some fault => rfl
          | none => exact inductionHypothesis _

theorem opened_leave (growth : Growth) (count : Nat) :
    (growth.leave count).opened = growth.opened.drop count := by
  induction count generalizing growth with
  | zero => rfl
  | succ count inductionHypothesis =>
      obtain ⟨row, opened⟩ := growth
      cases opened with
      | nil => rfl
      | cons innermost outer => exact inductionHypothesis _

/-- The document of a growth has the growth's forest planted. -/
theorem document_builder (fresh : start.opened = []) (growth : Growth) :
    (growth.builder start).document = start.document.plant start.root growth.forest := by
  have closed := builder_leave fresh growth.opened.length growth
  have none_open := opened_leave growth growth.opened.length
  rw [List.drop_length] at none_open
  unfold forest
  cases left : growth.leave growth.opened.length with
  | mk row opened =>
      rw [left] at closed none_open
      simp only at none_open
      subst none_open
      have documents := congrArg TreeBuilder.document closed
      rw [← documents]
      simp only [builder, opening, TreeBuilder.grow, TreeBuilder.parent, fresh]

end Growth

/-! ## Parsed documents -/

/-- The growth that reading a markup text ends with, and the fault at which it ended early. -/
def Growth.ofMarkup (strict : Bool) (text : List Char) : Growth × Option Fault :=
  Growth.takeAll {} strict (readEvents strict text)

/-- What remains wrong at the end of a strictly read text. -/
def Growth.faultAtEnd? (growth : Growth) (strict : Bool) (text : List Char) : Option Fault :=
  if strict then
    firstFault? strict text <|>
      growth.opened.getLast?.map fun outermost =>
        ⟨Text.byteSize text, .unclosedElement outermost.name⟩
  else
    none

theorem Growth.faultAtEnd?_builder {start : TreeBuilder} (fresh : start.opened = [])
    (growth : Growth) (strict : Bool) (text : List Char) :
    (growth.builder start).faultAtEnd? strict text = growth.faultAtEnd? strict text := by
  have outermost := congrArg List.getLast? (growth.map_name_opened fresh)
  rw [List.getLast?_map, List.getLast?_map] at outermost
  have unclosed := congrArg
    (Option.map fun name => (⟨Text.byteSize text, .unclosedElement name⟩ : Fault)) outermost
  rw [Option.map_map, Option.map_map] at unclosed
  unfold TreeBuilder.faultAtEnd? faultAtEnd?
  split
  · exact congrArg (firstFault? strict text <|> ·) unclosed
  · rfl

/-- Parsing plants the forest of the growth below a new fragment. -/
theorem Document.parse_eq (document : Document) (strict : Bool) (markup : String) :
    document.parse strict markup =
      { document := (document.create .fragment).1.plant document.size
          (Growth.ofMarkup strict markup.toList).1.forest
        root := document.size
        fault? := (Growth.ofMarkup strict markup.toList).2 <|>
          (Growth.ofMarkup strict markup.toList).1.faultAtEnd? strict markup.toList } := by
  let start : TreeBuilder :=
    { document := (document.create .fragment).1, root := document.size }
  have fresh : start.opened = [] := rfl
  have taken : start.takeAll strict (readEvents strict markup.toList) =
      ((Growth.ofMarkup strict markup.toList).1.builder start,
        (Growth.ofMarkup strict markup.toList).2) :=
    Growth.builder_takeAll fresh {} strict (readEvents strict markup.toList)
  have planted := Growth.document_builder fresh (Growth.ofMarkup strict markup.toList).1
  have parsed : document.parse strict markup =
      { document := (start.takeAll strict (readEvents strict markup.toList)).1.document
        root := document.size
        fault? := (start.takeAll strict (readEvents strict markup.toList)).2 <|>
          (start.takeAll strict (readEvents strict markup.toList)).1.faultAtEnd? strict
            markup.toList } := rfl
  rw [parsed, taken]
  simp only
  rw [planted, Growth.faultAtEnd?_builder fresh]

end MarkupTemplate
