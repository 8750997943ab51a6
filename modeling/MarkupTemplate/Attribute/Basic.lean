/-!
# Attributes

An element carries a list of named values.  The order of the list is the order in which the names
were first given, and a name stands in it at most once as long as it is changed by the operations
of this module alone.
-/

namespace MarkupTemplate

structure Attribute where
  name : String
  value : String
  deriving DecidableEq, Repr

namespace Attribute

def lookup? (attributes : List Attribute) (name : String) : Option String :=
  (attributes.find? fun entry => entry.name = name).map Attribute.value

def isNamed (attributes : List Attribute) (name : String) : Bool :=
  attributes.any fun entry => entry.name = name

/-- Give the name a value: in its place if it has one, and last otherwise. -/
def put : List Attribute → String → String → List Attribute
  | [], name, value => [⟨name, value⟩]
  | entry :: rest, name, value =>
      if entry.name = name then
        ⟨name, value⟩ :: rest
      else
        entry :: put rest name value

def erase (attributes : List Attribute) (name : String) : List Attribute :=
  attributes.filter fun entry => entry.name ≠ name

/-- Add an attribute unless its name has a value. -/
def addNew (attributes : List Attribute) (entry : Attribute) : List Attribute :=
  if isNamed attributes entry.name then attributes else attributes ++ [entry]

/-! ## Names -/

theorem isNamed_iff {attributes : List Attribute} {name : String} :
    isNamed attributes name = true ↔ name ∈ attributes.map Attribute.name := by
  simp [isNamed]

/-- Giving a value names nothing new but the name itself. -/
theorem map_name_put (attributes : List Attribute) (name value : String) :
    (put attributes name value).map Attribute.name =
      if isNamed attributes name then attributes.map Attribute.name
      else attributes.map Attribute.name ++ [name] := by
  induction attributes with
  | nil => simp [put, isNamed]
  | cons entry rest inductionHypothesis =>
    by_cases same : entry.name = name
    · simp [put, isNamed, same]
    · have named : isNamed (entry :: rest) name = isNamed rest name := by
        simp [isNamed, same]
      rw [named]
      simp only [put, same, ↓reduceIte, List.map_cons, inductionHypothesis]
      split <;> simp

theorem lookup?_put (attributes : List Attribute) (name value other : String) :
    lookup? (put attributes name value) other =
      if other = name then some value else lookup? attributes other := by
  induction attributes with
  | nil =>
    by_cases same : name = other
    · simp [put, lookup?, same]
    · simp [put, lookup?, same, Ne.symm same]
  | cons entry rest inductionHypothesis =>
    simp only [lookup?] at inductionHypothesis
    by_cases same : entry.name = name
    · by_cases target : other = name
      · simp [put, lookup?, same, target]
      · simp [put, lookup?, same, target, Ne.symm target]
    · by_cases found : entry.name = other
      · have different : other ≠ name := fun equal => same (found.trans equal)
        simp [put, lookup?, found, different]
      · simp [put, lookup?, same, found, inductionHypothesis]

theorem lookup?_erase (attributes : List Attribute) (name other : String) :
    lookup? (erase attributes name) other =
      if other = name then none else lookup? attributes other := by
  induction attributes with
  | nil => simp [erase, lookup?]
  | cons entry rest inductionHypothesis =>
    simp only [lookup?, erase] at inductionHypothesis
    by_cases same : entry.name = name
    · by_cases target : other = name
      · simp [erase, lookup?, same, target, List.find?_filter]
      · simpa [erase, lookup?, same, target, Ne.symm target] using inductionHypothesis
    · by_cases found : entry.name = other
      · have different : other ≠ name := fun equal => same (found.trans equal)
        simp [erase, lookup?, found, different]
      · simpa [erase, lookup?, same, found] using inductionHypothesis

end Attribute

end MarkupTemplate
