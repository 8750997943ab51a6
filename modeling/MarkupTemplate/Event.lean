import MarkupTemplate.Attribute.Source
import MarkupTemplate.Lexeme

/-!
# Events of a markup text

An event is a lexeme with its attributes read: the start or end of an element, a text, a comment
or a declaration.  Dropped lexemes give no event.  A reader goes through the events with the byte
position it has reached and, when it reads strictly, with the first fault of everything it has
read so far, the dropped lexemes included.
-/

namespace MarkupTemplate

open MarkupTemplate.Text

inductive Event where
  | startElement (name : String) (attributes : List Attribute)
  | emptyElement (name : String) (attributes : List Attribute)
  | endElement (name : String)
  | text (content : String)
  | comment (content : String)
  | declaration (content : String)
  deriving DecidableEq, Repr

namespace Event

def isStart : Event → Bool
  | .startElement _ _ => true
  | .emptyElement _ _ => true
  | _ => false

def attributes? : Event → Option (List Attribute)
  | .startElement _ attributes => some attributes
  | .emptyElement _ attributes => some attributes
  | _ => none

def text? : Event → Option String
  | .text content => some content
  | _ => none

end Event

/-! ## From lexemes to events -/

namespace Lexeme

/-- The attributes of a tag; a strict reader takes none from a tag that has a fault in them. -/
def readAttributes (strict : Bool) (text : List Char) : List Attribute :=
  if strict && (Attribute.fault? text).isSome then [] else Attribute.readAll text

def event? (strict : Bool) (lexeme : Lexeme) : Option Event :=
  match lexeme.construct with
  | .startTag name text => some (.startElement (String.ofList name) (readAttributes strict text))
  | .emptyTag name text => some (.emptyElement (String.ofList name) (readAttributes strict text))
  | .endTag name => some (.endElement (String.ofList name))
  | .text content => some (.text (String.ofList content))
  | .comment content => some (.comment (String.ofList content))
  | .declaration content => some (.declaration (String.ofList content))
  | .dropped => none
  | .endOfText => none

/-- The fault in the attributes of a tag, reported where the tag begins. -/
def attributeFault? (lexeme : Lexeme) : Option Fault :=
  match lexeme.construct with
  | .startTag _ text =>
      (Attribute.fault? text).map fun fault => ⟨lexeme.start, .invalidAttributes fault⟩
  | .emptyTag _ text =>
      (Attribute.fault? text).map fun fault => ⟨lexeme.start, .invalidAttributes fault⟩
  | _ => none

/-- All faults of a lexeme, those in its attributes last. -/
def allFaults (lexeme : Lexeme) : List Fault :=
  lexeme.faults ++ lexeme.attributeFault?.toList

end Lexeme

/-! ## Readers -/

/-- A lexeme that has been read, with the first fault of the lexemes up to it. -/
structure LexemeReading where
  lexeme : Lexeme
  fault? : Option Fault
  deriving DecidableEq, Repr

/-- Read the lexemes that stand for something, one after the other, after the given fault.  The
attributes of tags are not looked at. -/
def readLexemesFrom (strict : Bool) (seen : Option Fault) : List Lexeme → List LexemeReading
  | [] => []
  | lexeme :: rest =>
      let fault := if strict then seen <|> lexeme.faults.head? else none
      if lexeme.construct = .dropped then
        readLexemesFrom strict fault rest
      else
        ⟨lexeme, fault⟩ :: readLexemesFrom strict fault rest

/-- The lexemes of a markup text that stand for something, the end of the text included. -/
def readLexemes (strict : Bool) (text : List Char) : List LexemeReading :=
  readLexemesFrom strict none (Lexeme.readAll text)

/-- An event that has been read, with the byte position after it and the first fault so far. -/
structure EventReading where
  event : Event
  position : Nat
  fault? : Option Fault
  deriving DecidableEq, Repr

/-- Read the events of the lexemes one after the other, after the given fault. -/
def readEventsFrom (strict : Bool) (seen : Option Fault) : List Lexeme → List EventReading
  | [] => []
  | lexeme :: rest =>
      let fault := if strict then seen <|> lexeme.allFaults.head? else none
      match lexeme.event? strict with
      | some event => ⟨event, lexeme.stop, fault⟩ :: readEventsFrom strict fault rest
      | none => readEventsFrom strict fault rest

def readEvents (strict : Bool) (text : List Char) : List EventReading :=
  readEventsFrom strict none (Lexeme.readAll text)

/-- The first fault of a whole markup text, which only a strict reader reports. -/
def firstFault? (strict : Bool) (text : List Char) : Option Fault :=
  if strict then ((Lexeme.readAll text).flatMap Lexeme.allFaults).head? else none

/-! ## Events and faults -/

/-- Forgiving readers report no fault. -/
theorem fault?_eq_none_of_forgiving {seen : Option Fault} {lexemes : List Lexeme}
    {reading : EventReading} (read : reading ∈ readEventsFrom false seen lexemes) :
    reading.fault? = none := by
  induction lexemes generalizing seen with
  | nil => simp [readEventsFrom] at read
  | cons lexeme rest inductionHypothesis =>
    simp only [readEventsFrom, Bool.false_eq_true, ↓reduceIte] at read
    split at read
    · rcases List.mem_cons.1 read with first | later
      · rw [first]
      · exact inductionHypothesis later
    · exact inductionHypothesis read

/-- The events are those of the lexemes, in order. -/
theorem map_event_readEventsFrom (strict : Bool) (seen : Option Fault) (lexemes : List Lexeme) :
    (readEventsFrom strict seen lexemes).map EventReading.event =
      lexemes.filterMap (Lexeme.event? strict) := by
  induction lexemes generalizing seen with
  | nil => rfl
  | cons lexeme rest inductionHypothesis =>
    simp only [readEventsFrom, List.filterMap_cons]
    split
    · rename_i event found
      simp [found, inductionHypothesis]
    · rename_i found
      simp [found, inductionHypothesis]

end MarkupTemplate
