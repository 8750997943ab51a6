import MarkupTemplate.Template.Slot
import MarkupTemplate.Value

/-!
# Log records

Operations on templates and slots report what they do.  A report is a record that the operation
returns beside its result, in the order in which things were done.
-/

namespace MarkupTemplate

inductive LogLevel where
  | trace
  | debug
  | warning
  deriving DecidableEq, Repr

inductive LogRecord where
  /-- A slot is about to be bound to a value. -/
  | applyingUpdate (slot : SlotKind) (value : Value)
  /-- An attribute was bound to a node, and is taken away instead. -/
  | removingAttribute (name : String)
  /-- A template was compiled: the numbers of its fragments, slots and nodes. -/
  | compiledTemplate (fragments slots nodes : Nat)
  /-- A source is not in the cache, which has so many entries. -/
  | cacheMiss (fragments cached : Nat)
  /-- So many sources were listed, of which so many had to be compiled. -/
  | cacheWarmUp (sources compiled : Nat)
  deriving DecidableEq, Repr

namespace LogRecord

def level : LogRecord → LogLevel
  | .applyingUpdate _ _ => .trace
  | .removingAttribute _ => .warning
  | .compiledTemplate _ _ _ => .debug
  | .cacheMiss _ _ => .debug
  | .cacheWarmUp _ _ => .debug

def message : LogRecord → String
  | .applyingUpdate _ _ => "applying update"
  | .removingAttribute name =>
      "attribute " ++ Text.quoted name ++
        " only accepts text or absent values; removing attribute"
  | .compiledTemplate _ _ _ => "compiled template"
  | .cacheMiss _ _ => "template cache miss"
  | .cacheWarmUp _ _ => "template cache warm-up"

end LogRecord

end MarkupTemplate
