import MarkupTemplate.Document.Basic

/-!
# Values of slots

A slot is bound to a text, to a node of the document, or to one of three values that all leave it
empty.
-/

namespace MarkupTemplate

inductive Value where
  /-- A text, which is never read as markup. -/
  | text (data : String)
  /-- A node of the document; of a fragment the children are taken. -/
  | node (id : NodeId)
  | null
  | undefined
  | false
  deriving DecidableEq, Repr

/-- The values that leave a slot empty. -/
def Value.isAbsent : Value → Bool
  | .null => true
  | .undefined => true
  | .false => true
  | _ => Bool.false

end MarkupTemplate
