/-!
# Faults in markup

A fault is a place where markup is not well formed, with the byte position that it is reported at.
Forgiving reading goes on past every fault; strict reading reports one.
-/

namespace MarkupTemplate

inductive AttributeFault where
  | invalidCharacter
  | unterminatedValue
  | duplicate
  deriving DecidableEq, Repr

def AttributeFault.message : AttributeFault → String
  | .invalidCharacter => "Invalid character in attribute name"
  | .unterminatedValue => "Unterminated attribute value"
  | .duplicate => "Duplicate attribute"

/-- What is wrong at some place of a markup text. -/
inductive FaultCause where
  | invalidTagName
  | unterminatedStartTag
  | invalidEndTag
  | unterminatedEndTag
  | unterminatedComment
  | unterminatedDeclaration
  | unclosedRawElement (name : String)
  | invalidAttributes (fault : AttributeFault)
  | mismatchedEndTag (opened closed : String)
  | unexpectedEndTag (name : String)
  | unclosedElement (name : String)
  deriving DecidableEq, Repr

def FaultCause.message : FaultCause → String
  | .invalidTagName => "Invalid tag name"
  | .unterminatedStartTag => "Unterminated start tag"
  | .invalidEndTag => "Invalid end tag"
  | .unterminatedEndTag => "Unterminated end tag"
  | .unterminatedComment => "Unterminated comment"
  | .unterminatedDeclaration => "Unterminated declaration"
  | .unclosedRawElement name => "Unclosed <" ++ name ++ "> element"
  | .invalidAttributes fault => fault.message
  | .mismatchedEndTag opened closed =>
      "Tag mismatch: <" ++ opened ++ "> closed with </" ++ closed ++ ">"
  | .unexpectedEndTag name =>
      "Unexpected end tag: </" ++ name ++ "> without matching start tag"
  | .unclosedElement name => "Unclosed tag: <" ++ name ++ ">"

/-- A fault and the byte position it is reported at. -/
structure Fault where
  position : Nat
  cause : FaultCause
  deriving DecidableEq, Repr

def Fault.message (fault : Fault) : String :=
  fault.cause.message

end MarkupTemplate
