import MarkupTemplate.Text.Scan

/-!
# A cursor over bytes

The signs of markup are ASCII, so the scans that find them in a text also find them in bytes that
need not be the encoding of any text.  A byte is read as the character of the same number; every
byte past ASCII is then a character outside ASCII, which is all that the scans ask of it.

A cursor is a position in a row of bytes, never past its end.
-/

namespace MarkupTemplate

open MarkupTemplate.Text

def characterOfByte (byte : UInt8) : Char :=
  Char.ofNat byte.toNat

structure ByteCursor where
  bytes : List UInt8
  position : Nat := 0
  deriving DecidableEq, Repr

namespace ByteCursor

/-! ## Moving -/

/-- Move to a position, or to the end if the position lies past it. -/
def moveTo (cursor : ByteCursor) (position : Nat) : ByteCursor :=
  { cursor with position := min position cursor.bytes.length }

/-- Move on by a number of bytes, at most to the end. -/
def advance (cursor : ByteCursor) (count : Nat) : ByteCursor :=
  cursor.moveTo (cursor.position + count)

theorem position_moveTo_le (cursor : ByteCursor) (position : Nat) :
    (cursor.moveTo position).position ≤ cursor.bytes.length := by
  simp only [moveTo]
  omega

theorem position_moveTo (cursor : ByteCursor) {position : Nat}
    (within : position ≤ cursor.bytes.length) : (cursor.moveTo position).position = position :=
  Nat.min_eq_left within

/-! ## Looking -/

def remaining (cursor : ByteCursor) : List Char :=
  (cursor.bytes.drop cursor.position).map characterOfByte

def isAtEnd (cursor : ByteCursor) : Bool :=
  cursor.bytes.length ≤ cursor.position

def peek? (cursor : ByteCursor) (ahead : Nat) : Option UInt8 :=
  cursor.bytes[cursor.position + ahead]?

/-- The bytes between two positions, if they are in order and not past the end. -/
def slice? (cursor : ByteCursor) (first last : Nat) : Option (List UInt8) :=
  if first ≤ last ∧ last ≤ cursor.bytes.length then
    some ((cursor.bytes.take last).drop first)
  else
    none

def startsWith (cursor : ByteCursor) (lead : List UInt8) : Bool :=
  lead.isPrefixOf (cursor.bytes.drop cursor.position)

/-! ## Finding -/

/-- The position after the text that a scan passed over. -/
def positionAfter (cursor : ByteCursor) (cut : Option (List Char × List Char)) : Option Nat :=
  cut.map fun (before, _) => cursor.position + before.length

def findTagStart? (cursor : ByteCursor) : Option Nat :=
  cursor.positionAfter (splitFirst? ['<'].isPrefixOf cursor.remaining)

def opensMarkupAt (cursor : ByteCursor) (position : Nat) : Bool :=
  opensMarkup ((cursor.bytes.drop (position + 1)).map characterOfByte)

def findTagEnd? (cursor : ByteCursor) : Option Nat :=
  cursor.positionAfter (splitTagEnd? cursor.remaining)

def find? (cursor : ByteCursor) (bytes : List UInt8) : Option Nat :=
  cursor.positionAfter
    (splitFirst? (bytes.map characterOfByte).isPrefixOf cursor.remaining)

def findClosingTag? (cursor : ByteCursor) (name : List UInt8) : Option Nat :=
  cursor.positionAfter (splitClosingTag? (name.map characterOfByte) cursor.remaining)

/-- Read the name at the position, if there is one, and move past it. -/
def readName (cursor : ByteCursor) : Option (List UInt8) × ByteCursor :=
  match splitName? cursor.remaining with
  | some (name, _) =>
      let stop := cursor.position + name.length
      (cursor.slice? cursor.position stop, cursor.moveTo stop)
  | none => (none, cursor)

end ByteCursor

end MarkupTemplate
