import MarkupTemplate.Text.Ascii
import MarkupTemplate.Text.Printable

/-!
# Quoted text

Messages show a text between quotation marks.  A quotation mark or a backslash inside is written
after a backslash, a few controls have a letter of their own, and any other character that does
not print is written as its code point in hexadecimal between braces.
-/

namespace MarkupTemplate.Text

/-- The digits of a number in lower-case hexadecimal, without leading zeros. -/
def hexadecimal (number : Nat) : List Char :=
  Nat.toDigits 16 number

/-- A character as it is written between quotation marks. -/
def quotedCharacter (character : Char) : List Char :=
  if character = '\x00' then ['\\', '0']
  else if character = '\t' then ['\\', 't']
  else if character = '\r' then ['\\', 'r']
  else if character = '\n' then ['\\', 'n']
  else if character = '\\' || character = quotationMark then ['\\', character]
  else if isPrintable character then [character]
  else ['\\', 'u', '\x7b'] ++ hexadecimal character.toNat ++ ['\x7d']

def quoted (text : String) : String :=
  String.ofList (quotationMark :: text.toList.flatMap quotedCharacter ++ [quotationMark])

end MarkupTemplate.Text
