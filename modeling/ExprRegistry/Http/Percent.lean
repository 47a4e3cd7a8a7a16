import ExprRegistry.Text.DecimalDigit

/-!
Names as segments of a URL. Letters, digits and four marks of ASCII stand for themselves; every other
character is written as the bytes of its UTF-8 form, each a percent sign and two digits.
-/

namespace ExprRegistry.Http

def isUnreserved (c : Char) : Bool :=
  Text.isAsciiLetter c || Text.isAsciiDigit c || c == '_' || c == '.' || c == '-' || c == '~'

/-- A byte as a percent sign and two upper-case hexadecimal digits. -/
def percentByte (b : UInt8) : List Char := '%' :: (Text.hex 2 b.toNat).map Text.upperAscii

def percentChar (c : Char) : List Char :=
  if isUnreserved c then [c] else (String.utf8EncodeChar c).flatMap percentByte

def percentEncode (name : String) : String := String.ofList (name.toList.flatMap percentChar)

end ExprRegistry.Http
