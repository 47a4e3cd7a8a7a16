import ExprRegistry.Text.DecimalDigit

/-!
Names inside expressions. A parameter is a letter or underscore followed by letters, digits and
underscores, all of ASCII; a reference may end in one question mark.
-/

namespace ExprRegistry

def isNameStart (c : Char) : Bool := Text.isAsciiLetter c || c == '_'

def isNameChar (c : Char) : Bool := isNameStart c || Text.isAsciiDigit c

def isReferenceTail : List Char → Bool
  | [] => true
  | ['?'] => true
  | c :: rest => isNameChar c && isReferenceTail rest

def isParameterName (s : String) : Bool :=
  match s.toList with
  | [] => false
  | c :: rest => isNameStart c && rest.all isNameChar

def isReferenceName (s : String) : Bool :=
  match s.toList with
  | [] => false
  | c :: rest => isNameStart c && isReferenceTail rest

end ExprRegistry
