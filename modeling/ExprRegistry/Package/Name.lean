import ExprRegistry.Json.Basic
import ExprRegistry.Text.DecimalDigit

/-!
Names of packages: two to a hundred characters, a lower-case letter followed by lower-case letters,
digits and underscores.
-/

namespace ExprRegistry

def isLowerLetter (c : Char) : Bool := 'a' ≤ c && c ≤ 'z'

def isPackageNameChar (c : Char) : Bool := isLowerLetter c || Text.isAsciiDigit c || c == '_'

/-- The lengths of package names. -/
def packageNameMin : Nat := 2

@[inherit_doc packageNameMin]
def packageNameMax : Nat := 100

def isPackageNameText (s : String) : Bool :=
  match s.toList with
  | [] => false
  | c :: rest =>
    isLowerLetter c && rest.all isPackageNameChar && packageNameMin ≤ s.length &&
      s.length ≤ packageNameMax

def isPackageName : Json → Bool
  | .str s => isPackageNameText s
  | _ => false

end ExprRegistry
