import ExprRegistry.Text.DecimalDigit

/-!
Versions and their precedence. Precedence looks at the three numbers, then at the prerelease: a version
without one comes after every version with one, numeric identifiers compare by number and come before
words, words compare by code point, and of two lists the shorter one comes first where they agree. Build
metadata has no say.
-/

namespace ExprRegistry

/-- A version: three numbers, prerelease identifiers and build identifiers. -/
structure Version where
  major : Nat
  minor : Nat
  patch : Nat
  prerelease : List String
  build : List String
  deriving DecidableEq, Inhabited

namespace Version

/-- Whether an identifier is a number: digits only, at least one. -/
def isNumeric (identifier : String) : Bool :=
  !identifier.isEmpty && identifier.toList.all Text.isAsciiDigit

def compareIdentifiers (a b : String) : Ordering :=
  match isNumeric a, isNumeric b with
  | true, true => compare (Text.numberOf a.toList) (Text.numberOf b.toList)
  | true, false => .lt
  | false, true => .gt
  | false, false => compare a b

/-- The order of two lists of identifiers, by their first difference. -/
def compareLists : List String → List String → Ordering
  | [], [] => .eq
  | [], _ :: _ => .lt
  | _ :: _, [] => .gt
  | a :: as, b :: bs => (compareIdentifiers a b).then (compareLists as bs)

/-- The order of two prereleases; none comes last. -/
def comparePrereleases : List String → List String → Ordering
  | [], [] => .eq
  | [], _ :: _ => .gt
  | _ :: _, [] => .lt
  | as, bs => compareLists as bs

def precedence (a b : Version) : Ordering :=
  (compare a.major b.major).then <| (compare a.minor b.minor).then <|
    (compare a.patch b.patch).then (comparePrereleases a.prerelease b.prerelease)

def withoutBuild (v : Version) : Version := { v with build := [] }

def text (v : Version) : String :=
  let numbers := ".".intercalate [toString v.major, toString v.minor, toString v.patch]
  let prerelease := if v.prerelease.isEmpty then "" else "-" ++ ".".intercalate v.prerelease
  let build := if v.build.isEmpty then "" else "+" ++ ".".intercalate v.build
  numbers ++ prerelease ++ build

end Version

end ExprRegistry
