import ExprRegistry.Json.Display
import ExprRegistry.Text.Blank
import ExprRegistry.Version.Basic

/-!
Versions as text: two or three runs of digits with points between them, an optional prerelease after a
minus and optional build metadata after a plus. `Parts.split?` takes a text apart, and the readers
decide which parts make a version: a released version has three numbers without leading zeros.
-/

namespace ExprRegistry.Version

/-- The parts of a version as they are written. -/
structure Parts where
  major : List Char
  minor : List Char
  patch : Option (List Char)
  prerelease : Option (List Char)
  build : Option (List Char)
  deriving DecidableEq

def isIdentifierChar (c : Char) : Bool :=
  Text.isAsciiDigit c || Text.isAsciiLetter c || c == '-' || c == '.'

/-- A non-empty run of characters at the front, and what follows it. -/
def run? (p : Char → Bool) (cs : List Char) : Option (List Char × List Char) :=
  match cs.takeWhile p with
  | [] => none
  | run => some (run, cs.dropWhile p)

/-- What a mark introduces: nothing when the mark is not there; the mark alone is refused. -/
def marked? (mark : Char) (p : Char → Bool) (cs : List Char) :
    Option (Option (List Char) × List Char) :=
  match cs with
  | [] => some (none, [])
  | c :: rest =>
    if c == mark then (run? p rest).map fun (run, rest) => (some run, rest) else some (none, cs)

def Parts.split? (cs : List Char) : Option Parts := do
  let (major, rest) ← run? Text.isDigit cs
  let (minor, rest) ← marked? '.' Text.isDigit rest
  let minor ← minor
  let (patch, rest) ← marked? '.' Text.isDigit rest
  let (prerelease, rest) ← marked? '-' isIdentifierChar rest
  let (build, rest) ← marked? '+' isIdentifierChar rest
  if rest.isEmpty then some ⟨major, minor, patch, prerelease, build⟩ else none

def identifiers : Option (List Char) → List String
  | none => []
  | some cs => (Text.pieces '.' cs).map String.ofList

/-- What makes written parts no version. -/
inductive Defect where
  | tooLong (digits : Nat)
  | emptyIdentifier (written : String)
  | leadingZero (identifier : String)
  deriving DecidableEq

def Defect.message : Defect → String
  | tooLong digits =>
    "Exceeds the limit (" ++ toString Text.maxDigits ++
      " digits) for integer string conversion: value has " ++ toString digits ++
      " digits; use sys.set_int_max_str_digits() to increase the limit"
  | emptyIdentifier written => "Invalid empty identifier '' in " ++ Text.quoted written
  | leadingZero identifier => "Invalid leading zero in identifier " ++ Text.quoted identifier

def number (digits : List Char) : Except Defect Nat :=
  if Text.maxDigits < digits.length then .error (.tooLong digits.length)
  else .ok (Text.numberOf digits)

def hasLeadingZero (digits : List Char) : Bool :=
  match digits with
  | '0' :: _ :: _ => true
  | _ => false

/-- Checks the identifiers of a list, of which `all` is the whole. -/
def checkIdentifiers (zerosAllowed : Bool) (all : List String) : List String → Except Defect Unit
  | [] => .ok ()
  | identifier :: rest =>
    if identifier.isEmpty then .error (.emptyIdentifier (".".intercalate all))
    else if !zerosAllowed && isNumeric identifier && hasLeadingZero identifier.toList then
      .error (.leadingZero identifier)
    else checkIdentifiers zerosAllowed all rest

/-- Checks the lengths of numeric identifiers, which are compared as numbers. -/
def checkLengths : List String → Except Defect Unit
  | [] => .ok ()
  | identifier :: rest =>
    if isNumeric identifier && decide (Text.maxDigits < identifier.toList.length) then
      .error (.tooLong identifier.toList.length)
    else checkLengths rest

/-- The version of written parts; a patch that is not written is zero. -/
def Parts.version (parts : Parts) : Except Defect Version :=
  match number parts.major with
  | .error d => .error d
  | .ok major =>
    match number parts.minor with
    | .error d => .error d
    | .ok minor =>
      match number (parts.patch.getD ['0']) with
      | .error d => .error d
      | .ok patch =>
        let prerelease := identifiers parts.prerelease
        let build := identifiers parts.build
        match checkIdentifiers false prerelease prerelease with
        | .error d => .error d
        | .ok () =>
          match checkIdentifiers true build build with
          | .error d => .error d
          | .ok () =>
            match checkLengths (prerelease ++ build) with
            | .error d => .error d
            | .ok () => .ok ⟨major, minor, patch, prerelease, build⟩

/-- The released version that a text writes, blanks around it aside. -/
def ofText? (s : String) : Option Version :=
  match Parts.split? (Text.trimBy Text.isBlank s.toList) with
  | none => none
  | some parts =>
    match parts.patch with
    | none => none
    | some patch =>
      if hasLeadingZero parts.major || hasLeadingZero parts.minor || hasLeadingZero patch then none
      else parts.version.toOption

def ofJson? (v : Json) : Option Version := v.asText.string?.bind ofText?

def sentinel : String := "0.0.0"

end ExprRegistry.Version
