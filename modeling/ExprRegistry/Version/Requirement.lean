import ExprRegistry.Version.Grammar

/-!
Requirements on versions: an operator and a version, or a version alone, which is then required as it
is. The compatible operator admits what is not below its version and has the same first number, and the
same second number too unless the version ends in two zeros.
-/

namespace ExprRegistry

/-- The operators of requirements. -/
inductive Operator where
  | compatible
  | atLeast
  | above
  | atMost
  | below
  | exactly
  deriving DecidableEq

namespace Operator

def sign : Operator → String
  | compatible => "~>"
  | atLeast => ">="
  | above => ">"
  | atMost => "<="
  | below => "<"
  | exactly => "=="

def all : List Operator := [compatible, atLeast, above, atMost, below, exactly]

end Operator

/-- A requirement: its text, operator, version, and how many numbers of the version are written. -/
structure Requirement where
  text : String
  operator : Operator
  version : Version
  precision : Nat
  deriving DecidableEq

/-- What keeps a text from being a requirement. -/
inductive RequirementDefect where
  | empty
  | noOperator
  | noVersion
  | badVersion (written : String)
  | defect (d : Version.Defect)
  deriving DecidableEq

def RequirementDefect.message : RequirementDefect → String
  | empty => "empty requirement"
  | noOperator => "missing operator"
  | noVersion => "missing version"
  | badVersion written => "invalid version '" ++ written ++ "'"
  | defect d => d.message

/-- A text that is no requirement. -/
structure Malformed where
  text : Text
  defect : RequirementDefect
  deriving DecidableEq

def Malformed.message (m : Malformed) : String :=
  "Malformed version requirement: " ++ m.text.shown ++ " (" ++ m.defect.message ++ ")"

namespace Requirement

/-- The operator at the front, and what follows it and the blanks after it. -/
def splitOperator? (cs : List Char) : Option (Operator × List Char) :=
  Operator.all.findSome? fun op =>
    (op.sign.toList.isPrefixOf? cs).map fun rest => (op, Text.trimBy Text.isBlank rest)

def beginsWithVersion (cs : List Char) : Bool :=
  (do
    let (_, rest) ← Version.run? Text.isDigit cs
    let (minor, rest) ← Version.marked? '.' Text.isDigit rest
    let _ ← minor
    let (patch, _) ← Version.marked? '.' Text.isDigit rest
    patch).isSome

/-- The requirement with an operator whose version is written by `written`. -/
def ofParts (text : String) (stripped : List Char) (operator : Operator) (written : List Char) :
    Except Malformed Requirement :=
  match written with
  | [] => .error ⟨text, .noVersion⟩
  | _ =>
    match Version.Parts.split? written with
    | none => .error ⟨text, .badVersion (String.ofList written)⟩
    | some parts =>
      match parts.version with
      | .error d => .error ⟨text, .defect d⟩
      | .ok version =>
        .ok ⟨String.ofList stripped, operator, version, if parts.patch.isSome then 3 else 2⟩

def ofText (s : String) : Except Malformed Requirement :=
  let stripped := Text.trimBy Text.isBlank s.toList
  match stripped with
  | [] => .error ⟨s, .empty⟩
  | _ =>
    match splitOperator? stripped with
    | some (op, rest) => ofParts s stripped op rest
    | none =>
      if beginsWithVersion stripped then ofParts s stripped .exactly stripped
      else .error ⟨s, .noOperator⟩

/-- The requirement that a value writes; only whole texts write any. The escapes of halves are in the way of one, and
what is found of a text that is not whole is found with them in it. -/
def ofJson : Json → Except Malformed Requirement
  | .str s => ofText s
  | .text t => (ofText t.escaped).mapError fun m => { m with text := t }
  | v => .error ⟨v.display, .empty⟩

/-- Whether the numbers of a version are in the range that the compatible operator spans. -/
def inRange (required v : Version) : Bool :=
  v.major == required.major &&
    ((required.minor == 0 && required.patch == 0) || v.minor == required.minor)

def admits (req : Requirement) (v : Version) : Bool :=
  let order := v.precedence req.version
  match req.operator with
  | .exactly => decide (v.withoutBuild = req.version.withoutBuild)
  | .above => order == .gt
  | .atLeast => order != .lt
  | .below => order == .lt
  | .atMost => order != .gt
  | .compatible => order != .lt && inRange req.version v

def admitsJson (req : Requirement) (v : Json) : Bool :=
  match Version.ofJson? v with
  | none => false
  | some version => req.admits version

end Requirement

end ExprRegistry
