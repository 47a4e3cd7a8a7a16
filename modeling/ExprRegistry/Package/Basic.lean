import ExprRegistry.Json.Display
import ExprRegistry.Json.Unfit

/-!
Packages and their releases. A record of a package is an object with a name; dependencies and versions
may be absent. A version is an object with a version text or anything else, which then is the version.
-/

namespace ExprRegistry

/-- A published version. Expression data and checksum are null when there are none. -/
structure Release where
  version : Text
  data : Json
  checksum : Json
  deriving DecidableEq

/-- A package. Dependencies are requirements by name, in the order of their declaration, and releases
stand in the order of their publication. -/
structure Package where
  name : Json
  dependencies : Fields
  releases : List Release
  title : Json
  description : Json
  deriving DecidableEq

/-- Why a value is no record of a package. -/
inductive RecordDefect where
  | noName
  | unfit (how : Unfit)
  deriving DecidableEq

namespace Release

def ofJson : Json → Release
  | .obj fields =>
    ⟨(Json.fieldOrNull fields "version").asText, Json.fieldOrNull fields "expression_data",
      Json.fieldOrNull fields "checksum"⟩
  | v => ⟨v.asText, .null, .null⟩

def toJson (r : Release) : Json :=
  .obj [("version", .text r.version), ("expression_data", r.data), ("checksum", r.checksum)]

end Release

namespace Package

def versionTexts (p : Package) : List Text := p.releases.map (·.version)

/-- The versions that can be chosen. A text that is not whole writes none. -/
def versions (p : Package) : List String := p.versionTexts.filterMap Text.string?

def release? (p : Package) (version : Json) : Option Release :=
  p.releases.find? fun r => decide (Json.text r.version = version)

def ofFields (fields : Fields) : Except RecordDefect Package :=
  match (Json.fieldOrNull fields "versions").elementsIfGiven with
  | .error how => .error (.unfit how)
  | .ok versions =>
    match Json.field? fields "name" with
    | none => .error .noName
    | some name =>
      match (Json.fieldOrNull fields "dependencies").entriesIfGiven with
      | .error how => .error (.unfit how)
      | .ok dependencies =>
        .ok ⟨name, dependencies, versions.map Release.ofJson, Json.fieldOrNull fields "title",
          Json.fieldOrNull fields "description"⟩

def ofJson : Json → Except RecordDefect Package
  | .obj fields => ofFields fields
  | _ => .error (.unfit .operation)

def toJson (p : Package) : Json :=
  .obj [("name", p.name), ("title", p.title), ("description", p.description),
    ("dependencies", .obj p.dependencies),
    ("versions", .arr (p.releases.map Release.toJson))]

end Package

end ExprRegistry
