import ExprRegistry.Json.Display
import ExprRegistry.Json.Order

/-!
The format of index documents: an object with a list of packages, each of them an object with a name.
A document that breaks the format is refused for its first fault, in the order of the packages and, in
one package, of the names of its fields. A dependency whose name is null has the place of all the
dependencies. Where the other names of faulty dependencies have no order, there is no first fault either.
-/

namespace ExprRegistry

/-- A complaint about one value of an index document. -/
inductive FormatComplaint where
  | notOfType (value : Json) (types : List String)
  | absent (field : String)
  | empty (value : Json)
  | noVersion (value : Json)

def FormatComplaint.message : FormatComplaint → String
  | notOfType value types =>
    value.shown ++ " is not of type " ++ ", ".intercalate (types.map Text.quoted)
  | absent field => Text.quoted field ++ " is a required property"
  | empty value => value.shown ++ " should be non-empty"
  | noVersion value => value.shown ++ " is not valid under any of the given schemas"

/-- A fault of an index document: the keys and indices that lead to it, and the complaint. -/
structure FormatFault where
  path : List String
  complaint : FormatComplaint

def FormatFault.message (f : FormatFault) : String :=
  "Invalid index at '" ++ "/".intercalate f.path ++ "': " ++ f.complaint.message

namespace Json

def nameFault? : Json → Option FormatComplaint
  | .str "" => some (.empty (.str ""))
  | .text _ => none
  | v => some (.notOfType v ["string"])

def captionFault? : Json → Option FormatComplaint
  | .text _ => none
  | .null => none
  | v => some (.notOfType v ["string", "null"])

def requirementFault? : Json → Option FormatComplaint
  | .text _ => none
  | v => some (.notOfType v ["string"])

def versionFault? : Json → Option FormatComplaint
  | .text _ => none
  | .obj fields =>
    match Json.field? fields "version" with
    | some (.text _) => none
    | _ => some (.noVersion (.obj fields))
  | v => some (.noVersion v)

/-- The step to the value under a key; there is no step to the one under null. -/
def stepTo : Scalar → List String
  | .null => []
  | key => [key.display]

/-- The first fault of dependencies: the one under null, or else the first by the order of the names. -/
def dependenciesFault? : Json → Except Unfit (Option FormatFault)
  | .obj fields =>
    let faults := fields.filterMap fun (name, requirement) =>
      requirement.requirementFault?.map fun c => (name, c)
    let (unnamed, named) := faults.partition fun (name, _) => decide (name = .null)
    (Scalar.sortBy Prod.fst named).map fun sorted =>
      (unnamed ++ sorted).head?.map fun (name, c) => ⟨"dependencies" :: stepTo name, c⟩
  | v => .ok (some ⟨["dependencies"], .notOfType v ["object"]⟩)

def versionsFault? : Json → Option FormatFault
  | .arr items =>
    items.zipIdx.findSome? fun (v, i) => v.versionFault?.map fun c => ⟨["versions", toString i], c⟩
  | v => some ⟨["versions"], .notOfType v ["array"]⟩

def fieldFault? (fields : Fields) (key : String) (fault? : Json → Option FormatComplaint) :
    Option FormatFault :=
  (field? fields key).bind fun v => (fault? v).map fun c => ⟨[key], c⟩

def packageFault? : Json → Except Unfit (Option FormatFault)
  | .obj fields =>
    let dependencies := match field? fields "dependencies" with
      | some v => v.dependenciesFault?
      | none => .ok none
    dependencies.map fun first =>
      if !hasField fields "name" then some ⟨[], .absent "name"⟩
      else
        first <|>
        fieldFault? fields "description" captionFault? <|>
        fieldFault? fields "name" nameFault? <|>
        fieldFault? fields "title" captionFault? <|>
        ((field? fields "versions").bind versionsFault?)
  | v => .ok (some ⟨[], .notOfType v ["object"]⟩)

/-- The first fault of packages, the first of which has the given index. All packages are looked at. -/
def packagesFault? (index : Nat) : List Json → Except Unfit (Option FormatFault)
  | [] => .ok none
  | p :: rest =>
    match p.packageFault? with
    | .error how => .error how
    | .ok first =>
      (packagesFault? (index + 1) rest).map fun later =>
        (first.map fun f => { f with path := "packages" :: toString index :: f.path }) <|> later

def indexFault? : Json → Except Unfit (Option FormatFault)
  | .obj fields =>
    match field? fields "packages" with
    | none => .ok (some ⟨[], .absent "packages"⟩)
    | some (.arr packages) => packagesFault? 0 packages
    | some v => .ok (some ⟨["packages"], .notOfType v ["array"]⟩)
  | v => .ok (some ⟨[], .notOfType v ["object"]⟩)

def indexEntries : Json → List Json
  | .obj fields =>
    match Json.field? fields "packages" with
    | some (.arr packages) => packages
    | _ => []
  | _ => []

end Json

end ExprRegistry
