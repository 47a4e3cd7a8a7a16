import ExprRegistry.Resolve.Flat

/-!
Dependency trees. A tree shows each dependency under the package that declares it, with the latest
version that its own requirement admits; a dependency that cannot be shown is a leaf with its error.
-/

namespace ExprRegistry

/-- A tree of dependencies. The requirement of the root is null. -/
inductive Tree where
  | node (name : Json) (version : String) (requirement : Json) (children : List Tree)
  | failed (name : Scalar) (requirement : Json) (error : ResolveError)

namespace Tree

mutual

def hasFailure : Tree → Bool
  | node _ _ _ children => anyFailure children
  | failed _ _ _ => true

def anyFailure : List Tree → Bool
  | [] => false
  | t :: rest => hasFailure t || anyFailure rest

end

mutual

def toJson : Tree → Json
  | node name version requirement children =>
    let last : Fields := [("dependencies", .arr (toJsonAll children))]
    .obj (("name", name) :: ("version", .str version) ::
      if requirement = .null then last else ("version_req", requirement) :: last)
  | failed name requirement error =>
    .obj [("name", .scalar name), ("version_req", requirement), ("error", .str error.message),
      ("error_kind", .str error.kindName)]

def toJsonAll : List Tree → List Json
  | [] => []
  | t :: rest => toJson t :: toJsonAll rest

end

/-- A requirement in brackets after a blank; nothing for one that is not given. -/
def requirementText (requirement : Json) : String :=
  if requirement.isGiven then " (" ++ requirement.display ++ ")" else ""

/-- The margin of a line at a level: the indent once for each level. -/
def margin (indent : Json) (level : Nat) : String :=
  match indent.times level with
  | .ok v => v.display
  | .error _ => ""

mutual

/-- The lines of a tree at a level, indented by `indent` for each level. -/
def lines (indent : Json) (level : Nat) : Tree → List String
  | node name version requirement children =>
    (margin indent level ++ name.display ++ " " ++ version ++ requirementText requirement) ::
      linesAll indent (level + 1) children
  | failed name requirement error =>
    [margin indent level ++ name.display ++ requirementText requirement ++ " !! " ++ error.message]

def linesAll (indent : Json) (level : Nat) : List Tree → List String
  | [] => []
  | t :: rest => lines indent level t ++ linesAll indent level rest

end

def render (indent : String) (t : Tree) : String := "\n".intercalate (t.lines (.str indent) 0)

/-- The text of a tree with an indent that is any value which can be taken several times. -/
def renderBy (indent : Json) (t : Tree) : Except Unfit String :=
  (indent.times 1).map fun _ => "\n".intercalate (t.lines indent 0)

end Tree

variable {σ : Type}

abbrev Grown (σ α : Type) := Run σ × Except Failure α

/-- Grows a tree for each dependency in turn, up to the first failure that is no resolution error. -/
def eachBranch (step : Scalar → Json → Run σ → Grown σ Tree) :
    Fields → Run σ → Grown σ (List Tree)
  | [], run => (run, .ok [])
  | (name, requirement) :: rest, run =>
    match step name requirement run with
    | (run, .error failure) => (run, .error failure)
    | (run, .ok tree) =>
      match eachBranch step rest run with
      | (run, .error failure) => (run, .error failure)
      | (run, .ok trees) => (run, .ok (tree :: trees))

/-- Ends a branch: a resolution error becomes a leaf, any other failure ends the whole tree. -/
def endBranch (name : Scalar) (requirement : Json) (run : Run σ) : Failure → Grown σ Tree
  | .resolve error =>
    (run.note [Run.debugRecord
      ("Tree branch " ++ name.display ++ " failed: " ++ error.message) []],
      .ok (.failed name requirement error))
  | failure => (run, .error failure)

/-- Grows the tree of one dependency. The first argument bounds the length of the path. -/
def grow (src : Source σ) : Nat → List Json → Scalar → Json → Run σ → Grown σ Tree
  | 0, _, _, _, run => (run, .error .tooDeep)
  | depth + 1, path, name, requirement, run =>
    if path.any (·.names name) then
      endBranch name requirement run (.ofCycle (path ++ [.scalar name]))
    else
      match Requirement.ofJson requirement with
      | .error m => endBranch name requirement run (.resolve (.malformed m))
      | .ok req =>
        match run.fetch src name with
        | (run, .error e) => (run, .error (.lookup e))
        | (run, .ok none) => endBranch name requirement run (.resolve (.notFound name))
        | (run, .ok (some package)) =>
          let run := run.note (Version.skippedTexts package.versionTexts)
          match Version.latestMeeting? Version.ofText? req package.versions with
          | none => endBranch name requirement run (.resolve (.noMatch name requirement))
          | some version =>
            match eachBranch (grow src depth (path ++ [.scalar name])) package.dependencies run with
            | (run, .error failure) => (run, .error failure)
            | (run, .ok children) => (run, .ok (.node package.name version requirement children))

/-- The dependency tree of a package. Only a missing root and failed lookups end it. -/
def dependencyTree (src : Source σ) (root : Json) (state : σ) : Run σ × Except Failure Tree :=
  match (Run.start state).fetch src root with
  | (run, .error e) => (run, .error (.lookup e))
  | (run, .ok none) => (run, .error (.resolve (.rootNotFound root)))
  | (run, .ok (some package)) =>
    let run := run.note (Version.skippedTexts package.versionTexts)
    match eachBranch (grow src (src.depthBound state) [package.name]) package.dependencies run with
    | (run, .error failure) => (run, .error failure)
    | (run, .ok children) =>
      (run, .ok (.node package.name (Version.latestText package.versions) .null children))

end ExprRegistry
