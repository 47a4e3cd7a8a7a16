import ExprRegistry.Resolve.Source

/-!
Flat resolution: one version for each package. The walk goes depth first in the order of declaration.
A package is pinned when it is met for the first time, and every later requirement on it must admit the
pin; nothing is taken back. A package that is met again on its own path closes a cycle.
-/

namespace ExprRegistry

/-- The end of a part of a run: its state, and a failure if it failed. -/
abbrev Walked (σ : Type) := Run σ × Option Failure

variable {σ : Type}

def eachDependency (step : Scalar → Json → Run σ → Walked σ) : Fields → Run σ → Walked σ
  | [], run => (run, none)
  | (name, requirement) :: rest, run =>
    match step name requirement run with
    | (run, none) => eachDependency step rest run
    | (run, some failure) => (run, some failure)

def pinned (name : Scalar) (version : String) (requirement : Json) : Record :=
  Run.debugRecord
    ("Pinned " ++ name.display ++ " " ++ version ++ " for " ++ requirement.display) []

/-- Settles one dependency: checks the pin, or pins it and settles its own dependencies. The first
argument bounds the length of the path. -/
def settle (src : Source σ) : Nat → List Json → Scalar → Json → Run σ → Walked σ
  | 0, _, _, _, run => (run, some .tooDeep)
  | depth + 1, path, name, requirement, run =>
    if path.any (·.names name) then (run, some (.ofCycle (path ++ [.scalar name])))
    else
      match Requirement.ofJson requirement with
      | .error m => (run, some (.resolve (.malformed m)))
      | .ok req =>
        match run.pins.get? name with
        | some version =>
          if req.admitsJson (.str version) then (run, none)
          else (run, some (.resolve (.conflict name version requirement)))
        | none =>
          match run.fetch src name with
          | (run, .error e) => (run, some (.lookup e))
          | (run, .ok none) => (run, some (.resolve (.notFound name)))
          | (run, .ok (some package)) =>
            let run := run.note (Version.skippedTexts package.versionTexts)
            match Version.latestMeeting? Version.ofText? req package.versions with
            | none => (run, some (.resolve (.noMatch name requirement)))
            | some version =>
              eachDependency (settle src depth (path ++ [.scalar name])) package.dependencies
                ((run.note [pinned name version requirement]).pin name version)

def resolved (root : Json) (count : Nat) : Record :=
  Run.debugRecord "Resolved dependencies"
    [("event", .str "resolve"), ("component", .str "resolver"), ("outcome", .str "success"),
     ("target", root), ("count", .int count)]

def Source.depthBound (src : Source σ) (state : σ) : Nat := src.bound state + 2

/-- Resolves a package with everything it depends on. The package itself is pinned to its latest
version. -/
def resolve (src : Source σ) (root : Json) (state : σ) : Run σ × Except Failure (Table Scalar String) :=
  match (Run.start state).fetch src root with
  | (run, .error e) => (run, .error (.lookup e))
  | (run, .ok none) => (run, .error (.resolve (.rootNotFound root)))
  | (run, .ok (some package)) =>
    let run := run.note (Version.skippedTexts package.versionTexts)
    match package.name.scalar? with
    | none => (run, .error (.unfit .kind))
    | some name =>
      match eachDependency (settle src (src.depthBound state) [package.name]) package.dependencies
          (run.pin name (Version.latestText package.versions)) with
      | (run, some failure) => (run, .error failure)
      | (run, none) => (run.note [resolved root run.pins.length], .ok run.pins)

def resolveRequirements (src : Source σ) (requirements : Fields) (state : σ) :
    Run σ × Except Failure (Table Scalar String) :=
  match eachDependency (settle src (src.depthBound state) []) requirements (Run.start state) with
  | (run, some failure) => (run, .error failure)
  | (run, none) => (run, .ok run.pins)

end ExprRegistry
