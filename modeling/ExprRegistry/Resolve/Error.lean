import ExprRegistry.Json.Unfit
import ExprRegistry.Version.Requirement

/-!
Why a resolution ends without a result. The five resolution errors are about packages and requirements;
a resolution can also fail because a package could not be looked up.
-/

namespace ExprRegistry

/-- What is wrong with the packages and requirements of a resolution. -/
inductive ResolveError where
  | rootNotFound (name : Json)
  | notFound (name : Scalar)
  | circular (cycle : List Json)
  | conflict (name : Scalar) (existing : String) (requirement : Json)
  | noMatch (name : Scalar) (requirement : Json)
  | malformed (m : Malformed)
  deriving DecidableEq

namespace ResolveError

def kindName : ResolveError → String
  | rootNotFound _ => "package_not_found"
  | notFound _ => "package_not_found"
  | circular _ => "circular_dependency"
  | conflict _ _ _ => "version_conflict"
  | noMatch _ _ => "no_matching_version"
  | malformed _ => "malformed_requirement"

def message : ResolveError → String
  | rootNotFound name => "Package not found: " ++ name.display
  | notFound name => "Dependency not found: " ++ name.display
  | circular cycle => "Circular dependency detected: " ++ " -> ".intercalate (cycle.map Json.display)
  | conflict name existing requirement =>
    "Version conflict for " ++ name.display ++ ": " ++ existing ++ " doesn't match requirement " ++
      requirement.display
  | noMatch name requirement =>
    "No version of " ++ name.display ++ " matches requirement: " ++ requirement.display
  | malformed m => m.message

def toJson (e : ResolveError) : Json :=
  .obj [("kind", .str e.kindName), ("message", .str e.message)]

end ResolveError

/-- Why a package could not be looked up. -/
inductive LookupError where
  | unreachable (base : String)
  | badStatus (status : Int) (name : Json)
  | undecodable (name : Json)
  | badRecord (name : Json)
  | unfit (how : Unfit)
  deriving DecidableEq

/-- A lookup error in words; there are none for a value that does not fit. -/
def LookupError.message : LookupError → String
  | unreachable base => "Package index unreachable at " ++ base
  | badStatus status name =>
    "Package index returned HTTP " ++ toString status ++ " for " ++ name.display
  | undecodable name => "Package index returned an undecodable body for " ++ name.display
  | badRecord name => "Package index returned an unexpected record for " ++ name.display
  | unfit _ => ""

/-- Why a resolution ends without a result. -/
inductive Failure where
  | resolve (e : ResolveError)
  | lookup (e : LookupError)
  | unfit (how : Unfit)
  /-- The chain of dependencies is longer than the source can make it; no source comes here. -/
  | tooDeep
  deriving DecidableEq

/-- The failure at a name that is already on the path. Only a cycle of texts can be told. -/
def Failure.ofCycle (cycle : List Json) : Failure :=
  if cycle.all Json.isText then .resolve (.circular cycle) else .unfit .kind

end ExprRegistry
