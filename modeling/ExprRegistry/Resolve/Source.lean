import ExprRegistry.Log.Record
import ExprRegistry.Package.Basic
import ExprRegistry.Resolve.Error
import ExprRegistry.Version.Log

/-!
Where packages come from, and the state of a run against such a source. A source answers a lookup from
a state of its own, so a table of packages and a remote index are both sources. A run keeps the names it
looked up, its log, and the versions it has pinned.
-/

namespace ExprRegistry

/-- The answer to a lookup: the later state of the source, what was logged, and the package if there is
one. -/
structure Found (σ : Type) where
  state : σ
  log : List Record
  answer : Except LookupError (Option Package)

/-- A source of packages with states of type `σ`. -/
structure Source (σ : Type) where
  find : Json → σ → Found σ
  /-- A bound on the number of packages that can be found one after the other. -/
  bound : σ → Nat

/-- The state of a run. -/
structure Run (σ : Type) where
  source : σ
  lookups : List Json
  log : List Record
  pins : Table Scalar String

namespace Run

variable {σ : Type}

def start (state : σ) : Run σ := ⟨state, [], [], []⟩

def note (run : Run σ) (records : List Record) : Run σ := { run with log := run.log ++ records }

def pin (run : Run σ) (name : Scalar) (version : String) : Run σ :=
  { run with pins := run.pins.put name version }

def fetch (src : Source σ) (name : Json) (run : Run σ) :
    Run σ × Except LookupError (Option Package) :=
  let found := src.find name run.source
  ({ run with
      source := found.state
      lookups := run.lookups ++ [name]
      log := run.log ++ found.log },
    found.answer)

def debugRecord (message : String) (context : Fields) : Record :=
  ⟨.debug, "resolver.resolver", message, Record.fields context⟩

end Run

/-- The source that answers from a table of packages, which never changes. -/
def Source.ofTable : Source (Table Scalar Package) where
  find name packages :=
    match name with
    | .scalar k => ⟨packages, [], .ok (packages.get? k)⟩
    | _ => ⟨packages, [], .error (.unfit .kind)⟩
  bound packages := packages.length

end ExprRegistry
