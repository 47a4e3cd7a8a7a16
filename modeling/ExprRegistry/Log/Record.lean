import ExprRegistry.Json.Basic

/-!
Log records. Every operation that logs returns its records beside its answer; what is shown of them is a
question of the level asked for.
-/

namespace ExprRegistry

/-- How much a record matters. -/
inductive Level where
  | debug
  | info
  | warning
  | error
  | critical
  deriving DecidableEq

namespace Level

def name : Level → String
  | debug => "DEBUG"
  | info => "INFO"
  | warning => "WARNING"
  | error => "ERROR"
  | critical => "CRITICAL"

def rank : Level → Nat
  | debug => 0
  | info => 1
  | warning => 2
  | error => 3
  | critical => 4

def all : List Level := [debug, info, warning, error, critical]

def ofName? (name : String) : Option Level := all.find? fun level => level.name == name

end Level

/-- A log record: its level, the part of the program that wrote it, its message and its fields. -/
structure Record where
  level : Level
  logger : String
  message : String
  context : Fields
  deriving DecidableEq

namespace Record

def reaches (threshold : Level) (r : Record) : Bool := threshold.rank ≤ r.level.rank

def fields (context : Fields) : Fields :=
  context.filter fun (_, v) => decide (v ≠ .null)

end Record

end ExprRegistry
