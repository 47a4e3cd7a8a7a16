import ExprRegistry.Version.Requirement

/-!
Choosing among candidates. A candidate is anything that may write a version; those that write none are
left out. Of several candidates of the highest precedence the first one is chosen.
-/

namespace ExprRegistry.Version

variable {α : Type}

def readable (read : α → Option Version) (candidates : List α) : List (Version × α) :=
  candidates.filterMap fun c => (read c).map fun v => (v, c)

def unreadable (read : α → Option Version) (candidates : List α) : List α :=
  candidates.filter fun c => (read c).isNone

/-- The first candidate of the highest precedence, starting from one that is at hand. -/
def bestFrom (best : Version × α) : List (Version × α) → Version × α
  | [] => best
  | c :: rest => bestFrom (if c.1.precedence best.1 == .gt then c else best) rest

def best? : List (Version × α) → Option α
  | [] => none
  | c :: rest => some (bestFrom c rest).2

def latest? (read : α → Option Version) (candidates : List α) : Option α :=
  best? (readable read candidates)

def latestMeeting? (read : α → Option Version) (req : Requirement) (candidates : List α) : Option α :=
  best? ((readable read candidates).filter fun c => req.admits c.1)

/-- The latest of the written versions, or the sentinel when there is none. -/
def latestText (versions : List String) : String := (latest? ofText? versions).getD sentinel

end ExprRegistry.Version
