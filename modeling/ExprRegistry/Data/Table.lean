/-!
Keyed lists. A table keeps its entries in the order in which their keys were first put; putting a key
again changes the value where it stands. Which keys are the same is for the key type to say, and the
spelling of a key that was put first stays. The functions take any list of pairs, and every list that
they build from a table with distinct keys has distinct keys.
-/

namespace ExprRegistry

abbrev Table (κ ν : Type) := List (κ × ν)

namespace Table

variable {κ ν : Type} [BEq κ]

def keys (t : Table κ ν) : List κ := t.map (·.1)

def values (t : Table κ ν) : List ν := t.map (·.2)

def get? (k : κ) : Table κ ν → Option ν
  | [] => none
  | (k', v) :: rest => if k' == k then some v else get? k rest

def has (k : κ) (t : Table κ ν) : Bool := (t.get? k).isSome

/-- Sets the value of a key where it stands, or adds it at the end. -/
def put (k : κ) (v : ν) : Table κ ν → Table κ ν
  | [] => [(k, v)]
  | (k', v') :: rest => if k' == k then (k', v) :: rest else (k', v') :: put k v rest

def modify (k : κ) (f : ν → ν) (t : Table κ ν) : Table κ ν :=
  t.map fun (k', v) => if k' == k then (k', f v) else (k', v)

def erase (k : κ) (t : Table κ ν) : Table κ ν := t.filter fun (k', _) => !(k' == k)

/-- The table of a list of entries, later values winning and earlier places kept. -/
def ofEntries (entries : List (κ × ν)) : Table κ ν := entries.foldl (fun t (k, v) => t.put k v) []

end Table

end ExprRegistry
