import ExprRegistry.Json.Basic

/-!
Values where they do not fit. Where a value of one kind is needed and another is given, the refusal says
only in which of five ways it does not fit. `entries` reads a value as a list of keyed entries: an object,
or a list of pairs. `times` takes a value several times.
-/

namespace ExprRegistry

/-- How a value does not fit where it is used. -/
inductive Unfit where
  | kind
  /-- The value is of the right kind, but not one that the operation takes. -/
  | value
  | operation
  | range
  /-- A text with halves of characters cannot be encoded. -/
  | encoding
  deriving DecidableEq

namespace Json

/-- The elements that a value runs through: those of a list, the characters of a text, the keys of an
object. -/
def elements : Json → Except Unfit (List Json)
  | .arr items => .ok items
  | .text t => .ok (t.points.map fun p => .text (.ofPoints [p]))
  | .obj fields => .ok (fields.map fun f => .scalar f.1)
  | _ => .error .kind

/-- The elements of a value that is given, none of one that is not. -/
def elementsIfGiven (v : Json) : Except Unfit (List Json) :=
  if v.isGiven then v.elements else .ok []

def entry (v : Json) : Except Unfit (Scalar × Json) :=
  match v.elements with
  | .error e => .error e
  | .ok [.scalar key, value] => .ok (key, value)
  | .ok [_, _] => .error .kind
  | .ok _ => .error .value

/-- Adds entries that are written as pairs, the later ones winning where keys are the same. -/
def addEntries (table : Fields) : List Json → Except Unfit Fields
  | [] => .ok table
  | v :: rest =>
    match v.entry with
    | .error e => .error e
    | .ok (key, value) => addEntries (table.put key value) rest

def entries : Json → Except Unfit Fields
  | .obj fields => .ok fields
  | v =>
    match v.elements with
    | .error e => .error e
    | .ok items => addEntries [] items

/-- The entries of a value that is given, none of one that is not. -/
def entriesIfGiven (v : Json) : Except Unfit Fields :=
  if v.isGiven then v.entries else .ok []

/-- A value several times: a number multiplied, a text or a list repeated. A double is only multiplied by
what is in the range of doubles. -/
def times (v : Json) (n : Nat) : Except Unfit Json :=
  match v with
  | .text t => .ok (.text (t.repeated n))
  | .arr items => .ok (.arr (List.replicate n items).flatten)
  | _ =>
    match v.number? with
    | some (.inl m) => .ok (.int (m * n))
    | some (.inr x) => if (Double.ofInt n).isFinite then .ok (.float (x.times n)) else .error .range
    | none => .error .kind

end Json

end ExprRegistry
