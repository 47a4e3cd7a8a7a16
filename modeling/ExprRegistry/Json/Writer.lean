import ExprRegistry.Decimal.Notation
import ExprRegistry.Json.Order
import ExprRegistry.Text.DecimalDigit

/-!
Documents as text. A `Layout` fixes the separators, the indentation and whether characters beyond ASCII
are escaped, as halves of characters always are; the order of keys is that of the value, so `sortKeys` comes
before writing where the order must not matter.
-/

namespace ExprRegistry.Json

/-- How a document is laid out. -/
structure Layout where
  betweenItems : List Char
  afterKey : List Char
  /-- Spaces per level; items share a line when absent. -/
  indent : Option Nat
  asciiOnly : Bool

namespace Layout

def spaced : Layout := ⟨[',', ' '], [':', ' '], none, true⟩

def compact : Layout := ⟨[','], [':'], none, true⟩

def indented : Layout := ⟨[','], [':', ' '], some 2, true⟩

def indentedPlain : Layout := { indented with asciiOnly := false }

/-- One line without spaces, characters as they are: the form that checksums are taken of. -/
def canonical : Layout := { compact with asciiOnly := false }

def lineBreak (layout : Layout) (level : Nat) : List Char :=
  match layout.indent with
  | none => []
  | some width => '\n' :: List.replicate (width * level) ' '

end Layout

/-- The escape of a code point beyond the printable ones of ASCII, as one or two units of sixteen bits. -/
def unitEscape (n : Nat) : List Char :=
  if n < 0x10000 then '\\' :: 'u' :: Text.hex 4 n
  else
    let m := n - 0x10000
    ('\\' :: 'u' :: Text.hex 4 (0xD800 + m / 0x400)) ++
      ('\\' :: 'u' :: Text.hex 4 (0xDC00 + m % 0x400))

def writeChar (asciiOnly : Bool) (c : Char) : List Char :=
  if c == '"' then ['\\', '"']
  else if c == '\\' then ['\\', '\\']
  else if c == '\n' then ['\\', 'n']
  else if c == '\r' then ['\\', 'r']
  else if c == '\t' then ['\\', 't']
  else if c.toNat == 8 then ['\\', 'b']
  else if c.toNat == 12 then ['\\', 'f']
  else if c.toNat < 0x20 then '\\' :: 'u' :: Text.hex 4 c.toNat
  else if asciiOnly && 0x7E < c.toNat then unitEscape c.toNat
  else [c]

def writePoint (asciiOnly : Bool) : Text.Point → List Char
  | .inl c => writeChar asciiOnly c
  | .inr h => Text.halfEscape h

def writeText (asciiOnly : Bool) (t : Text) : List Char :=
  '"' :: t.points.flatMap (writePoint asciiOnly) ++ ['"']

/-- The word or the number that a scalar is written as, if it is no text. -/
def spelling : Scalar → String
  | .null => "null"
  | .bool true => "true"
  | .bool false => "false"
  | .int n => toString n
  | .float x => Decimal.text .document x
  | .str _ => ""

/-- The name of a scalar as a key: keys are texts in a document. -/
def keyName : Scalar → Text
  | .str t => t
  | k => spelling k

def writeScalar (asciiOnly : Bool) : Scalar → List Char
  | .str t => writeText asciiOnly t
  | k => (spelling k).toList

mutual

def write (layout : Layout) (level : Nat) : Json → List Char
  | .scalar k => writeScalar layout.asciiOnly k
  | .arr [] => ['[', ']']
  | .arr (v :: rest) =>
    '[' :: layout.lineBreak (level + 1) ++ write layout (level + 1) v ++
      writeItems layout (level + 1) rest ++ layout.lineBreak level ++ [']']
  | .obj [] => ['\x7b', '\x7d']
  | .obj ((k, v) :: rest) =>
    '\x7b' :: layout.lineBreak (level + 1) ++ writeText layout.asciiOnly (keyName k) ++ layout.afterKey ++
      write layout (level + 1) v ++ writeFields layout (level + 1) rest ++ layout.lineBreak level ++
      ['\x7d']

def writeItems (layout : Layout) (level : Nat) : List Json → List Char
  | [] => []
  | v :: rest =>
    layout.betweenItems ++ layout.lineBreak level ++ write layout level v ++
      writeItems layout level rest

def writeFields (layout : Layout) (level : Nat) : List (Scalar × Json) → List Char
  | [] => []
  | (k, v) :: rest =>
    layout.betweenItems ++ layout.lineBreak level ++ writeText layout.asciiOnly (keyName k) ++
      layout.afterKey ++ write layout level v ++ writeFields layout level rest

end

def render (layout : Layout) (v : Json) : String := String.ofList (write layout 0 v)

mutual

/-- The value with the keys of every object in order, if they have one. -/
def sortKeys : Json → Except Unfit Json
  | .scalar k => .ok (.scalar k)
  | .arr items => do
    let items ← sortItems items
    pure (.arr items)
  | .obj fields => do
    let fields ← sortFields fields
    let fields ← Scalar.sortBy Prod.fst fields
    pure (.obj fields)

def sortItems : List Json → Except Unfit (List Json)
  | [] => .ok []
  | v :: rest => do
    let v ← sortKeys v
    let rest ← sortItems rest
    pure (v :: rest)

/-- Sorts the keys inside each value, the entries staying where they are. -/
def sortFields : List (Scalar × Json) → Except Unfit (List (Scalar × Json))
  | [] => .ok []
  | (k, v) :: rest => do
    let v ← sortKeys v
    let rest ← sortFields rest
    pure ((k, v) :: rest)

end

/-- A value as text, if it has one. -/
def dump (layout : Layout) (v : Json) : Except Unfit String :=
  if v.hasText then .ok (v.render layout) else .error .value

theorem dump_eq_ok_iff {layout : Layout} {v : Json} {text : String} :
    v.dump layout = .ok text ↔ v.hasText = true ∧ v.render layout = text := by
  rw [dump]
  cases v.hasText with
  | false => exact iff_of_false nofun nofun
  | true => exact ⟨fun h => ⟨rfl, Except.ok.inj h⟩, fun h => congrArg Except.ok h.2⟩

/-- The text of a value that does not depend on the order of its keys, if the keys have an order, the value
has a text, and that can be encoded. -/
def canonicalText (v : Json) : Except Unfit String := do
  let sorted ← v.sortKeys
  if !v.hasText then .error .value
  else if !v.isWhole then .error .encoding
  else pure (sorted.render .canonical)

end ExprRegistry.Json
