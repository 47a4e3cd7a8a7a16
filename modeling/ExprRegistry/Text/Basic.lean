import ExprRegistry.Text.DecimalDigit

/-!
Texts. A text is a row of characters, among which there may be halves of characters, as documents can write the
units of a surrogate pair one by one. Only a text without halves is whole, and has a form in UTF-8.
-/

namespace ExprRegistry

/-- A half of a character: its place among the surrogates. -/
abbrev Half := Fin 0x800

/-- A text. It is a string up to its first half. -/
inductive Text where
  | whole (s : String)
  | torn (front : String) (half : Half) (rest : Text)
  deriving DecidableEq, Inhabited

instance : Coe String Text := ⟨.whole⟩

namespace Text

/-- What a text is a row of. -/
abbrev Point := Char ⊕ Half

def firstHalf : Nat := 0xD800

/-- The code of a point: halves have those that no character has. -/
def code : Point → Nat
  | .inl c => c.toNat
  | .inr h => firstHalf + h

/-- The point with a code that is in the range of points. -/
def pointOf (n : Nat) : Point :=
  if h : firstHalf ≤ n ∧ n < firstHalf + 0x800 then .inr ⟨n - firstHalf, by omega⟩ else .inl (Char.ofNat n)

def points : Text → List Point
  | .whole s => s.toList.map .inl
  | .torn front h rest => front.toList.map .inl ++ .inr h :: points rest

/-- The text of points that follow some characters, the last of which comes first. -/
def ofPointsAfter (before : List Char) : List Point → Text
  | [] => .whole (String.ofList before.reverse)
  | .inl c :: rest => ofPointsAfter (c :: before) rest
  | .inr h :: rest => .torn (String.ofList before.reverse) h (ofPointsAfter [] rest)

def ofPoints (points : List Point) : Text := ofPointsAfter [] points

def isWhole : Text → Bool
  | .whole _ => true
  | .torn _ _ _ => false

def string? : Text → Option String
  | .whole s => some s
  | .torn _ _ _ => none

/-- The escape of a half. -/
def halfEscape (h : Half) : List Char := '\\' :: 'u' :: hex 4 (firstHalf + h)

/-- A text as it stands in a message: a half is written as its escape. -/
def escaped : Text → String
  | .whole s => s
  | .torn front h rest => front ++ (String.ofList (halfEscape h) ++ escaped rest)

def repeated (n : Nat) (t : Text) : Text := ofPoints (List.replicate n t.points).flatten

/-- Texts are in the order of the codes of their points. -/
instance : LE Text := ⟨fun s t => List.le (s.points.map code) (t.points.map code)⟩

instance : DecidableLE Text := fun s t => List.decidableLE (s.points.map code) (t.points.map code)

end Text

end ExprRegistry
