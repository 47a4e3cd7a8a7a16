import ExprRegistry.Decimal.Notation
import ExprRegistry.Json.Unfit
import ExprRegistry.Text.Quoted

/-!
Values inside messages. `shown` quotes texts at every depth; `display` is the same except that a text
by itself stands without quotes. No message holds a half of a character: its escape stands there.
-/

namespace ExprRegistry

def Scalar.shown : Scalar → String
  | .null => "None"
  | .bool true => "True"
  | .bool false => "False"
  | .int n => toString n
  | .float x => Decimal.text .message x
  | .str t => t.shown

def Scalar.display : Scalar → String
  | .str t => t.escaped
  | k => k.shown

namespace Json

mutual

def shown : Json → String
  | .scalar k => k.shown
  | .arr items => "[" ++ ", ".intercalate (shownItems items) ++ "]"
  | .obj fields => "\x7b" ++ ", ".intercalate (shownFields fields) ++ "\x7d"

def shownItems : List Json → List String
  | [] => []
  | v :: rest => shown v :: shownItems rest

def shownFields : List (Scalar × Json) → List String
  | [] => []
  | (k, v) :: rest => (k.shown ++ ": " ++ shown v) :: shownFields rest

end

def display : Json → String
  | .scalar k => k.display
  | v => shown v

/-- A value as a text: a text itself, and what is shown of any other value. -/
def asText : Json → Text
  | .text t => t
  | v => v.display

/-- The text of a value, if it has one. -/
def toText (v : Json) : Except Unfit Text := if v.hasText then .ok v.asText else .error .value

end Json

end ExprRegistry
