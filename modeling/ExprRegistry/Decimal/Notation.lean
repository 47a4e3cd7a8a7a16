import ExprRegistry.Decimal.Shortest

/-!
How a double is written. The digits are the fewest that read back; the notation is positional while the
leading digit's exponent is at least -4 and below 16, and scientific with a signed exponent of at least
two digits outside of that. Infinity has two spellings, one for messages and one for documents.
-/

namespace ExprRegistry.Decimal

/-- Spellings of the values that are not finite. -/
structure Spelling where
  nan : String
  infinity : String

def Spelling.message : Spelling := ⟨"nan", "inf"⟩

def Spelling.document : Spelling := ⟨"NaN", "Infinity"⟩

/-- Digits without zeros at their end; the first digit is kept. -/
def dropZeros (ds : List Char) : List Char :=
  match ds with
  | [] => []
  | d :: rest => d :: (rest.reverse.dropWhile (· == '0')).reverse

def exponentDigits (n : Nat) : String :=
  if n < 10 then "0" ++ toString n else toString n

/-- Writes significant digits of which the first has the exponent `lead`. -/
def positionalOrScientific (ds : List Char) (lead : Int) : List Char :=
  if lead < -4 || 16 ≤ lead then
    let tail := match ds with
      | d :: [] => [d]
      | d :: rest => d :: '.' :: rest
      | [] => []
    let sign := if lead < 0 then '-' else '+'
    tail ++ 'e' :: sign :: (exponentDigits lead.natAbs).toList
  else if lead < 0 then
    '0' :: '.' :: List.replicate (-lead - 1).toNat '0' ++ ds
  else
    let whole := lead.toNat + 1
    if ds.length ≤ whole then ds ++ List.replicate (whole - ds.length) '0' ++ ['.', '0']
    else ds.take whole ++ '.' :: ds.drop whole

def text (spelling : Spelling) (x : Double) : String :=
  if x.isNaN then spelling.nan
  else
    let sign := if x.isNegative then "-" else ""
    if x.isInfinite then sign ++ spelling.infinity
    else if x.significand == 0 then sign ++ "0.0"
    else
      let s := shortest x
      let ds := (toString s.digits).toList
      let lead := s.exponent + ((ds.length : Int) - 1)
      sign ++ String.ofList (positionalOrScientific (dropZeros ds) lead)

end ExprRegistry.Decimal
