import ExprRegistry.Data.Table
import ExprRegistry.Json.Scalar

/-!
Document values. Integers and doubles are different values although `1` and `1.0` are numerically the
same; objects keep the order of their keys, and any scalar can be a key. Equality of values is decidable
and counts key order and the spelling of keys.
-/

namespace ExprRegistry

/-- A document value. -/
inductive Json where
  | scalar (k : Scalar)
  | arr (items : List Json)
  | obj (fields : List (Scalar × Json))
  deriving Inhabited

abbrev Fields := Table Scalar Json

instance : Coe Scalar Json := ⟨.scalar⟩

namespace Json

@[match_pattern] abbrev null : Json := .scalar .null

@[match_pattern] abbrev bool (b : Bool) : Json := .scalar (.bool b)

@[match_pattern] abbrev int (n : Int) : Json := .scalar (.int n)

@[match_pattern] abbrev float (x : Double) : Json := .scalar (.float x)

@[match_pattern] abbrev str (s : String) : Json := .scalar (.str (.whole s))

@[match_pattern] abbrev text (t : Text) : Json := .scalar (.str t)

mutual

def eqb : Json → Json → Bool
  | .scalar a, .scalar b => decide (a = b)
  | .arr a, .arr b => eqbItems a b
  | .obj a, .obj b => eqbFields a b
  | _, _ => false

def eqbItems : List Json → List Json → Bool
  | [], [] => true
  | a :: as, b :: bs => eqb a b && eqbItems as bs
  | _, _ => false

def eqbFields : List (Scalar × Json) → List (Scalar × Json) → Bool
  | [], [] => true
  | (k, a) :: as, (l, b) :: bs => decide (k = l) && eqb a b && eqbFields as bs
  | _, _ => false

end

mutual

theorem eqb_refl : (a : Json) → eqb a a = true
  | .scalar _ => by simp [eqb]
  | .arr items => by simpa [eqb] using eqbItems_refl items
  | .obj fields => by simpa [eqb] using eqbFields_refl fields

theorem eqbItems_refl : (a : List Json) → eqbItems a a = true
  | [] => rfl
  | a :: as => by simp [eqbItems, eqb_refl a, eqbItems_refl as]

theorem eqbFields_refl : (a : List (Scalar × Json)) → eqbFields a a = true
  | [] => rfl
  | (_, a) :: as => by simp [eqbFields, eqb_refl a, eqbFields_refl as]

end

mutual

theorem eq_of_eqb : (a b : Json) → eqb a b = true → a = b
  | .scalar _, b, h => by cases b <;> simp_all [eqb]
  | .arr items, b, h => by
      cases b with
      | arr others => rw [eq_of_eqbItems items others (by simpa [eqb] using h)]
      | _ => simp [eqb] at h
  | .obj fields, b, h => by
      cases b with
      | obj others => rw [eq_of_eqbFields fields others (by simpa [eqb] using h)]
      | _ => simp [eqb] at h

theorem eq_of_eqbItems : (a b : List Json) → eqbItems a b = true → a = b
  | [], b, h => by cases b <;> simp_all [eqbItems]
  | a :: as, b, h => by
      cases b with
      | nil => simp [eqbItems] at h
      | cons b bs =>
          simp only [eqbItems, Bool.and_eq_true] at h
          rw [eq_of_eqb a b h.1, eq_of_eqbItems as bs h.2]

theorem eq_of_eqbFields : (a b : List (Scalar × Json)) → eqbFields a b = true → a = b
  | [], b, h => by cases b <;> simp_all [eqbFields]
  | (k, a) :: as, b, h => by
      cases b with
      | nil => simp [eqbFields] at h
      | cons b bs =>
          obtain ⟨l, b⟩ := b
          simp only [eqbFields, Bool.and_eq_true, decide_eq_true_eq] at h
          rw [h.1.1, eq_of_eqb a b h.1.2, eq_of_eqbFields as bs h.2]

end

instance : DecidableEq Json := fun a b =>
  if h : eqb a b then .isTrue (eq_of_eqb a b h)
  else .isFalse fun e => h (e ▸ eqb_refl a)

/-- A value as a key: lists and objects are none. -/
def scalar? : Json → Option Scalar
  | .scalar k => some k
  | _ => none

def isScalar (v : Json) : Bool := v.scalar?.isSome

def names (v : Json) (k : Scalar) : Bool :=
  match v with
  | .scalar k' => k' == k
  | _ => false

def number? (v : Json) : Option (Int ⊕ Double) := v.scalar?.bind Scalar.number?

def isText : Json → Bool
  | .text _ => true
  | _ => false

def isString : Json → Bool
  | .str _ => true
  | _ => false

/-- Whether a value counts as given: null, false, zero and everything empty do not. -/
def isGiven : Json → Bool
  | .scalar k => k.isGiven
  | .arr items => !items.isEmpty
  | .obj fields => !fields.isEmpty

mutual

/-- Whether all scalars in a value pass a test, the keys of its objects among them. -/
def all (p : Scalar → Bool) : Json → Bool
  | .scalar k => p k
  | .arr items => allItems p items
  | .obj fields => allFields p fields

def allItems (p : Scalar → Bool) : List Json → Bool
  | [] => true
  | v :: rest => all p v && allItems p rest

def allFields (p : Scalar → Bool) : List (Scalar × Json) → Bool
  | [] => true
  | (k, v) :: rest => p k && all p v && allFields p rest

end

/-- Whether a value has a text: every integer in it needs one. -/
def hasText (v : Json) : Bool := v.all Scalar.hasText

/-- Whether all texts in a value are whole. -/
def isWhole (v : Json) : Bool := v.all Scalar.isWhole

def field? (fields : Fields) (key : String) : Option Json :=
  Table.get? (.str key) fields

def hasField (fields : Fields) (key : String) : Bool := (field? fields key).isSome

def fieldOrNull (fields : Fields) (key : String) : Json :=
  (field? fields key).getD .null

end Json

end ExprRegistry
