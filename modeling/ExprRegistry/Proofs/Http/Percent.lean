import ExprRegistry.Http.Percent
import ExprRegistry.Proofs.Text.Quoted

/-!
Names as segments are told apart. Taking the escapes of a segment back gives the bytes of its name. Main
statement: `percentEncode_injective`.
-/

namespace ExprRegistry.Http

/-- The bytes that a segment stands for. -/
def unescaped : List Char → List UInt8
  | [] => []
  | '%' :: a :: b :: rest => UInt8.ofNat (Text.hexNumber [a, b]) :: unescaped rest
  | c :: rest => UInt8.ofNat c.toNat :: unescaped rest

theorem unescaped_cons {c : Char} (h : c ≠ '%') (rest : List Char) :
    unescaped (c :: rest) = UInt8.ofNat c.toNat :: unescaped rest := by
  rw [unescaped]
  intros
  exact h (by assumption)

theorem hexValue?_upperAscii : ∀ n < 16, Text.hexValue? (Text.upperAscii (Text.hexDigit n)) = some n := by
  decide

theorem percentByte_eq (b : UInt8) :
    percentByte b = ['%', Text.upperAscii (Text.hexDigit (b.toNat / 16 % 16)),
      Text.upperAscii (Text.hexDigit (b.toNat % 16))] := rfl

theorem unescaped_percentByte (b : UInt8) (rest : List Char) :
    unescaped (percentByte b ++ rest) = b :: unescaped rest := by
  have high : b.toNat / 16 % 16 < 16 := Nat.mod_lt _ (by decide)
  have low : b.toNat % 16 < 16 := Nat.mod_lt _ (by decide)
  have number : Text.hexNumber [Text.upperAscii (Text.hexDigit (b.toNat / 16 % 16)),
      Text.upperAscii (Text.hexDigit (b.toNat % 16))] = b.toNat := by
    simp only [Text.hexNumber, List.foldl_cons, List.foldl_nil, hexValue?_upperAscii _ high,
      hexValue?_upperAscii _ low, Option.getD_some]
    have bound := b.toNat_lt
    omega
  rw [percentByte_eq]
  simp only [List.cons_append, List.nil_append, unescaped, number, UInt8.ofNat_toNat]

theorem unescaped_percentBytes (bytes : List UInt8) (rest : List Char) :
    unescaped (bytes.flatMap percentByte ++ rest) = bytes ++ unescaped rest := by
  induction bytes with
  | nil => rfl
  | cons b bytes ih =>
      rw [List.flatMap_cons, List.append_assoc, unescaped_percentByte, ih, List.cons_append]

theorem isUnreserved_bounds {c : Char} (h : isUnreserved c = true) : c.toNat ≤ 127 ∧ c ≠ '%' := by
  constructor
  · simp only [isUnreserved, Text.isAsciiLetter, Text.isAsciiDigit, Bool.or_eq_true, Bool.and_eq_true,
      decide_eq_true_eq, beq_iff_eq, Char.le_def, UInt32.le_iff_toNat_le] at h
    change c.val.toNat ≤ 127
    rcases h with ((((((⟨_, high⟩ | ⟨_, high⟩) | ⟨_, high⟩) | rfl) | rfl) | rfl) | rfl)
    · exact Nat.le_trans high (by decide)
    · exact Nat.le_trans high (by decide)
    · exact Nat.le_trans high (by decide)
    all_goals decide
  · rintro rfl
    cases h

theorem unescaped_percentChar (c : Char) (rest : List Char) :
    unescaped (percentChar c ++ rest) = String.utf8EncodeChar c ++ unescaped rest := by
  unfold percentChar
  split
  case isTrue plain =>
    obtain ⟨low, different⟩ := isUnreserved_bounds plain
    have single : String.utf8EncodeChar c = [UInt8.ofNat c.toNat] := by
      rw [String.utf8EncodeChar]
      exact if_pos low
    rw [single]
    exact unescaped_cons different rest
  case isFalse => exact unescaped_percentBytes _ rest

theorem unescaped_percentChars (cs : List Char) :
    unescaped (cs.flatMap percentChar) = cs.flatMap String.utf8EncodeChar := by
  induction cs with
  | nil => rfl
  | cons c cs ih => rw [List.flatMap_cons, unescaped_percentChar, ih, List.flatMap_cons]

/-- A segment holds no mark that ends a parameter or a query. -/
theorem mem_percentEncode {name : String} {c : Char} (member : c ∈ (percentEncode name).toList) :
    c ≠ '&' ∧ c ≠ '#' := by
  have digits : ∀ n < 16, Text.upperAscii (Text.hexDigit n) ≠ '&' ∧ Text.upperAscii (Text.hexDigit n) ≠ '#' := by
    decide
  have marks : isUnreserved '&' = false ∧ isUnreserved '#' = false := by decide
  rw [percentEncode, String.toList_ofList] at member
  obtain ⟨x, _, inside⟩ := List.mem_flatMap.mp member
  unfold percentChar at inside
  split at inside
  case isTrue plain =>
    rw [List.mem_singleton] at inside
    subst inside
    constructor
    · rintro rfl
      cases marks.1.symm.trans plain
    · rintro rfl
      cases marks.2.symm.trans plain
  case isFalse =>
    obtain ⟨b, _, here⟩ := List.mem_flatMap.mp inside
    rw [percentByte_eq, List.mem_cons, List.mem_pair] at here
    rcases here with rfl | rfl | rfl
    · decide
    · exact digits _ (Nat.mod_lt _ (by decide))
    · exact digits _ (Nat.mod_lt _ (by decide))

theorem percentEncode_injective : Function.Injective percentEncode := by
  intro name other same
  have chars : name.toList.flatMap percentChar = other.toList.flatMap percentChar := by
    have lists := congrArg String.toList same
    rwa [percentEncode, percentEncode, String.toList_ofList, String.toList_ofList] at lists
  have bytes : name.toList.utf8Encode = other.toList.utf8Encode := by
    rw [List.utf8Encode, List.utf8Encode, ← unescaped_percentChars, chars, unescaped_percentChars]
  rwa [String.utf8Encode_toList, String.utf8Encode_toList, String.toByteArray_inj] at bytes

end ExprRegistry.Http
