import ExprRegistry.Text.Quoted
import Mathlib.Data.List.Basic

/-!
Shown texts can be read back. An escape tells the character that it stands for, and no shown character
starts with the quote in use, so where a shown text ends is told by the text. Main statements:
`quoted_append_inj`, and `Passes.quoted` for a reader that only keeps track of quotes.
-/

namespace ExprRegistry.Text

/-- The number that hexadecimal digits write; other characters count as zero. -/
def hexNumber (ds : List Char) : Nat := ds.foldl (fun n c => 16 * n + (hexValue? c).getD 0) 0

theorem hexValue?_hexDigit : ∀ n < 16, hexValue? (hexDigit n) = some n := by decide

theorem hex_length (width n : Nat) : (hex width n).length = width := by
  induction width generalizing n with
  | zero => rfl
  | succ width ih => rw [hex, List.length_append, ih, List.length_singleton]

theorem hexNumber_snoc (ds : List Char) (c : Char) :
    hexNumber (ds ++ [c]) = 16 * hexNumber ds + (hexValue? c).getD 0 := List.foldl_append

theorem hexNumber_hex {width n : Nat} (h : n < Nat.pow 16 width) : hexNumber (hex width n) = n := by
  induction width generalizing n with
  | zero =>
      have none : n < 1 := h
      rw [Nat.lt_one_iff.mp none]
      rfl
  | succ width ih =>
      have bound : n < Nat.pow 16 width * 16 := h
      rw [Nat.mul_comm] at bound
      have low : n % 16 < 16 := Nat.mod_lt n (by decide)
      rw [hex, hexNumber_snoc, ih (Nat.div_lt_of_lt_mul bound), hexValue?_hexDigit _ low]
      exact Nat.div_add_mod n 16

/-- Reads the character whose code point is written with a number of hexadecimal digits. -/
def readHex (width : Nat) (cs : List Char) : Char × List Char :=
  (Char.ofNat (hexNumber (cs.take width)), cs.drop width)

theorem readHex_hex {width : Nat} {c : Char} (h : c.toNat < Nat.pow 16 width) (rest : List Char) :
    readHex width (hex width c.toNat ++ rest) = (c, rest) := by
  rw [readHex, List.take_left' (hex_length width _), List.drop_left' (hex_length width _),
    hexNumber_hex h, Char.ofNat_toNat]

/-- Reads one shown character. -/
def readShown : List Char → Option (Char × List Char)
  | [] => none
  | '\\' :: 'n' :: rest => some ('\n', rest)
  | '\\' :: 'r' :: rest => some ('\r', rest)
  | '\\' :: 't' :: rest => some ('\t', rest)
  | '\\' :: 'x' :: rest => some (readHex 2 rest)
  | '\\' :: 'u' :: rest => some (readHex 4 rest)
  | '\\' :: 'U' :: rest => some (readHex 8 rest)
  | '\\' :: c :: rest => some (c, rest)
  | c :: rest => some (c, rest)

theorem readShown_plain {c : Char} (h : c ≠ '\\') (rest : List Char) :
    readShown (c :: rest) = some (c, rest) := by
  rw [readShown]
  all_goals
    intros
    exact h (by assumption)

theorem toNat_lt (c : Char) : c.toNat < Nat.pow 16 8 := by
  have valid : c.toNat.isValidChar := c.valid
  have digits : Nat.pow 16 8 = 0x100000000 := rfl
  unfold Nat.isValidChar at valid
  omega

/-- The characters that can stand around a shown text. -/
def IsQuote (c : Char) : Prop := c = '\'' ∨ c = '"'

instance (c : Char) : Decidable (IsQuote c) := inferInstanceAs (Decidable (_ ∨ _))

theorem quoteFor_isQuote (cs : List Char) : IsQuote (quoteFor cs) := by
  unfold quoteFor
  split
  · exact .inr rfl
  · exact .inl rfl

theorem IsQuote.ne_backslash {quote : Char} (h : IsQuote quote) : quote ≠ '\\' := by
  rcases h with rfl | rfl <;> decide

variable {quote : Char}

theorem readShown_showChar (isQuote : IsQuote quote) (c : Char) (rest : List Char) :
    readShown (showChar quote c ++ rest) = some (c, rest) := by
  unfold showChar
  by_cases backslash : c = '\\'
  · rw [backslash]
    rfl
  rw [if_neg (mt eq_of_beq backslash)]
  split
  case isTrue same =>
    rw [eq_of_beq same]
    rcases isQuote with rfl | rfl <;> rfl
  split
  case isTrue newline => rw [eq_of_beq newline]; rfl
  split
  case isTrue carriage => rw [eq_of_beq carriage]; rfl
  split
  case isTrue tab => rw [eq_of_beq tab]; rfl
  split
  case isTrue => exact readShown_plain backslash rest
  split
  case isTrue low => exact congrArg some (readHex_hex low rest)
  split
  case isTrue low => exact congrArg some (readHex_hex low rest)
  case isFalse => exact congrArg some (readHex_hex (toNat_lt c) rest)

/-- A shown character is the character itself or an escape; the sign of an escape may be all of it. -/
theorem showChar_shape (isQuote : IsQuote quote) (c : Char) :
    (showChar quote c = [c] ∧ c ≠ '\\' ∧ c ≠ quote) ∨
      ∃ sign width, sign ≠ ':' ∧ showChar quote c = '\\' :: sign :: hex width c.toNat := by
  unfold showChar
  split
  case isTrue => exact .inr ⟨'\\', 0, by decide, rfl⟩
  split
  case isTrue => exact .inr ⟨quote, 0, by rcases isQuote with rfl | rfl <;> decide, rfl⟩
  split
  case isTrue => exact .inr ⟨'n', 0, by decide, rfl⟩
  split
  case isTrue => exact .inr ⟨'r', 0, by decide, rfl⟩
  split
  case isTrue => exact .inr ⟨'t', 0, by decide, rfl⟩
  split
  case isTrue noBackslash noQuote _ _ _ _ =>
    exact .inl ⟨rfl, mt beq_of_eq noBackslash, mt beq_of_eq noQuote⟩
  split
  case isTrue => exact .inr ⟨'x', 2, by decide, rfl⟩
  split
  case isTrue => exact .inr ⟨'u', 4, by decide, rfl⟩
  case isFalse => exact .inr ⟨'U', 8, by decide, rfl⟩

theorem showChar_ne_quote (isQuote : IsQuote quote) (c : Char) (x y : List Char) :
    showChar quote c ++ x ≠ quote :: y := by
  intro h
  rcases showChar_shape isQuote c with ⟨shown, _, different⟩ | ⟨sign, width, _, shown⟩
  · rw [shown] at h
    exact different (List.cons.inj h).1
  · rw [shown] at h
    exact isQuote.ne_backslash (List.cons.inj h).1.symm

/-- Up to its closing quote a shown text tells what it shows. -/
theorem showChars_inj (isQuote : IsQuote quote) {cs ds x y : List Char}
    (h : cs.flatMap (showChar quote) ++ quote :: x = ds.flatMap (showChar quote) ++ quote :: y) :
    cs = ds ∧ x = y := by
  induction cs generalizing ds with
  | nil =>
      cases ds with
      | nil => exact ⟨rfl, (List.cons.inj h).2⟩
      | cons d ds =>
          rw [List.flatMap_cons, List.append_assoc] at h
          exact absurd h.symm (showChar_ne_quote isQuote d _ _)
  | cons c cs ih =>
      rw [List.flatMap_cons, List.append_assoc] at h
      cases ds with
      | nil => exact absurd h (showChar_ne_quote isQuote c _ _)
      | cons d ds =>
          rw [List.flatMap_cons, List.append_assoc] at h
          have read := congrArg readShown h
          rw [readShown_showChar isQuote, readShown_showChar isQuote, Option.some_inj, Prod.mk.injEq] at read
          obtain ⟨rfl, later⟩ := read
          obtain ⟨rfl, rest⟩ := ih later
          exact ⟨rfl, rest⟩

theorem toList_quoted (s : String) :
    (quoted s).toList =
      quoteFor s.toList :: (s.toList.flatMap (showChar (quoteFor s.toList)) ++ [quoteFor s.toList]) := by
  rw [quoted, String.toList_ofList, List.cons_append]

/-- Where texts start with shown texts, the shown texts and the rests can be told. -/
theorem quoted_append_inj {s t : String} {x y : List Char}
    (h : (quoted s).toList ++ x = (quoted t).toList ++ y) : s = t ∧ x = y := by
  rw [toList_quoted, toList_quoted, List.cons_append, List.cons_append, List.append_assoc,
    List.append_assoc] at h
  obtain ⟨sameQuote, inner⟩ := List.cons.inj h
  rw [← sameQuote] at inner
  obtain ⟨same, rest⟩ := showChars_inj (quoteFor_isQuote s.toList) inner
  exact ⟨String.toList_inj.mp same, rest⟩

/-! ### Keeping track of quotes -/

/-- Where a reader stands in a text with shown texts in it: behind a backslash that escapes what follows or
not, and inside which quotes. -/
structure Place where
  escaped : Bool
  quote? : Option Char

namespace Place

/-- Outside of all quotes. -/
def outside : Place := ⟨false, none⟩

def inside (quote : Char) : Place := ⟨false, some quote⟩

/-- Meets a quote: opens quotes or closes them. Inside quotes of the other kind it is like any character. -/
def turn (c : Char) : Option Char → Option Char
  | none => some c
  | some quote => if quote = c then none else some quote

def next (p : Place) (c : Char) : Place :=
  if p.escaped then ⟨false, p.quote?⟩
  else if c = '\\' then ⟨true, p.quote?⟩
  else if IsQuote c then ⟨false, turn c p.quote?⟩
  else p

theorem turn_inj {c : Char} {a b : Option Char} (h : turn c a = turn c b) : a = b := by
  cases a with
  | none =>
      cases b with
      | none => rfl
      | some other =>
          simp only [turn] at h
          split at h
          · cases h
          · cases h
            contradiction
  | some quote =>
      cases b with
      | none =>
          simp only [turn] at h
          split at h
          · cases h
          · cases h
            contradiction
      | some other =>
          simp only [turn] at h
          split at h <;> split at h <;> simp_all

end Place

/-- A character without a meaning for a reader that keeps track of quotes and looks for colons. -/
def IsPlain (c : Char) : Prop := c ≠ '\\' ∧ ¬IsQuote c ∧ c ≠ ':'

instance (c : Char) : Decidable (IsPlain c) := inferInstanceAs (Decidable (_ ∧ _))

/-- A text leads from a place to another one, and every colon in it stands inside quotes. -/
inductive Passes : Place → List Char → Place → Prop
  | nil (p : Place) : Passes p [] p
  | cons {p q : Place} {c : Char} {cs : List Char} (guarded : c = ':' → ∃ quote, p = .inside quote)
      (rest : Passes (p.next c) cs q) : Passes p (c :: cs) q

namespace Passes

variable {p q r : Place} {cs ds : List Char}

theorem append (h : Passes p cs q) (k : Passes q ds r) : Passes p (cs ++ ds) r := by
  induction h with
  | nil => exact k
  | cons guarded _ ih => exact .cons guarded (ih k)

/-- Behind a colon the reader is inside quotes. -/
theorem after_colon (h : Passes p (cs ++ ':' :: ds) r) : ∃ quote, Passes (.inside quote) ds r := by
  induction cs generalizing p with
  | nil =>
      cases h with
      | cons guarded rest =>
          obtain ⟨quote, rfl⟩ := guarded rfl
          exact ⟨quote, rest⟩
  | cons c cs ih =>
      cases h with
      | cons _ rest => exact ih rest

/-- Whether a text escapes is not a matter of quotes, so the place it leads to tells where it began. -/
theorem start_unique {escaped : Bool} {a b : Option Char} (h : Passes ⟨escaped, a⟩ cs q)
    (k : Passes ⟨escaped, b⟩ cs q) : a = b := by
  induction cs generalizing escaped a b with
  | nil =>
      cases h
      cases k
      rfl
  | cons c cs ih =>
      cases h with
      | cons _ h =>
        cases k with
        | cons _ k =>
            simp only [Place.next] at h k
            cases escaped with
            | true => exact ih h k
            | false =>
                simp only [Bool.false_eq_true, if_false] at h k
                by_cases backslash : c = '\\'
                · rw [if_pos backslash] at h k
                  exact ih h k
                · rw [if_neg backslash] at h k
                  by_cases isQuote : IsQuote c
                  · rw [if_pos isQuote] at h k
                    exact Place.turn_inj (ih h k)
                  · rw [if_neg isQuote] at h k
                    exact ih h k

/-- What stands before a colon can be told where all later colons are inside quotes. -/
theorem split_inj {xs ys us vs : List Char} (hu : Passes .outside us .outside)
    (hv : Passes .outside vs .outside) (h : xs ++ ':' :: us = ys ++ ':' :: vs) : xs = ys ∧ us = vs := by
  -- A later colon would be outside of quotes for the one who starts behind it.
  have no_later : ∀ {cs vs : List Char}, Passes .outside vs .outside →
      ¬Passes .outside (cs ++ ':' :: vs) .outside := by
    intro cs vs hv whole
    obtain ⟨quote, rest⟩ := whole.after_colon
    cases start_unique hv rest
  rcases List.append_eq_append_iff.mp h with ⟨between, rfl, more⟩ | ⟨between, rfl, more⟩
  · cases between with
    | nil => exact ⟨(List.append_nil xs).symm, (List.cons.inj more).2⟩
    | cons c between =>
        obtain ⟨_, rfl⟩ := List.cons.inj more
        exact absurd hu (no_later hv)
  · cases between with
    | nil => exact ⟨List.append_nil ys, (List.cons.inj more).2.symm⟩
    | cons c between =>
        obtain ⟨_, rfl⟩ := List.cons.inj more
        exact absurd hv (no_later hu)

/-- A character that is no mark leaves the reader where it is. -/
theorem cons_plain {o : Option Char} {c : Char} (plain : IsPlain c) (rest : Passes ⟨false, o⟩ cs q) :
    Passes ⟨false, o⟩ (c :: cs) q := by
  obtain ⟨backslash, isQuote, colon⟩ := plain
  refine .cons (fun h => absurd h colon) ?_
  simpa only [Place.next, Bool.false_eq_true, if_false, if_neg backslash, if_neg isQuote] using rest

theorem of_plain {o : Option Char} (plain : ∀ c ∈ cs, IsPlain c) : Passes ⟨false, o⟩ cs ⟨false, o⟩ := by
  induction cs with
  | nil => exact .nil _
  | cons c cs ih =>
      exact cons_plain (plain c List.mem_cons_self) (ih fun d member => plain d (List.mem_cons_of_mem c member))

end Passes

theorem hexDigit_plain : ∀ n < 16, IsPlain (hexDigit n) := by decide

theorem hex_plain (width n : Nat) : ∀ c ∈ hex width n, IsPlain c := by
  induction width generalizing n with
  | zero => exact nofun
  | succ width ih =>
      intro c member
      rcases List.mem_append.mp member with earlier | last
      · exact ih _ c earlier
      · rw [List.mem_singleton.mp last]
        exact hexDigit_plain _ (Nat.mod_lt n (by decide))

theorem Passes.showChar (isQuote : IsQuote quote) (c : Char) :
    Passes (.inside quote) (showChar quote c) (.inside quote) := by
  rcases showChar_shape isQuote c with ⟨shown, backslash, different⟩ | ⟨sign, width, noColon, shown⟩
  · rw [shown]
    refine .cons (fun _ => ⟨quote, rfl⟩) ?_
    have stays : (Place.inside quote).next c = .inside quote := by
      simp only [Place.next, Place.inside, Place.turn, Bool.false_eq_true, if_neg backslash,
        if_neg (Ne.symm different), ite_self]
    rw [stays]
    exact .nil _
  · rw [shown]
    refine .cons (fun h => absurd h (by decide)) (.cons (fun h => absurd h noColon) ?_)
    exact .of_plain (hex_plain width _)

theorem Passes.showChars (isQuote : IsQuote quote) (cs : List Char) :
    Passes (.inside quote) (cs.flatMap (Text.showChar quote)) (.inside quote) := by
  induction cs with
  | nil => exact .nil _
  | cons c cs ih =>
      rw [List.flatMap_cons]
      exact (Passes.showChar isQuote c).append ih

theorem Place.outside_next (isQuote : IsQuote quote) : Place.outside.next quote = .inside quote := by
  simp only [next, outside, inside, turn, Bool.false_eq_true, if_false, if_neg isQuote.ne_backslash,
    if_pos isQuote]

theorem Place.inside_next (isQuote : IsQuote quote) : (Place.inside quote).next quote = .outside := by
  simp only [next, outside, inside, turn, Bool.false_eq_true, if_false, if_neg isQuote.ne_backslash,
    if_pos isQuote, if_true]

/-- A shown text opens its quotes and closes them, whatever it shows. -/
theorem Passes.quoted (s : String) : Passes .outside (quoted s).toList .outside := by
  have isQuote := quoteFor_isQuote s.toList
  have noColon : quoteFor s.toList ≠ ':' := by rcases isQuote with h | h <;> rw [h] <;> decide
  rw [toList_quoted]
  refine .cons (fun h => absurd h noColon) ?_
  rw [Place.outside_next isQuote]
  refine (Passes.showChars isQuote s.toList).append (.cons (fun h => absurd h noColon) ?_)
  rw [Place.inside_next isQuote]
  exact .nil _

end ExprRegistry.Text
