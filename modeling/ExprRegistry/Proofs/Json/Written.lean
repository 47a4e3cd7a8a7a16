import ExprRegistry.Json.Writer
import ExprRegistry.Proofs.Decimal.Notation
import ExprRegistry.Proofs.Json.Regular
import ExprRegistry.Proofs.Text.Points
import ExprRegistry.Proofs.Text.Quoted

/-!
Documents that are written and read again. The reader takes what was written of a value and leaves what follows, and
gives the value back but for its doubles, of which only the text is a matter of the writer. Main statement: what a
regular document is written as is read again.
-/

namespace ExprRegistry.Json

/-- What a document comes back as: the same document, but for the values of its doubles. -/
inductive Reread : Json → Json → Prop
  | scalar (k : Scalar) : Reread (.scalar k) (.scalar k)
  | float (x y : Double) : Reread (.float x) (.float y)
  | arr {items others : List Json} (all : List.Forall₂ Reread items others) : Reread (.arr items) (.arr others)
  | obj {fields others : Fields} (keys : fields.keys = others.keys)
      (all : List.Forall₂ Reread fields.values others.values) : Reread (.obj fields) (.obj others)

/-- A layout that separates as the language of documents does. -/
structure Layout.Standard (layout : Layout) : Prop where
  items : ∃ gap, layout.betweenItems = ',' :: gap ∧ ∀ c ∈ gap, isGap c = true
  keys : ∃ gap, layout.afterKey = ':' :: gap ∧ ∀ c ∈ gap, isGap c = true

theorem Layout.indentedPlain_standard : indentedPlain.Standard where
  items := ⟨[], rfl, nofun⟩
  keys := ⟨[' '], rfl, List.forall_mem_singleton.mpr rfl⟩

theorem Layout.spaced_standard : spaced.Standard where
  items := ⟨[' '], rfl, List.forall_mem_singleton.mpr rfl⟩
  keys := ⟨[' '], rfl, List.forall_mem_singleton.mpr rfl⟩

theorem Layout.lineBreak_gap (layout : Layout) (level : Nat) : ∀ c ∈ layout.lineBreak level, isGap c = true := by
  unfold lineBreak
  split
  · nofun
  · refine List.forall_mem_cons.mpr ⟨rfl, fun c member => ?_⟩
    rw [List.eq_of_mem_replicate member]
    rfl

variable {asciiOnly : Bool} {cs rest gap : List Char} {c : Char} {fuel : Nat}

theorem skipGap_append (blank : ∀ c ∈ gap, isGap c = true) (cs : List Char) : skipGap (gap ++ cs) = skipGap cs :=
  List.dropWhile_append_of_pos blank

theorem skipGap_cons (mark : isGap c = false) (cs : List Char) : skipGap (c :: cs) = c :: cs :=
  List.dropWhile_cons_of_neg (ne_true_of_eq_false mark)

/-! ### Texts -/

theorem hexUnit?_hex {n : Nat} (h : n < 0x10000) (rest : List Char) :
    hexUnit? (Text.hex 4 n ++ rest) = some (n, rest) := by
  have digit (m : Nat) : Text.hexValue? (Text.hexDigit (m % 16)) = some (m % 16) :=
    Text.hexValue?_hexDigit _ (Nat.mod_lt m (by decide))
  have value : ((n / 16 / 16 / 16 % 16 * 16 + n / 16 / 16 % 16) * 16 + n / 16 % 16) * 16 + n % 16 = n := by omega
  simp only [Text.hex, List.nil_append, List.cons_append, hexUnit?, digit, Option.bind_eq_bind, Option.bind_some,
    Option.pure_def, value]

theorem moreThanFour_hex (n : Nat) (given : rest ≠ []) : moreThanFour (Text.hex 4 n ++ rest) = true := by
  obtain ⟨c, cs, rfl⟩ := List.exists_cons_of_ne_nil given
  rfl

theorem readUnicode_hex {n : Nat} (unit : n < 0x10000) (single : n < 0xD800 ∨ 0xDC00 ≤ n) (given : rest ≠ []) :
    readUnicode (Text.hex 4 n ++ rest) = .ok (Text.pointOf n, rest) := by
  have alone : (decide (0xD800 ≤ n) && decide (n < 0xDC00)) = false := by simp; omega
  simp only [readUnicode, moreThanFour_hex n given, if_true, hexUnit?_hex unit, alone, Bool.false_eq_true, if_false]

/-- Two units of a pair are read as one character. -/
theorem readUnicode_pair {m : Nat} (plane : m < 0x100000) (given : rest ≠ []) :
    readUnicode (Text.hex 4 (0xD800 + m / 0x400) ++ '\\' :: 'u' :: (Text.hex 4 (0xDC00 + m % 0x400) ++ rest)) =
      .ok (.inl (Char.ofNat (0x10000 + m)), rest) := by
  have high : (decide (0xD800 ≤ 0xD800 + m / 0x400) && decide (0xD800 + m / 0x400 < 0xDC00)) = true := by
    simp; omega
  have low : (decide (0xDC00 ≤ 0xDC00 + m % 0x400) && decide (0xDC00 + m % 0x400 < 0xE000)) = true := by
    simp; omega
  have number : 0x10000 + (0xD800 + m / 0x400 - 0xD800) * 0x400 + (0xDC00 + m % 0x400 - 0xDC00) = 0x10000 + m := by
    omega
  have first := hexUnit?_hex (n := 0xD800 + m / 0x400) (by omega)
    ('\\' :: 'u' :: (Text.hex 4 (0xDC00 + m % 0x400) ++ rest))
  have second := hexUnit?_hex (n := 0xDC00 + m % 0x400) (by omega) rest
  simp only [readUnicode, moreThanFour_hex _ (List.cons_ne_nil _ _), moreThanFour_hex _ given, if_true, first, high,
    second, low, number]

/-- A character is read off its number, be it one unit or two. -/
theorem readUnicode_unitEscape (c : Char) (given : rest ≠ []) :
    ∃ units, unitEscape c.toNat ++ rest = '\\' :: 'u' :: units ∧ readUnicode units = .ok (.inl c, rest) := by
  have range := Text.toNat_cases c
  by_cases unit : c.toNat < 0x10000
  · have read := readUnicode_hex unit (by omega) given
    rw [Text.pointOf_toNat] at read
    exact ⟨Text.hex 4 c.toNat ++ rest, by rw [unitEscape, if_pos unit]; rfl, read⟩
  · -- the two units carry the upper and the lower ten bits of what is above 0x10000
    obtain ⟨m, above⟩ := Nat.exists_eq_add_of_le (Nat.le_of_not_lt unit)
    have read := readUnicode_pair (m := m) (by omega) given
    rw [← above, Char.ofNat_toNat] at read
    refine ⟨_, ?_, read⟩
    rw [unitEscape, if_neg unit, above, Nat.add_sub_cancel_left]
    simp

/-- An escape stands for its character. -/
theorem readText_escape {opening after : List Char} {ps : List Text.Point} {d e : Char} (unit : d ≠ 'u')
    (escape : escape? d = some e) (h : readText opening fuel rest = .ok (ps, after)) :
    readText opening (fuel + 1) ('\\' :: d :: rest) = .ok (.inl e :: ps, after) := by
  have here : (d == 'u') = false := beq_eq_false_iff_ne.mpr unit
  simp only [readText, here, escape, h]
  rfl

/-- A character is written by an escape, by its number, or as it is. -/
theorem writeChar_cases (asciiOnly : Bool) (c : Char) :
    (∃ d, d ≠ 'u' ∧ escape? d = some c ∧ writeChar asciiOnly c = ['\\', d]) ∨
      writeChar asciiOnly c = unitEscape c.toNat ∨
      (c ≠ '"' ∧ c ≠ '\\' ∧ ¬ c.toNat < 0x20 ∧ writeChar asciiOnly c = [c]) := by
  by_cases quote : c = '"'
  · subst quote
    exact .inl ⟨'"', by decide, rfl, rfl⟩
  by_cases escape : c = '\\'
  · subst escape
    exact .inl ⟨'\\', by decide, rfl, rfl⟩
  by_cases feed : c = '\n'
  · subst feed
    exact .inl ⟨'n', by decide, rfl, rfl⟩
  by_cases carriage : c = '\r'
  · subst carriage
    exact .inl ⟨'r', by decide, rfl, rfl⟩
  by_cases tab : c = '\t'
  · subst tab
    exact .inl ⟨'t', by decide, rfl, rfl⟩
  by_cases back : c = '\x08'
  · subst back
    exact .inl ⟨'b', by decide, rfl, rfl⟩
  by_cases page : c = '\x0c'
  · subst page
    exact .inl ⟨'f', by decide, rfl, rfl⟩
  have back : c.toNat ≠ 8 := fun same => back (Char.toNat_inj.mp same)
  have page : c.toNat ≠ 12 := fun same => page (Char.toNat_inj.mp same)
  by_cases control : c.toNat < 0x20
  · have unit : c.toNat < 0x10000 := Nat.lt_trans control (by decide)
    exact .inr (.inl (by simp [writeChar, quote, escape, feed, carriage, tab, back, page, control, unitEscape, unit]))
  by_cases beyond : asciiOnly = true ∧ 0x7E < c.toNat
  · exact .inr (.inl (by simp [writeChar, quote, escape, feed, carriage, tab, back, page, control, beyond]))
  · refine .inr (.inr ⟨quote, escape, control, ?_⟩)
    simp [writeChar, quote, escape, feed, carriage, tab, back, page, control, beyond]

/-- A character that was written is read back, whichever escape it was given. -/
theorem readText_writeChar {opening after : List Char} {ps : List Text.Point} (c : Char) (given : rest ≠ [])
    (h : readText opening fuel rest = .ok (ps, after)) :
    readText opening (fuel + 1) (writeChar asciiOnly c ++ rest) = .ok (.inl c :: ps, after) := by
  rcases writeChar_cases asciiOnly c with
    ⟨d, unit, escape, written⟩ | written | ⟨noQuote, noEscape, visible, written⟩
  · rw [written]
    exact readText_escape unit escape h
  · obtain ⟨units, begins, read⟩ := readUnicode_unitEscape c given
    rw [written, begins]
    simp only [readText, read, h]
    rfl
  · rw [written, List.singleton_append]
    simp only [readText, beq_iff_eq, if_neg noQuote, if_neg noEscape, if_neg visible, h]
    rfl

theorem readText_written {opening : List Char} (cs rest : List Char) (room : cs.length < fuel) :
    readText opening fuel (cs.flatMap (writeChar asciiOnly) ++ '"' :: rest) = .ok (cs.map .inl, rest) := by
  induction cs generalizing fuel with
  | nil =>
      obtain ⟨fuel, rfl⟩ := Nat.exists_eq_add_one.mpr room
      rfl
  | cons c cs ih =>
      obtain ⟨fuel, rfl⟩ := Nat.exists_eq_add_one.mpr (Nat.zero_lt_of_lt room)
      rw [List.flatMap_cons, List.append_assoc]
      refine readText_writeChar c ?_ (ih (Nat.lt_of_succ_lt_succ room))
      simp

theorem length_unitEscape_pos (n : Nat) : 0 < (unitEscape n).length := by
  unfold unitEscape
  split <;> exact Nat.succ_pos _

theorem length_writeChar_pos (asciiOnly : Bool) (c : Char) : 0 < (writeChar asciiOnly c).length := by
  rcases writeChar_cases asciiOnly c with ⟨_, _, _, written⟩ | written | ⟨_, _, _, written⟩
  · rw [written]
    exact Nat.succ_pos _
  · rw [written]
    exact length_unitEscape_pos _
  · rw [written]
    exact Nat.succ_pos _

theorem writeText_whole (asciiOnly : Bool) (s : String) :
    writeText asciiOnly s = '"' :: s.toList.flatMap (writeChar asciiOnly) ++ ['"'] := by
  rw [writeText, Text.points, List.flatMap_map]
  rfl

theorem length_lt_writeText (asciiOnly : Bool) (s : String) :
    s.toList.length + 1 < (writeText asciiOnly s).length := by
  have each : ∀ cs : List Char, cs.length ≤ (cs.flatMap (writeChar asciiOnly)).length := by
    intro cs
    induction cs with
    | nil => exact Nat.le_refl 0
    | cons c cs ih =>
        have first := length_writeChar_pos asciiOnly c
        rw [List.flatMap_cons, List.length_append, List.length_cons]
        omega
  have bound := each s.toList
  rw [writeText_whole, List.length_append, List.length_cons, List.length_singleton]
  omega

theorem readQuoted_written (s : String) (rest : List Char) (room : (writeText asciiOnly s).length ≤ fuel + 1) :
    ∃ behind, writeText asciiOnly s ++ rest = '"' :: behind ∧ readQuoted fuel behind = .ok (.whole s, rest) := by
  have bound := length_lt_writeText asciiOnly s
  have short : s.toList.length < fuel := by omega
  have text : Text.ofPoints (s.toList.map .inl) = .whole s := Text.ofPoints_points s
  refine ⟨s.toList.flatMap (writeChar asciiOnly) ++ '"' :: rest, by simp [writeText_whole], ?_⟩
  simp only [readQuoted, readText_written s.toList rest short, Except.map, text]

/-! ### Scalars -/

/-- Whether a character opens, closes or surrounds values; no scalar other than a text begins with one. -/
def isMark (c : Char) : Bool :=
  isGap c || c == '\uFEFF' || c == '"' || c == '[' || c == ']' || c == '\x7b' || c == '\x7d'

theorem isMark_of_isAsciiDigit (digit : Text.isAsciiDigit c = true) : isMark c = false := by
  refine eq_false_of_ne_true fun mark => ?_
  simp only [isMark, isGap, Bool.or_eq_true, beq_iff_eq] at mark
  obtain (((((((((rfl | rfl) | rfl) | rfl) | rfl) | rfl) | rfl) | rfl) | rfl) | rfl) := mark
  all_goals cases digit

theorem isGap_of_not_isMark (h : isMark c = false) : isGap c = false := by
  simp only [isMark, Bool.or_eq_false_iff] at h
  exact h.1.1.1.1.1.1

theorem IsWhole.exists_cons {ws : List Char} (whole : IsWhole ws) :
    ∃ d ds, ws = d :: ds ∧ Text.isAsciiDigit d = true := by
  cases whole with
  | zero => exact ⟨'0', [], rfl, rfl⟩
  | digits _ all => exact ⟨_, _, rfl, all _ List.mem_cons_self⟩

/-- No word stands where a number begins. -/
theorem readAtom_signed (negative : Bool) {ws : List Char} (whole : IsWhole ws) {p : Json × List Char}
    (read : readNumber? (signed negative (ws ++ rest)) = some p) :
    readAtom false (signed negative (ws ++ rest)) = .ok p := by
  obtain ⟨d, ds, rfl, digit⟩ := whole.exists_cons
  have apart {c : Char} (h : Text.isAsciiDigit c = false) : (c == d) = false := by
    refine beq_eq_false_iff_ne.mpr fun same => ?_
    rw [same, digit] at h
    cases h
  have none : ∀ e ∈ wordValues, e.1.isPrefixOf? (signed negative (d :: ds ++ rest)) = none := by
    cases negative with
    | true => simp [wordValues, signed, List.isPrefixOf?, apart (c := 'I') rfl]
    | false =>
        simp [wordValues, signed, List.isPrefixOf?, apart (c := 'n') rfl, apart (c := 't') rfl, apart (c := 'f') rfl,
          apart (c := 'N') rfl, apart (c := 'I') rfl, apart (c := '-') rfl]
  unfold readAtom
  split
  case h_1 found =>
    obtain ⟨e, member, same⟩ := List.exists_of_findSome?_eq_some found
    obtain ⟨after, fits, _⟩ := Option.map_eq_some_iff.mp same
    cases (none e member).symm.trans fits
  case h_2 =>
    obtain ⟨v, after⟩ := p
    rw [read]
    rfl

theorem toList_toString_int (n : Int) : (toString n).toList = signed (decide (n < 0)) (Nat.toDigits 10 n.natAbs) := by
  cases n with
  | ofNat n =>
      change (toString n).toList = _
      rw [Text.toList_toString]
      rfl
  | negSucc n =>
      have negative : decide (Int.negSucc n < 0) = true := decide_eq_true (Int.negSucc_lt_zero n)
      change ("-" ++ toString (n + 1)).toList = _
      rw [negative, String.toList_append, Text.toList_toString]
      rfl

theorem signed_append (negative : Bool) (cs rest : List Char) :
    signed negative cs ++ rest = signed negative (cs ++ rest) := by
  cases negative with
  | true => rfl
  | false => rfl

theorem head_signed (negative : Bool) {ws : List Char} (whole : IsWhole ws) (rest : List Char) :
    ∃ c cs, signed negative (ws ++ rest) = c :: cs ∧ isMark c = false := by
  obtain ⟨d, ds, rfl, digit⟩ := whole.exists_cons
  cases negative with
  | true => exact ⟨'-', _, rfl, rfl⟩
  | false => exact ⟨d, _, rfl, isMark_of_isAsciiDigit digit⟩

theorem readAtom_int (n : Int) (stop : Version.Stops goesOn rest) :
    readAtom false ((toString n).toList ++ rest) = .ok (.int n, rest) := by
  have whole := isWhole_toDigits n.natAbs
  obtain ⟨v, read, same⟩ := readNumber?_append (decide (n < 0)) whole .none .none stop
  have value : (if decide (n < 0) = true then -(n.natAbs : Int) else n.natAbs) = n := by
    split
    case isTrue negative =>
      have := of_decide_eq_true negative
      omega
    case isFalse positive =>
      have := of_decide_eq_false (eq_false_of_ne_true positive)
      omega
  rw [if_pos ⟨rfl, rfl⟩, Text.numberOf_toDigits, value] at same
  rw [toList_toString_int, signed_append]
  rw [List.nil_append, List.nil_append] at read
  rw [readAtom_signed _ whole read, same]

theorem readAtom_decimal (negative : Bool) {cs : List Char} (decimal : IsDecimal cs)
    (stop : Version.Stops goesOn rest) :
    ∃ x, readAtom false (signed negative cs ++ rest) = .ok (.float x, rest) := by
  obtain ⟨ws, fs, es, whole, fraction, exponent, given, rfl⟩ := decimal
  obtain ⟨v, read, same⟩ := readNumber?_append negative whole fraction exponent stop
  rw [if_neg given] at same
  obtain ⟨x, rfl⟩ := same
  rw [signed_append, List.append_assoc, List.append_assoc]
  exact ⟨x, readAtom_signed negative whole read⟩

theorem readAtom_float (x : Double) :
    (∃ c cs, (Decimal.text .document x).toList = c :: cs ∧ isMark c = false) ∧
      ∀ rest, Version.Stops goesOn rest →
        ∃ y, readAtom false ((Decimal.text .document x).toList ++ rest) = .ok (.float y, rest) := by
  cases number : x.isNaN with
  | true =>
      have shown : (Decimal.text .document x).toList = "NaN".toList := by rw [Decimal.text, number]; rfl
      rw [shown]
      exact ⟨⟨'N', _, rfl, rfl⟩, fun rest _ => ⟨_, rfl⟩⟩
  | false =>
      cases finite : x.isInfinite with
      | true =>
          have shown : (Decimal.text .document x).toList = signed x.isNegative "Infinity".toList := by
            simp only [Decimal.text, number, finite, Bool.false_eq_true, if_false, if_true, String.toList_append]
            cases x.isNegative with
            | true => rfl
            | false => rfl
          rw [shown]
          cases x.isNegative with
          | true => exact ⟨⟨'-', _, rfl, rfl⟩, fun rest _ => ⟨_, rfl⟩⟩
          | false => exact ⟨⟨'I', _, rfl, rfl⟩, fun rest _ => ⟨_, rfl⟩⟩
      | false =>
          obtain ⟨cs, decimal, shown⟩ := Decimal.text_of_finite .document number finite
          rw [shown]
          refine ⟨?_, fun rest stop => readAtom_decimal _ decimal stop⟩
          obtain ⟨ws, fs, es, whole, _, _, _, rfl⟩ := decimal
          exact head_signed _ whole _

/-- A scalar that is no text begins with no mark, and is read back before whatever no number goes on with. -/
theorem readAtom_written {k : Scalar} (noText : k.isText = false) :
    (∃ c cs, (spelling k).toList = c :: cs ∧ isMark c = false) ∧
      ∀ rest, Version.Stops goesOn rest →
        ∃ w, Reread (.scalar k) w ∧ readAtom false ((spelling k).toList ++ rest) = .ok (w, rest) := by
  cases k with
  | null => exact ⟨⟨'n', _, rfl, rfl⟩, fun rest _ => ⟨_, .scalar _, rfl⟩⟩
  | bool b =>
      cases b with
      | true => exact ⟨⟨'t', _, rfl, rfl⟩, fun rest _ => ⟨_, .scalar _, rfl⟩⟩
      | false => exact ⟨⟨'f', _, rfl, rfl⟩, fun rest _ => ⟨_, .scalar _, rfl⟩⟩
  | str s => cases noText
  | int n =>
      refine ⟨?_, fun rest stop => ⟨_, .scalar _, readAtom_int n stop⟩⟩
      have begins := head_signed (decide (n < 0)) (isWhole_toDigits n.natAbs) []
      rwa [List.append_nil, ← toList_toString_int] at begins
  | float x =>
      obtain ⟨begins, read⟩ := readAtom_float x
      refine ⟨begins, fun rest stop => ?_⟩
      obtain ⟨y, read⟩ := read rest stop
      exact ⟨_, .float x y, read⟩

/-! ### Values -/

/-- A scalar that is no text is written as it is spelled. -/
theorem write_of_not_text (layout : Layout) (level : Nat) {k : Scalar} (text : k.isText = false) :
    write layout level (.scalar k) = (spelling k).toList := by
  cases k with
  | str s => cases text
  | _ => rfl

theorem head_write (layout : Layout) (level : Nat) (v : Json) :
    ∃ c cs, write layout level v = c :: cs ∧ isGap c = false ∧ c ≠ ']' ∧ c ≠ '\uFEFF' := by
  cases v with
  | scalar k =>
      cases text : k.isText with
      | true =>
          cases k with
          | str s => exact ⟨'"', _, rfl, rfl, by decide, by decide⟩
          | _ => cases text
      | false =>
          obtain ⟨⟨c, cs, begins, noMark⟩, _⟩ := readAtom_written text
          refine ⟨c, cs, (write_of_not_text layout level text).trans begins, isGap_of_not_isMark noMark, ?_, ?_⟩
          · rintro rfl
            cases noMark
          · rintro rfl
            cases noMark
  | arr items =>
      cases items with
      | nil => exact ⟨'[', _, rfl, rfl, by decide, by decide⟩
      | cons v rest => exact ⟨'[', _, rfl, rfl, by decide, by decide⟩
  | obj fields =>
      cases fields with
      | nil => exact ⟨'\x7b', _, rfl, rfl, by decide, by decide⟩
      | cons e rest => exact ⟨'\x7b', _, rfl, rfl, by decide, by decide⟩

theorem skipGap_write (layout : Layout) (level : Nat) (v : Json) (rest : List Char) :
    skipGap (write layout level v ++ rest) = write layout level v ++ rest := by
  obtain ⟨c, cs, begins, noGap, _⟩ := head_write layout level v
  rw [begins, List.cons_append]
  exact skipGap_cons noGap _

theorem skipGap_writeText (asciiOnly : Bool) (s : Text) (rest : List Char) :
    skipGap (writeText asciiOnly s ++ rest) = writeText asciiOnly s ++ rest :=
  skipGap_cons rfl _

theorem length_write_pos (layout : Layout) (level : Nat) (v : Json) : 0 < (write layout level v).length := by
  obtain ⟨c, cs, begins, _⟩ := head_write layout level v
  rw [begins]
  exact Nat.succ_pos _

/-- No number goes on with a gap. -/
theorem stops_gap (blank : ∀ c ∈ gap, isGap c = true) (stop : goesOn c = false) :
    Version.Stops goesOn (gap ++ c :: rest) := by
  cases gap with
  | nil => exact Version.stops_cons stop
  | cons g gap =>
      refine Version.stops_cons ?_
      have white := blank g List.mem_cons_self
      simp only [isGap, Bool.or_eq_true, beq_iff_eq] at white
      obtain ((rfl | rfl) | rfl) | rfl := white
      all_goals rfl

/-- The reader takes what is written of a value and leaves what follows. -/
def ReadsBack (layout : Layout) (v : Json) : Prop :=
  ∀ level fuel rest, (write layout level v).length ≤ fuel → Version.Stops goesOn rest →
    ∃ w, Reread v w ∧ readValue false fuel (write layout level v ++ rest) = .ok (w, rest)

variable {layout : Layout}

theorem readItems_written (standard : layout.Standard) (level : Nat) (blank : ∀ c ∈ gap, isGap c = true)
    (rest : List Char) {v : Json} {more : List Json} (each : ∀ w ∈ v :: more, ReadsBack layout w)
    (room : (write layout level v).length + (writeItems layout level more).length + 1 ≤ fuel) :
    ∃ others, List.Forall₂ Reread (v :: more) others ∧
      readItems false fuel (write layout level v ++ (writeItems layout level more ++ (gap ++ ']' :: rest))) =
        .ok (others, rest) := by
  induction more generalizing v fuel with
  | nil =>
      obtain ⟨fuel, rfl⟩ := Nat.exists_eq_add_one.mpr (Nat.zero_lt_of_lt room)
      have stop : Version.Stops goesOn (gap ++ ']' :: rest) := stops_gap blank rfl
      obtain ⟨w, same, read⟩ := each v List.mem_cons_self level fuel _ (by omega) stop
      refine ⟨[w], .cons same .nil, ?_⟩
      rw [writeItems, List.nil_append, readItems, read]
      dsimp only
      rw [skipGap_append blank, skipGap_cons rfl]
      rfl
  | cons x more ih =>
      obtain ⟨fuel, rfl⟩ := Nat.exists_eq_add_one.mpr (Nat.zero_lt_of_lt room)
      obtain ⟨space, comma, white⟩ := standard.items
      have positive := length_write_pos layout level v
      have behind : writeItems layout level (x :: more) ++ (gap ++ ']' :: rest) =
          ',' :: (space ++ (layout.lineBreak level ++
            (write layout level x ++ (writeItems layout level more ++ (gap ++ ']' :: rest))))) := by
        simp [writeItems, comma]
      have size : (writeItems layout level (x :: more)).length =
          1 + space.length + (layout.lineBreak level).length + (write layout level x).length +
            (writeItems layout level more).length := by
        simp [writeItems, comma]
        omega
      have stop : Version.Stops goesOn (writeItems layout level (x :: more) ++ (gap ++ ']' :: rest)) := by
        rw [behind]
        exact Version.stops_cons rfl
      obtain ⟨w, same, read⟩ := each v List.mem_cons_self level fuel _ (by omega) stop
      have left : (write layout level x).length + (writeItems layout level more).length + 1 ≤ fuel := by omega
      obtain ⟨others, alike, later⟩ := ih (fun y member => each y (List.mem_cons_of_mem v member)) left
      refine ⟨w :: others, .cons same alike, ?_⟩
      rw [readItems, read]
      dsimp only
      rw [behind, skipGap_cons rfl]
      change Except.map _ (readItems false fuel (skipGap _)) = _
      rw [skipGap_append white, skipGap_append (layout.lineBreak_gap level), skipGap_write, later]
      rfl

/-- One entry of an object is read, and then its closing brace or the entries after it. -/
theorem readFields_entry (standard : layout.Standard) {level : Nat} {key : String} {v w : Json} {tail : List Char}
    (before : Fields) (room : (writeText layout.asciiOnly key).length ≤ fuel + 1)
    (read : readValue false fuel (write layout level v ++ tail) = .ok (w, tail)) :
    (∀ rest, skipGap tail = '\x7d' :: rest →
      readFields false (fuel + 1) before
          (writeText layout.asciiOnly key ++ (layout.afterKey ++ (write layout level v ++ tail))) =
        .ok (before.put (.str key) w, rest)) ∧
    ∀ behind, skipGap tail = ',' :: behind →
      readFields false (fuel + 1) before
          (writeText layout.asciiOnly key ++ (layout.afterKey ++ (write layout level v ++ tail))) =
        readFields false fuel (before.put (.str key) w) (skipGap behind) := by
  obtain ⟨space, colon, white⟩ := standard.keys
  obtain ⟨cs, begins, quoted⟩ := readQuoted_written key (layout.afterKey ++ (write layout level v ++ tail)) room
  rw [begins, readFields, quoted]
  dsimp only
  rw [colon, List.cons_append, skipGap_cons rfl]
  have value : skipGap (space ++ (write layout level v ++ tail)) = write layout level v ++ tail := by
    rw [skipGap_append white, skipGap_write]
  constructor
  · intro rest closes
    split
    case h_1 same =>
      cases same
      rw [value, read]
      dsimp only
      rw [closes]
      rfl
    case h_2 other => exact absurd rfl (other _)
  · intro behind goes
    split
    case h_1 same =>
      cases same
      rw [value, read]
      dsimp only
      rw [goes]
      rfl
    case h_2 other => exact absurd rfl (other _)

theorem readFields_written (standard : layout.Standard) (level : Nat) (blank : ∀ c ∈ gap, isGap c = true)
    (rest : List Char) {before : Fields} {e : Scalar × Json} {more : Fields}
    (each : ∀ x ∈ e :: more, ReadsBack layout x.2) (names : ∀ x ∈ e :: more, x.1.isString = true)
    (distinct : Table.Distinct (e :: more)) (apart : ∀ x ∈ e :: more, Table.has x.1 before = false)
    (room : (writeText layout.asciiOnly (keyName e.1)).length + layout.afterKey.length +
      (write layout level e.2).length + (writeFields layout level more).length + 1 ≤ fuel) :
    ∃ others : Fields, Table.keys (e :: more) = others.keys ∧
      List.Forall₂ Reread (Table.values (e :: more)) others.values ∧
      readFields false fuel before (writeText layout.asciiOnly (keyName e.1) ++ (layout.afterKey ++ (write layout level e.2 ++
        (writeFields layout level more ++ (gap ++ '\x7d' :: rest))))) = .ok (before ++ others, rest) := by
  induction more generalizing e fuel before with
  | nil =>
      obtain ⟨k, v⟩ := e
      obtain ⟨key, rfl⟩ := Scalar.exists_of_isString (names _ List.mem_cons_self)
      simp only [keyName] at room ⊢
      obtain ⟨fuel, rfl⟩ := Nat.exists_eq_add_one.mpr (Nat.zero_lt_of_lt room)
      have stop : Version.Stops goesOn (gap ++ '\x7d' :: rest) := stops_gap blank rfl
      obtain ⟨w, same, read⟩ := each (.str key, v) List.mem_cons_self level fuel _ (by dsimp only; omega) stop
      have absent := Table.get?_eq_none_iff.mpr (apart _ List.mem_cons_self)
      have closes : skipGap (gap ++ '\x7d' :: rest) = '\x7d' :: rest := by
        rw [skipGap_append blank, skipGap_cons rfl]
      refine ⟨[(.str key, w)], rfl, .cons same .nil, ?_⟩
      rw [writeFields, List.nil_append, (readFields_entry standard before (by omega) read).1 rest closes,
        Table.put_of_get?_eq_none absent]
  | cons x more ih =>
      obtain ⟨k, v⟩ := e
      obtain ⟨key, rfl⟩ := Scalar.exists_of_isString (names _ List.mem_cons_self)
      simp only [keyName] at room ⊢
      obtain ⟨fuel, rfl⟩ := Nat.exists_eq_add_one.mpr (Nat.zero_lt_of_lt room)
      obtain ⟨space, comma, white⟩ := standard.items
      have positive := length_lt_writeText layout.asciiOnly key
      have behind : writeFields layout level (x :: more) ++ (gap ++ '\x7d' :: rest) =
          ',' :: (space ++ (layout.lineBreak level ++ (writeText layout.asciiOnly (keyName x.1) ++
            (layout.afterKey ++ (write layout level x.2 ++
              (writeFields layout level more ++ (gap ++ '\x7d' :: rest))))))) := by
        simp [writeFields, comma]
      have size : (writeFields layout level (x :: more)).length =
          1 + space.length + (layout.lineBreak level).length + (writeText layout.asciiOnly (keyName x.1)).length +
            layout.afterKey.length + (write layout level x.2).length + (writeFields layout level more).length := by
        simp [writeFields, comma]
        omega
      have stop : Version.Stops goesOn (writeFields layout level (x :: more) ++ (gap ++ '\x7d' :: rest)) := by
        rw [behind]
        exact Version.stops_cons rfl
      obtain ⟨w, same, read⟩ := each (.str key, v) List.mem_cons_self level fuel _ (by dsimp only; omega) stop
      have absent := Table.get?_eq_none_iff.mpr (apart _ List.mem_cons_self)
      obtain ⟨different, distinct⟩ := List.pairwise_cons.mp distinct
      have apart : ∀ y ∈ x :: more, Table.has y.1 (before ++ [(Scalar.str key, w)]) = false := by
        intro y member
        rw [Table.has_append, apart y (List.mem_cons_of_mem _ member), Table.has_singleton,
          different y member, Bool.or_false]
      have left : (writeText layout.asciiOnly (keyName x.1)).length + layout.afterKey.length +
          (write layout level x.2).length + (writeFields layout level more).length + 1 ≤ fuel := by omega
      obtain ⟨others, keys, alike, later⟩ := ih (fun y member => each y (List.mem_cons_of_mem _ member))
        (fun y member => names y (List.mem_cons_of_mem _ member)) distinct apart left
      refine ⟨(.str key, w) :: others, congrArg (Scalar.str key :: ·) keys, .cons same alike, ?_⟩
      have goes := congrArg skipGap behind
      rw [skipGap_cons rfl] at goes
      rw [(readFields_entry standard before (by omega) read).2 _ goes, Table.put_of_get?_eq_none absent,
        skipGap_append white, skipGap_append (layout.lineBreak_gap level)]
      rw [skipGap_writeText, later, List.append_assoc, List.singleton_append]

theorem readValue_atom (begins : ∃ d ds, cs = d :: ds ∧ isMark d = false) (rest : List Char) :
    readValue false (fuel + 1) (cs ++ rest) = readAtom false (cs ++ rest) := by
  obtain ⟨d, ds, rfl, noMark⟩ := begins
  rw [List.cons_append]
  unfold readValue
  split
  case h_1 same =>
    cases same
    cases noMark
  case h_2 same =>
    cases same
    cases noMark
  case h_3 same =>
    cases same
    cases noMark
  case h_4 => rfl

theorem readsBack_scalar {k : Scalar} (whole : k.isWhole = true) : ReadsBack layout (.scalar k) := by
  intro level fuel rest room stop
  have positive := length_write_pos layout level (.scalar k)
  obtain ⟨fuel, rfl⟩ := Nat.exists_eq_add_one.mpr (Nat.lt_of_lt_of_le positive room)
  cases text : k.isText with
  | true =>
      obtain ⟨s, rfl⟩ := Scalar.exists_of_isString (Scalar.isString_iff.mpr ⟨text, whole⟩)
      have shown : write layout level (.str s) = writeText layout.asciiOnly s := by
        rw [write, writeScalar]
      rw [shown] at room ⊢
      obtain ⟨behind, begins, quoted⟩ := readQuoted_written s rest room
      refine ⟨.str s, .scalar _, ?_⟩
      rw [begins, readValue, quoted]
      rfl
  | false =>
      obtain ⟨begins, read⟩ := readAtom_written text
      obtain ⟨w, same, read⟩ := read rest stop
      rw [write_of_not_text layout level text]
      exact ⟨w, same, (readValue_atom begins rest).trans read⟩

/-- A list is read back if its items are. -/
theorem readsBack_arr (standard : layout.Standard) {items : List Json} (each : ∀ v ∈ items, ReadsBack layout v) :
    ReadsBack layout (.arr items) := by
  intro level fuel rest room _
  cases items with
  | nil =>
      obtain ⟨fuel, rfl⟩ := Nat.exists_eq_add_one.mpr (Nat.lt_of_lt_of_le Nat.two_pos room)
      exact ⟨.arr [], .arr .nil, rfl⟩
  | cons v more =>
      have size : (write layout level (.arr (v :: more))).length =
          (layout.lineBreak (level + 1)).length + (write layout (level + 1) v).length +
            (writeItems layout (level + 1) more).length + (layout.lineBreak level).length + 2 := by
        simp [write]
        omega
      obtain ⟨fuel, rfl⟩ := Nat.exists_eq_add_one.mpr (Nat.lt_of_lt_of_le (by omega) room)
      have left : (write layout (level + 1) v).length + (writeItems layout (level + 1) more).length + 1 ≤ fuel := by
        omega
      obtain ⟨others, alike, read⟩ :=
        readItems_written standard (level + 1) (layout.lineBreak_gap level) rest each left
      refine ⟨.arr others, .arr alike, ?_⟩
      have shown : write layout level (.arr (v :: more)) ++ rest =
          '[' :: (layout.lineBreak (level + 1) ++ (write layout (level + 1) v ++
            (writeItems layout (level + 1) more ++ (layout.lineBreak level ++ ']' :: rest)))) := by
        simp [write]
      obtain ⟨c, cs, begins, _, noEnd, _⟩ := head_write layout (level + 1) v
      rw [shown, readValue, skipGap_append (layout.lineBreak_gap (level + 1)), skipGap_write]
      split
      case h_1 same =>
        rw [begins] at same
        cases same
        exact absurd rfl noEnd
      case h_2 => rw [read]; rfl

/-- An object whose keys are different texts is read back if its values are. -/
theorem readsBack_obj (standard : layout.Standard) {fields : Fields} (each : ∀ e ∈ fields, ReadsBack layout e.2)
    (names : ∀ e ∈ fields, e.1.isString = true) (distinct : Table.Distinct fields) :
    ReadsBack layout (.obj fields) := by
  intro level fuel rest room _
  cases fields with
  | nil =>
      obtain ⟨fuel, rfl⟩ := Nat.exists_eq_add_one.mpr (Nat.lt_of_lt_of_le Nat.two_pos room)
      exact ⟨.obj [], .obj rfl .nil, rfl⟩
  | cons e more =>
      have size : (write layout level (.obj (e :: more))).length =
          (layout.lineBreak (level + 1)).length + (writeText layout.asciiOnly (keyName e.1)).length +
            layout.afterKey.length + (write layout (level + 1) e.2).length +
            (writeFields layout (level + 1) more).length + (layout.lineBreak level).length + 2 := by
        simp [write]
        omega
      obtain ⟨fuel, rfl⟩ := Nat.exists_eq_add_one.mpr (Nat.lt_of_lt_of_le (by omega) room)
      have left : (writeText layout.asciiOnly (keyName e.1)).length + layout.afterKey.length +
          (write layout (level + 1) e.2).length + (writeFields layout (level + 1) more).length + 1 ≤ fuel := by
        omega
      have apart : ∀ x ∈ e :: more, Table.has x.1 ([] : Fields) = false := fun _ _ => rfl
      obtain ⟨others, keys, alike, read⟩ :=
        readFields_written standard (level + 1) (layout.lineBreak_gap level) rest each names distinct apart left
      refine ⟨.obj others, .obj keys alike, ?_⟩
      have shown : write layout level (.obj (e :: more)) ++ rest =
          '\x7b' :: (layout.lineBreak (level + 1) ++ (writeText layout.asciiOnly (keyName e.1) ++
            (layout.afterKey ++ (write layout (level + 1) e.2 ++
              (writeFields layout (level + 1) more ++ (layout.lineBreak level ++ '\x7d' :: rest)))))) := by
        simp [write]
      rw [shown, readValue, skipGap_append (layout.lineBreak_gap (level + 1)), skipGap_writeText]
      split
      case h_1 same => cases same
      case h_2 => rw [read]; rfl

theorem Regular.readsBack (standard : layout.Standard) {v : Json} (h : v.Regular) : ReadsBack layout v := by
  obtain ⟨orderly, whole⟩ := h
  induction orderly with
  | scalar k => exact readsBack_scalar whole
  | arr all ih => exact readsBack_arr standard fun v member => ih v member (all_arr_iff.mp whole v member)
  | @obj fields texts distinct all ih =>
      have regular : Regular (.obj fields) := ⟨.obj texts distinct all, whole⟩
      exact readsBack_obj standard (fun e member => ih e member (regular.value e member).whole) regular.names distinct

/-- What a regular document is written as, with a line end, is read again, as the same document but for its
doubles. -/
theorem Regular.read_render (standard : layout.Standard) {v : Json} (h : v.Regular) :
    ∃ w, Reread v w ∧ read (v.render layout ++ "\n") = .ok w := by
  obtain ⟨c, cs, begins, _, _, noOrder⟩ := head_write layout 0 v
  have text : (v.render layout ++ "\n").toList = write layout 0 v ++ ['\n'] := by
    rw [String.toList_append, render, String.toList_ofList]
    rfl
  have room : (write layout 0 v).length ≤ 2 * (write layout 0 v ++ ['\n']).length + 2 := by
    rw [List.length_append]
    omega
  obtain ⟨w, same, taken⟩ := h.readsBack standard 0 _ ['\n'] room (Version.stops_cons rfl)
  refine ⟨w, same, ?_⟩
  have read : readDocument false (write layout 0 v ++ ['\n']) = .ok w := by
    unfold readDocument
    split
    case h_1 order =>
      rw [begins] at order
      cases order
      exact absurd rfl noOrder
    case h_2 =>
      rw [skipGap_write, taken]
      rfl
  rw [Json.read, readWith, text, read]
  rfl

end ExprRegistry.Json
