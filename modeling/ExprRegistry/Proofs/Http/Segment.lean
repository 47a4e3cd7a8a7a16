import ExprRegistry.Proofs.Http.Disguise

/-!
The address of a package is the base address with one segment behind it. A segment is read back: its escapes are
the bytes of a name. No character of it ends a path, a query or the place of a server, so that a name has no say
in how its address is taken apart. Main statement: `address_of_package`.
-/

namespace ExprRegistry.Http

/-- The upper-case hexadecimal digits. -/
def IsUpperHex (c : Char) : Prop := c ∈ "0123456789ABCDEF".toList

/-- The characters that stand for themselves. -/
def IsPlain (c : Char) : Prop := c.isAlphanum = true ∨ c ∈ ['_', '.', '-', '~']

instance (c : Char) : Decidable (IsPlain c) := inferInstanceAs (Decidable (_ ∨ _))

/-- A segment: plain characters, and escapes of two digits each. -/
inductive IsSegment : List Char → Prop
  | nil : IsSegment []
  | plain {c : Char} {rest : List Char} (stands : IsPlain c) (later : IsSegment rest) : IsSegment (c :: rest)
  | escape {high low : Char} {rest : List Char} (first : IsUpperHex high) (second : IsUpperHex low)
      (later : IsSegment rest) : IsSegment ('%' :: high :: low :: rest)

/-- The text whose bytes a segment stands for, if they are those of a text. -/
def percentDecode? (segment : String) : Option String :=
  String.fromUTF8? (unescaped segment.toList).toByteArray

/-- A URL with characters added at its end. They belong to the last of its parts. -/
def Url.extended (u : Url) (more : List Char) : Url :=
  if u.fragment ≠ [] then { u with fragment := u.fragment ++ more }
  else if u.query ≠ [] then { u with query := u.query ++ more }
  else { u with path := u.path ++ more }

/-! ### Segments -/

namespace IsSegment

theorem append {cs more : List Char} (first : IsSegment cs) (second : IsSegment more) : IsSegment (cs ++ more) := by
  induction first with
  | nil => exact second
  | plain stands _ ih => exact .plain stands ih
  | escape high low _ ih => exact .escape high low ih

theorem flatMap {α : Type} {f : α → List Char} (each : ∀ x, IsSegment (f x)) (xs : List α) :
    IsSegment (xs.flatMap f) := by
  induction xs with
  | nil => exact .nil
  | cons x xs ih =>
      rw [List.flatMap_cons]
      exact (each x).append ih

theorem percentByte (b : UInt8) : IsSegment (percentByte b) := by
  have digits : ∀ n < 16, Text.upperAscii (Text.hexDigit n) ∈ "0123456789ABCDEF".toList := by decide
  rw [percentByte_eq]
  exact .escape (digits _ (Nat.mod_lt _ (by decide))) (digits _ (Nat.mod_lt _ (by decide))) .nil

theorem isAlphanum_iff {c : Char} : c.isAlphanum = true ↔
    ((0x41 ≤ c.toNat ∧ c.toNat ≤ 0x5A) ∨ (0x61 ≤ c.toNat ∧ c.toNat ≤ 0x7A)) ∨ (0x30 ≤ c.toNat ∧ c.toNat ≤ 0x39) := by
  have ranges : c.isAlphanum = ((decide (0x41 ≤ c.val ∧ c.val ≤ 0x5A) ||
    (decide (0x61 ≤ c.val) && decide (c.val ≤ 0x7A))) || (decide (0x30 ≤ c.val) && decide (c.val ≤ 0x39))) := rfl
  simp only [ranges, Bool.or_eq_true, Bool.and_eq_true, decide_eq_true_eq, UInt32.le_iff_toNat_le]
  rfl

theorem isPlain_of_isUnreserved {c : Char} (h : isUnreserved c = true) : IsPlain c := by
  simp only [isUnreserved, Text.isAsciiLetter, Text.isAsciiDigit, Bool.or_eq_true, Bool.and_eq_true,
    decide_eq_true_eq, beq_iff_eq, Char.le_def, UInt32.le_iff_toNat_le] at h
  rw [IsPlain, isAlphanum_iff]
  simp only [List.mem_cons, List.not_mem_nil]
  tauto

theorem percentChar (c : Char) : IsSegment (percentChar c) := by
  unfold Http.percentChar
  split
  case isTrue unreserved => exact .plain (isPlain_of_isUnreserved unreserved) .nil
  case isFalse => exact flatMap percentByte _

theorem percentEncode (name : String) : IsSegment (percentEncode name).toList := by
  rw [Http.percentEncode, String.toList_ofList]
  exact flatMap percentChar _

/-- The characters of a segment. -/
theorem mem {cs : List Char} (segment : IsSegment cs) : ∀ c ∈ cs, IsPlain c ∨ c = '%' := by
  have digits := List.all_eq_true.mp (show "0123456789ABCDEF".toList.all Char.isAlphanum = true by decide)
  induction segment with
  | nil => exact List.forall_mem_nil _
  | plain stands _ ih => exact List.forall_mem_cons.mpr ⟨.inl stands, ih⟩
  | escape high low _ ih =>
      refine List.forall_mem_cons.mpr ⟨.inr rfl, List.forall_mem_cons.mpr ⟨?_, List.forall_mem_cons.mpr ⟨?_, ih⟩⟩⟩
      · exact .inl (.inl (digits _ high))
      · exact .inl (.inl (digits _ low))

/-- No character of a segment is one at which an address is taken apart. -/
theorem endsAuthority_eq_false {cs : List Char} (segment : IsSegment cs) {c : Char} (member : c ∈ cs) :
    endsAuthority c = false := by
  refine eq_false_of_ne_true fun ends => ?_
  simp only [endsAuthority, Bool.or_eq_true, beq_iff_eq] at ends
  have inside := segment.mem c member
  rcases ends with (rfl | rfl) | rfl
  all_goals exact absurd inside (by decide)

theorem isPrintable_of_isPlain {c : Char} (h : IsPlain c) : isPrintable c = true := by
  have marks : ['_', '.', '-', '~'].all isPrintable = true := by decide
  rcases h with letter | mark
  · rw [isAlphanum_iff] at letter
    simp only [isPrintable, Bool.and_eq_true, decide_eq_true_eq]
    omega
  · exact List.all_eq_true.mp marks c mark

theorem kept_eq_self {cs : List Char} (segment : IsSegment cs) : kept cs = cs := by
  refine kept_printable fun c member => ?_
  rcases segment.mem c member with plain | rfl
  · exact isPrintable_of_isPlain plain
  · rfl

end IsSegment

theorem percentDecode?_percentEncode (name : String) : percentDecode? (percentEncode name) = some name := by
  have bytes : (unescaped (percentEncode name).toList).toByteArray = name.toByteArray := by
    rw [percentEncode, String.toList_ofList, unescaped_percentChars, ← String.utf8Encode_toList]
    rfl
  rw [percentDecode?, bytes, String.fromUTF8?, dif_pos name.isValidUTF8]
  rfl

/-! ### Addresses that end in a segment -/

/-- What is behind a slash that is not among the first two characters has no part in the authority. -/
theorem exists_authorityPart (c d : Char) (cs : List Char) :
    ∃ authority front, ∀ more,
      authorityPart (c :: d :: cs ++ '/' :: more) = (authority, front ++ '/' :: more) := by
  by_cases located : c = '/' ∧ d = '/'
  · obtain ⟨rfl, rfl⟩ := located
    refine ⟨cs.takeWhile fun x => !endsAuthority x, cs.dropWhile fun x => !endsAuthority x, fun more => ?_⟩
    have mark : (!endsAuthority '/') = false := rfl
    rw [List.cons_append, List.cons_append, authorityPart,
      Text.takeWhile_append_mark (p := fun x => !endsAuthority x) mark,
      Text.dropWhile_append_mark (p := fun x => !endsAuthority x) mark]
  · refine ⟨[], c :: d :: cs, fun more => authorityPart_of_none fun rest same => located ?_⟩
    rw [List.cons_append, List.cons_append] at same
    exact ⟨(List.cons.inj same).1, (List.cons.inj (List.cons.inj same).2).1⟩

/-- An address that goes on behind a slash is taken apart there or before. -/
theorem exists_ofParts? (base : List Char) :
    ∃ scheme authority front, ∀ more, kept more = more →
      Url.split? (base ++ '/' :: ("expressions".toList ++ '/' :: more)) =
        Url.ofParts? scheme (authority, front ++ '/' :: more) := by
  let rest := (splitScheme (cleaned base)).2
  have long : ∃ c d cs, rest ++ '/' :: "expressions".toList = c :: d :: cs := by
    match rest with
    | [] => exact ⟨'/', 'e', "xpressions".toList, rfl⟩
    | [c] => exact ⟨c, '/', "expressions".toList, rfl⟩
    | c :: d :: cs => exact ⟨c, d, _, rfl⟩
  obtain ⟨c, d, cs, long⟩ := long
  obtain ⟨authority, front, parts⟩ := exists_authorityPart c d cs
  refine ⟨(splitScheme (cleaned base)).1, authority, front, fun more clean => ?_⟩
  have word : kept ("expressions".toList ++ '/' :: more) = "expressions".toList ++ '/' :: more := by
    rw [kept_append]
    exact congrArg (fun cs => "expressions".toList ++ '/' :: cs) clean
  have joined : rest ++ '/' :: ("expressions".toList ++ '/' :: more) = c :: d :: cs ++ '/' :: more := by
    rw [← long, List.append_assoc, List.cons_append]
  rw [Url.split?_eq, cleaned_append_slash, word, splitScheme_append_slash, ← parts, ← joined]

/-- Where the mark is, if there is one, a list that goes on behind a slash without the mark is cut all the same. -/
theorem cutAt_append_slash {m : Char} (other : ('/' == m) = false) (front : List Char) :
    (∃ before after, ∀ more, (∀ c ∈ more, (c == m) = false) →
        Text.cutAt (· == m) (front ++ '/' :: more) = (before, some (after ++ '/' :: more))) ∨
      ∀ more, (∀ c ∈ more, (c == m) = false) →
        Text.cutAt (· == m) (front ++ '/' :: more) = (front ++ '/' :: more, none) := by
  rcases Text.mark_cases (· == m) front with none | ⟨before, x, after, rfl, none, mark⟩
  · refine .inr fun more free => Text.cutAt_eq_self ?_
    exact List.forall_mem_append.mpr ⟨none, List.forall_mem_cons.mpr ⟨other, free⟩⟩
  · refine .inl ⟨before, after, fun more _ => ?_⟩
    rw [List.append_assoc, List.cons_append, Text.cutAt_mark none mark]

theorem Url.ofParts?_extended (scheme authority front : List Char) {more : List Char}
    (inside : ∀ c ∈ more, endsAuthority c = false) :
    ofParts? scheme (authority, front ++ '/' :: more) =
      (ofParts? scheme (authority, front ++ ['/'])).map (·.extended more) := by
  have noFragment : ∀ c ∈ more, (c == '#') = false := fun c member => (Bool.or_eq_false_iff.mp (inside c member)).2
  have noQuery : ∀ c ∈ more, (c == '?') = false := fun c member =>
    (Bool.or_eq_false_iff.mp (Bool.or_eq_false_iff.mp (inside c member)).1).2
  unfold ofParts?
  by_cases formed : authorityOk authority = true
  case neg => simp [formed]
  rcases cutAt_append_slash (m := '#') rfl front with ⟨before, after, cut⟩ | whole
  · simp [cut more noFragment, cut [] nofun, formed, extended]
  · simp only [whole more noFragment, whole [] nofun]
    rcases cutAt_append_slash (m := '?') rfl front with ⟨before, after, cut⟩ | whole
    · simp [cut more noQuery, cut [] nofun, formed, extended]
    · simp [whole more noQuery, whole [] nofun, formed, extended]

/-! ### Addresses of packages -/

namespace Index

variable (index : Index) (name : String)

theorem toList_packageUrl :
    (index.packageUrl name).toList =
      index.base.toList ++ '/' :: ("expressions".toList ++ '/' :: (percentEncode name).toList) := by
  simp [packageUrl]

theorem split?_packageUrl :
    Url.split? (index.packageUrl name).toList =
      (Url.split? (index.packageUrl "").toList).map (·.extended (percentEncode name).toList) := by
  have segment := IsSegment.percentEncode name
  obtain ⟨scheme, authority, front, parts⟩ := exists_ofParts? index.base.toList
  have bare : (percentEncode "").toList = [] := rfl
  rw [toList_packageUrl, toList_packageUrl, bare, parts _ segment.kept_eq_self, parts [] rfl]
  exact Url.ofParts?_extended scheme authority front fun c member => segment.endsAuthority_eq_false member

/-- The address of a package with what it is made of. -/
structure IsAddress (url : String) (index : Index) (name segment : String) : Prop where
  written : url = index.base ++ "/expressions/" ++ segment
  formed : IsSegment segment.toList
  /-- The segment tells the name. -/
  decoded : percentDecode? segment = some name
  /-- It ends neither a segment nor a path, and it begins no query and no fragment. -/
  inside : ∀ c ∈ segment.toList, c ≠ '/' ∧ c ≠ '?' ∧ c ≠ '#'
  /-- Taken apart, the address is that of the empty name but for the end of its last part. -/
  parts : Url.split? url.toList = (Url.split? (index.packageUrl "").toList).map (·.extended segment.toList)

theorem isAddress_packageUrl : IsAddress (index.packageUrl name) index name (percentEncode name) := by
  have segment := IsSegment.percentEncode name
  refine ⟨rfl, segment, percentDecode?_percentEncode name, fun c member => ?_, index.split?_packageUrl name⟩
  have inside := segment.endsAuthority_eq_false member
  refine ⟨?_, ?_, ?_⟩
  all_goals
    rintro rfl
    cases inside

/-- Whatever base address is given or set, names are the segments behind it, and different names have different
addresses. -/
theorem address_of_package {base : Json} {settings : Settings} {address : String}
    (chosen : (if base.isGiven then base else settings.apiUrl) = .str address) (useCache : Bool) :
    ∃ index, Index.ofBase base settings useCache = .ok index ∧
      (∃ slashes, address.toList = index.base.toList ++ List.replicate slashes '/' ∧
        index.base.toList.getLast? ≠ some '/') ∧
      (∀ name, ∃ segment, IsAddress (index.packageUrl name) index name segment) ∧
      ∀ name other, index.packageUrl name = index.packageUrl other ↔ name = other := by
  refine ⟨⟨Text.dropTrailing '/' address, useCache⟩, ?_, Text.exists_dropTrailing '/' address,
    fun name => ⟨_, isAddress_packageUrl _ name⟩, fun name other => ⟨fun same => ?_, fun same => by rw [same]⟩⟩
  · rw [ofBase, chosen]
  · have segments : percentEncode name = percentEncode other := by
      rw [← String.toList_inj] at same ⊢
      simpa [toList_packageUrl] using same
    have names := percentDecode?_percentEncode name
    rw [segments, percentDecode?_percentEncode, Option.some_inj] at names
    exact names.symm

/-- A name with a slash, a percent sign, a question mark and a letter beyond ASCII; a name that is written like the
segment of another. -/
theorem address_of_package_escaped :
    let base : Json := .str "http://registry.test/api//"
    let index : Index := ⟨"http://registry.test/api", true⟩
    (if base.isGiven then base else ({} : Settings).apiUrl) = .str "http://registry.test/api//" ∧
      Index.ofBase base {} true = .ok index ∧
      index.packageUrl "a/%2F?é" = "http://registry.test/api/expressions/a%2F%252F%3F%C3%A9" ∧
      (index.packageUrl "a/b" = index.packageUrl "a%2Fb" ↔ "a/b" = "a%2Fb") := by
  intro base index
  have chosen : (if base.isGiven then base else ({} : Settings).apiUrl) = .str "http://registry.test/api//" := rfl
  obtain ⟨built, made, _, _, injective⟩ := address_of_package chosen true
  have expected : Index.ofBase base {} true = .ok index := by decide +kernel
  obtain rfl : built = index := Except.ok.inj (made.symm.trans expected)
  exact ⟨chosen, expected, by decide +kernel, injective _ _⟩

end Index

end ExprRegistry.Http
