import ExprRegistry.Proofs.Text.Cut
import ExprRegistry.Proofs.Version.Asking

/-!
The grammar of requirements. A version is spelled as two or three runs of digits, the identifiers of a prerelease and
those of its build metadata, each list with points between its members. Main statement: a text is a requirement
exactly when it asks for a version that is spelled so and whose numeric identifiers are short enough to be compared,
and then it requires that version.
-/

namespace ExprRegistry.Version

/-- The characters of one identifier. -/
def isWordChar (c : Char) : Bool := Text.isAsciiDigit c || Text.isAsciiLetter c || c == '-'

def IsWord (identifier : String) : Prop := IsRun isWordChar identifier.toList

/-- Identifiers with points between them; nothing when there are none. -/
def joined : List String → Option (List Char)
  | [] => none
  | i :: rest => some (['.'].intercalate ((i :: rest).map String.toList))

variable {ids : List String} {content : Option (List Char)} {i : String} {c : Char}

/-! ### Lists of identifiers -/

theorem isIdentifierChar_iff : isIdentifierChar c = true ↔ isWordChar c = true ∨ c = '.' := by
  rw [isIdentifierChar, isWordChar, Bool.or_eq_true, beq_iff_eq]

theorem mem_intercalate {words : List (List Char)} (member : c ∈ ['.'].intercalate words) :
    c = '.' ∨ ∃ word ∈ words, c ∈ word := by
  induction words with
  | nil => cases member
  | cons word rest ih =>
      cases rest with
      | nil =>
          rw [List.intercalate_singleton] at member
          exact .inr ⟨word, List.mem_cons_self, member⟩
      | cons next rest =>
          rw [List.intercalate_cons_cons, List.mem_append, List.mem_append, List.mem_singleton] at member
          rcases member with (here | point) | later
          · exact .inr ⟨word, List.mem_cons_self, here⟩
          · exact .inl point
          · rcases ih later with point | ⟨other, among, inside⟩
            · exact .inl point
            · exact .inr ⟨other, List.mem_cons_of_mem word among, inside⟩

/-- Words with points between them are what their list is read as. -/
theorem identifiers_joined (words : ∀ i ∈ ids, IsWord i) : identifiers (joined ids) = ids := by
  cases ids with
  | nil => rfl
  | cons first rest =>
      have apart : ∀ word ∈ (first :: rest).map String.toList, '.' ∉ word := by
        intro word member point
        obtain ⟨i, among, rfl⟩ := List.mem_map.mp member
        exact Bool.false_ne_true ((words i among).2 '.' point)
      rw [joined, identifiers, Text.pieces_eq_splitOn, List.splitOn_intercalate '.' apart (List.cons_ne_nil _ _),
        List.map_map]
      exact List.map_id'' (fun i => String.ofList_toList) _

theorem joined_identifiers (content : Option (List Char)) : joined (identifiers content) = content := by
  cases content with
  | none => rfl
  | some cs =>
      have back : ((Text.pieces '.' cs).map String.ofList).map String.toList = Text.pieces '.' cs := by
        rw [List.map_map]
        exact List.map_id'' (fun piece => String.toList_ofList) _
      cases cut : Text.pieces '.' cs with
      | nil => exact absurd ((Text.pieces_eq_splitOn '.' cs).symm.trans cut) (List.splitOnP_ne_nil _ cs)
      | cons piece pieces =>
          rw [cut, List.map_cons] at back
          rw [identifiers, cut, List.map_cons, joined, back, ← cut, Text.pieces_eq_splitOn,
            List.intercalate_splitOn]

theorem isRun_joined (words : ∀ i ∈ ids, IsWord i) : ∀ cs ∈ joined ids, IsRun isIdentifierChar cs := by
  cases ids with
  | nil => exact nofun
  | cons first rest =>
      rintro _ ⟨⟩
      constructor
      · have some := (words first List.mem_cons_self).1
        cases rest with
        | nil => rwa [List.map_singleton, List.intercalate_singleton]
        | cons next rest =>
            rw [List.map_cons, List.map_cons, List.intercalate_cons_cons]
            simp
      · intro c member
        rw [isIdentifierChar_iff]
        rcases mem_intercalate member with point | ⟨word, among, inside⟩
        · exact .inr point
        · obtain ⟨i, listed, rfl⟩ := List.mem_map.mp among
          exact .inl ((words i listed).2 c inside)

/-- A member of a list that is read is a word when it is not empty. -/
theorem isWord_of_mem_identifiers (regular : ∀ cs ∈ content, IsRun isIdentifierChar cs) (some : i ≠ "")
    (member : i ∈ identifiers content) : IsWord i := by
  cases content with
  | none => cases member
  | some cs =>
      obtain ⟨piece, cut, rfl⟩ := List.mem_map.mp member
      rw [IsWord, String.toList_ofList]
      constructor
      · rintro rfl
        exact some rfl
      · intro c inside
        obtain ⟨written, other⟩ := Text.mem_of_mem_pieces cut c inside
        exact (isIdentifierChar_iff.mp ((regular cs rfl).2 c written)).resolve_right other

/-! ### Spelled versions -/

/-- A version as it is spelled: the digits of its numbers, and its identifiers. -/
structure Spelling where
  major : List Char
  minor : List Char
  patch : Option (List Char)
  prerelease : List String
  build : List String

/-- A run of decimal digits that is short enough to be read. -/
structure IsNumeral (digits : List Char) : Prop where
  run : IsRun Text.isDigit digits
  short : digits.length ≤ Text.maxDigits

namespace Spelling

variable {spelling : Spelling}

/-- The parts that are written, with the identifiers of each list joined. -/
def parts (s : Spelling) : Parts := ⟨s.major, s.minor, s.patch, joined s.prerelease, joined s.build⟩

/-- The version that is spelled; a patch that is not written is zero. -/
def version (s : Spelling) : Version :=
  ⟨Text.numberOf s.major, Text.numberOf s.minor, Text.numberOf (s.patch.getD ['0']), s.prerelease, s.build⟩

/-- Numbers are numerals, identifiers are words, and no numeric one of a prerelease is padded with zeros. -/
structure Regular (s : Spelling) : Prop where
  major : IsNumeral s.major
  minor : IsNumeral s.minor
  patch : ∀ digits ∈ s.patch, IsNumeral digits
  prerelease : ∀ i ∈ s.prerelease, IsWord i
  unpadded : ∀ i ∈ s.prerelease, isNumeric i = true → ¬ Padded i.toList
  build : ∀ i ∈ s.build, IsWord i

/-- A regular spelling whose numeric identifiers are not too long. -/
structure Readable (s : Spelling) : Prop extends Regular s where
  comparable : ∀ i ∈ s.prerelease ++ s.build, IsComparable i

theorem Regular.parts (h : spelling.Regular) : spelling.parts.Regular where
  major := h.major.run
  minor := h.minor.run
  patch digits written := (h.patch digits written).run
  prerelease := isRun_joined h.prerelease
  build := isRun_joined h.build

theorem Regular.value_parts (h : spelling.Regular) : spelling.parts.value = spelling.version := by
  rw [Parts.value, Spelling.parts, identifiers_joined h.prerelease, identifiers_joined h.build]
  rfl

theorem Regular.sound_parts_iff (h : spelling.Regular) : spelling.parts.Sound ↔ spelling.Readable := by
  have prerelease : identifiers spelling.parts.prerelease = spelling.prerelease := identifiers_joined h.prerelease
  have build : identifiers spelling.parts.build = spelling.build := identifiers_joined h.build
  have filled {i : String} (word : IsWord i) : i ≠ "" := by
    rintro rfl
    exact word.1 rfl
  constructor
  · intro sound
    have comparable := sound.comparable
    rw [prerelease, build] at comparable
    exact ⟨h, comparable⟩
  · intro readable
    refine ⟨h.major.short, h.minor.short, ?_, ?_, ?_, ?_⟩
    · cases patch : spelling.patch with
      | none => simp [Spelling.parts, patch, Text.maxDigits]
      | some digits =>
          simp only [Spelling.parts, patch]
          exact (h.patch digits patch).short
    · rw [prerelease]
      exact fun i member => ⟨filled (h.prerelease i member), fun _ => h.unpadded i member⟩
    · rw [build]
      exact fun i member => ⟨filled (h.build i member), nofun⟩
    · rw [prerelease, build]
      exact readable.comparable

/-- Sound parts spell a version, in one way. -/
theorem exists_spelling {parts : Parts} (regular : parts.Regular) (sound : parts.Sound) :
    ∃ spelling : Spelling, spelling.Readable ∧ spelling.parts = parts := by
  have same : Spelling.parts ⟨parts.major, parts.minor, parts.patch, identifiers parts.prerelease,
      identifiers parts.build⟩ = parts := by
    simp only [Spelling.parts, joined_identifiers]
  refine ⟨_, ⟨⟨⟨regular.major, sound.major⟩, ⟨regular.minor, sound.minor⟩, ?_, ?_, ?_, ?_⟩, sound.comparable⟩, same⟩
  · intro digits written
    have patch : parts.patch = some digits := written
    have short := sound.patch
    rw [patch] at short
    exact ⟨regular.patch digits written, short⟩
  · intro i member
    exact isWord_of_mem_identifiers regular.prerelease (sound.prerelease i member).1 member
  · intro i member numeric
    exact (sound.prerelease i member).2 rfl numeric
  · intro i member
    exact isWord_of_mem_identifiers regular.build (sound.build i member).1 member

end Spelling

/-- An identifier of one digit more than a number may have. -/
def longIdentifier : String := String.ofList (List.replicate (Text.maxDigits + 1) '1')

def longVersion : Spelling := ⟨['1'], ['0'], some ['0'], [longIdentifier], []⟩

theorem toList_longIdentifier : longIdentifier.toList = List.replicate (Text.maxDigits + 1) '1' :=
  String.toList_ofList

theorem isRun_longIdentifier {p : Char → Bool} (one : p '1' = true) : IsRun p longIdentifier.toList := by
  rw [toList_longIdentifier]
  constructor
  · exact List.cons_ne_nil _ _
  · intro c member
    rw [List.eq_of_mem_replicate member]
    exact one

theorem parts_longVersion :
    longVersion.parts = ⟨['1'], ['0'], some ['0'], some longIdentifier.toList, none⟩ := by
  have alone : joined [longIdentifier] = some longIdentifier.toList := by
    rw [joined, List.map_singleton, List.intercalate_singleton]
  rw [Spelling.parts, longVersion]
  simp only [alone]
  rfl

theorem longVersion_regular : longVersion.Regular := by
  have numeral {c : Char} (digit : Text.isDigit c = true) : IsNumeral [c] :=
    ⟨⟨List.cons_ne_nil _ _, List.forall_mem_singleton.mpr digit⟩, by simp [Text.maxDigits]⟩
  have unpadded : ¬ Padded longIdentifier.toList := by
    rintro ⟨c, rest, padded⟩
    rw [toList_longIdentifier, List.replicate_succ] at padded
    exact absurd (List.cons.inj padded).1 (by decide)
  refine ⟨numeral (by decide), numeral (by decide), ?_, ?_, ?_, List.forall_mem_nil _⟩
  · rintro _ ⟨⟩
    exact numeral (by decide)
  · exact List.forall_mem_singleton.mpr (isRun_longIdentifier (by decide))
  · exact List.forall_mem_singleton.mpr fun _ => unpadded

theorem not_readable_longVersion : ¬ longVersion.Readable := by
  intro readable
  have numeric : isNumeric longIdentifier = true := isNumeric_iff.mpr (isRun_longIdentifier (by decide))
  have short := readable.comparable longIdentifier List.mem_cons_self numeric
  rw [toList_longIdentifier, List.length_replicate] at short
  omega

end ExprRegistry.Version

namespace ExprRegistry.Requirement

open Version (Spelling)

theorem ofText_eq_ok_iff_spelled {t : String} {req : Requirement} :
    ofText t = .ok req ↔ ∃ (op : Operator) (spelling : Spelling),
      Asks (Text.strip t).toList op spelling.parts ∧ spelling.Readable ∧
        req = ⟨Text.strip t, op, spelling.version, if spelling.patch.isSome then 3 else 2⟩ := by
  rw [ofText_eq_ok_iff, Text.strip, String.toList_ofList]
  constructor
  · rintro ⟨op, parts, asks, regular, sound, rfl⟩
    obtain ⟨spelling, readable, rfl⟩ := Spelling.exists_spelling regular sound
    refine ⟨op, spelling, asks, readable, ?_⟩
    rw [asked, readable.value_parts]
    rfl
  · rintro ⟨op, spelling, asks, readable, rfl⟩
    refine ⟨op, spelling.parts, asks, readable.toRegular.parts, readable.sound_parts_iff.mpr readable, ?_⟩
    rw [asked, readable.value_parts]
    rfl

/-- A text is read as a requirement exactly when it is one of the grammar, and is refused otherwise. What is read is
the operator, the numbers and identifiers that are spelled, how many numbers there are, and the text. -/
theorem ofText_iff_spelled (t : String) :
    (∀ req, ofText t = .ok req ↔ ∃ (op : Operator) (spelling : Spelling),
      Asks (Text.strip t).toList op spelling.parts ∧ spelling.Readable ∧
        req = ⟨Text.strip t, op, spelling.version, if spelling.patch.isSome then 3 else 2⟩) ∧
    ((∃ d, ofText t = .error ⟨t, d⟩) ↔ ¬ ∃ (op : Operator) (spelling : Spelling),
      Asks (Text.strip t).toList op spelling.parts ∧ spelling.Readable) := by
  refine ⟨fun req => ofText_eq_ok_iff_spelled, ?_⟩
  constructor
  · rintro ⟨d, refused⟩ ⟨op, spelling, asks, readable⟩
    cases refused.symm.trans (ofText_eq_ok_iff_spelled.mpr ⟨op, spelling, asks, readable, rfl⟩)
  · intro none
    cases read : ofText t with
    | ok req =>
        obtain ⟨op, spelling, asks, readable, -⟩ := ofText_eq_ok_iff_spelled.mp read
        exact absurd ⟨op, spelling, asks, readable⟩ none
    | error m =>
        have text : m.text = t := @ofJson_error (.str t) m read
        exact ⟨m.defect, by rw [← text]⟩

/-- A numeric identifier can be too long, though nothing else is wrong with the requirement. -/
theorem long_identifier_refused :
    Version.longVersion.Regular ∧
      Asks (Text.strip (">= 1.0.0-" ++ Version.longIdentifier)).toList .atLeast Version.longVersion.parts ∧
        ∀ req, ofText (">= 1.0.0-" ++ Version.longIdentifier) ≠ .ok req := by
  have regular := Version.longVersion_regular
  have asks : Asks (">= 1.0.0-" ++ Version.longIdentifier).toList .atLeast Version.longVersion.parts := by
    have written : (">= 1.0.0-" ++ Version.longIdentifier).toList =
        Operator.atLeast.sign.toList ++ ([' '] ++ Version.longVersion.parts.written) := by
      rw [String.toList_append, Version.parts_longVersion]
      generalize Version.longIdentifier.toList = digits
      simp [Version.Parts.written, Version.marked, Operator.sign]
    rw [written]
    exact .after .atLeast (List.forall_mem_singleton.mpr (by decide)) _
  have trimmed := trimBy_asks asks regular.parts
  refine ⟨regular, ?_, ?_⟩
  · rw [Text.strip, String.toList_ofList, trimmed]
    exact asks
  · intro req read
    obtain ⟨op, parts, asks', regular', sound, -⟩ := ofText_eq_ok_iff.mp read
    rw [trimmed] at asks'
    obtain ⟨-, rfl⟩ := asks.unique asks' regular.parts regular'
    exact Version.not_readable_longVersion (regular.sound_parts_iff.mp sound)

end ExprRegistry.Requirement
