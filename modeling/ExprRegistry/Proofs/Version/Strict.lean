import ExprRegistry.Proofs.Text.Blank

/-!
Which written versions are read. Parts make a version when their numbers are short enough and their identifiers
are in order; a released version has its patch written too, and no zero in front of a number. No character of
written parts is a blank, so the text of parts reads as the parts do. Main statement: `ofText?_of_written`.
-/

namespace ExprRegistry.Version

variable {digits : List Char} {s : String} {v : Version}

/-- More than a zero, and a zero in front. -/
def Padded (digits : List Char) : Prop := ∃ c rest, digits = '0' :: c :: rest

theorem hasLeadingZero_iff : hasLeadingZero digits = true ↔ Padded digits := by
  rw [hasLeadingZero.eq_def]
  split
  case h_1 c rest => exact ⟨fun _ => ⟨c, rest, rfl⟩, fun _ => rfl⟩
  case h_2 other =>
    refine ⟨nofun, ?_⟩
    rintro ⟨c, rest, rfl⟩
    exact absurd rfl (other c rest)

theorem number_eq_ok_iff {n : Nat} :
    number digits = .ok n ↔ digits.length ≤ Text.maxDigits ∧ n = Text.numberOf digits := by
  rw [number]
  split
  case isTrue long => exact ⟨nofun, fun h => absurd h.1 (Nat.not_le.mpr long)⟩
  case isFalse short =>
    constructor
    · rintro ⟨⟩
      exact ⟨Nat.not_lt.mp short, rfl⟩
    · rintro ⟨-, rfl⟩
      rfl

/-- What an identifier has to be: not empty and, where zeros in front are not allowed, no padded number. -/
def IsIdentifier (zerosAllowed : Bool) (identifier : String) : Prop :=
  identifier ≠ "" ∧ (zerosAllowed = false → isNumeric identifier = true → ¬ Padded identifier.toList)

theorem isIdentifier_iff {zerosAllowed : Bool} {identifier : String} :
    IsIdentifier zerosAllowed identifier ↔ identifier.isEmpty = false ∧
      (!zerosAllowed && isNumeric identifier && hasLeadingZero identifier.toList) = false := by
  rw [IsIdentifier, ← hasLeadingZero_iff, ne_eq, ← String.isEmpty_iff]
  cases zerosAllowed <;> cases isNumeric identifier <;> simp

theorem checkIdentifiers_eq_ok_iff {zerosAllowed : Bool} {all list : List String} :
    checkIdentifiers zerosAllowed all list = .ok () ↔ ∀ i ∈ list, IsIdentifier zerosAllowed i := by
  induction list with
  | nil => exact ⟨fun _ => List.forall_mem_nil _, fun _ => rfl⟩
  | cons i rest ih =>
      rw [checkIdentifiers, List.forall_mem_cons, isIdentifier_iff]
      split
      case isTrue empty => exact ⟨nofun, fun h => absurd empty (ne_true_of_eq_false h.1.1)⟩
      case isFalse something =>
        split
        case isTrue padded => exact ⟨nofun, fun h => absurd padded (ne_true_of_eq_false h.1.2)⟩
        case isFalse plain =>
          rw [ih]
          exact ⟨fun h => ⟨⟨eq_false_of_ne_true something, eq_false_of_ne_true plain⟩, h⟩, And.right⟩

theorem isNumeric_iff {identifier : String} :
    isNumeric identifier = true ↔ IsRun Text.isAsciiDigit identifier.toList := by
  rw [isNumeric, Bool.and_eq_true, Bool.not_eq_true', List.all_eq_true, ← Bool.not_eq_true, String.isEmpty_iff,
    ← String.toList_inj]
  exact Iff.rfl

/-- A numeric identifier has to be short enough to be compared as a number. -/
def IsComparable (identifier : String) : Prop :=
  isNumeric identifier = true → identifier.toList.length ≤ Text.maxDigits

theorem checkLengths_eq_ok_iff {list : List String} :
    checkLengths list = .ok () ↔ ∀ i ∈ list, IsComparable i := by
  induction list with
  | nil => exact ⟨fun _ => List.forall_mem_nil _, fun _ => rfl⟩
  | cons i rest ih =>
      rw [checkLengths, List.forall_mem_cons, IsComparable]
      split
      case isTrue long =>
        obtain ⟨numeric, long⟩ := Bool.and_eq_true_iff.mp long
        exact ⟨nofun, fun h => absurd (h.1 numeric) (Nat.not_le.mpr (of_decide_eq_true long))⟩
      case isFalse short =>
        rw [ih]
        refine ⟨fun h => ⟨fun numeric => Nat.not_lt.mp fun long => short ?_, h⟩, And.right⟩
        exact Bool.and_eq_true_iff.mpr ⟨numeric, decide_eq_true long⟩

/-! ### Parts that make a version -/

namespace Parts

variable {parts : Parts}

def value (parts : Parts) : Version :=
  ⟨Text.numberOf parts.major, Text.numberOf parts.minor, Text.numberOf (parts.patch.getD ['0']),
    identifiers parts.prerelease, identifiers parts.build⟩

/-- The numbers can be read, the identifiers are in order, and those that are numbers can be compared. -/
structure Sound (parts : Parts) : Prop where
  major : parts.major.length ≤ Text.maxDigits
  minor : parts.minor.length ≤ Text.maxDigits
  patch : (parts.patch.getD ['0']).length ≤ Text.maxDigits
  prerelease : ∀ i ∈ identifiers parts.prerelease, IsIdentifier false i
  build : ∀ i ∈ identifiers parts.build, IsIdentifier true i
  comparable : ∀ i ∈ identifiers parts.prerelease ++ identifiers parts.build, IsComparable i

/-- The parts of a released version: three numbers, none with a zero in front. -/
structure Strict (parts : Parts) : Prop extends Sound parts where
  patched : parts.patch.isSome = true
  majorPlain : ¬ Padded parts.major
  minorPlain : ¬ Padded parts.minor
  patchPlain : ∀ digits ∈ parts.patch, ¬ Padded digits

theorem version_eq_ok_iff : parts.version = .ok v ↔ parts.Sound ∧ v = parts.value := by
  constructor
  · intro h
    rw [version] at h
    split at h
    case h_1 => cases h
    case h_2 major readMajor =>
      split at h
      case h_1 => cases h
      case h_2 minor readMinor =>
        split at h
        case h_1 => cases h
        case h_2 patch readPatch =>
          dsimp only at h
          split at h
          case h_1 => cases h
          case h_2 prerelease =>
            split at h
            case h_1 => cases h
            case h_2 build =>
              split at h
              case h_1 => cases h
              case h_2 comparable =>
                obtain ⟨shortMajor, rfl⟩ := number_eq_ok_iff.mp readMajor
                obtain ⟨shortMinor, rfl⟩ := number_eq_ok_iff.mp readMinor
                obtain ⟨shortPatch, rfl⟩ := number_eq_ok_iff.mp readPatch
                cases h
                exact ⟨⟨shortMajor, shortMinor, shortPatch, checkIdentifiers_eq_ok_iff.mp prerelease,
                  checkIdentifiers_eq_ok_iff.mp build, checkLengths_eq_ok_iff.mp comparable⟩, rfl⟩
  · rintro ⟨sound, rfl⟩
    simp only [version, number_eq_ok_iff.mpr ⟨sound.major, rfl⟩, number_eq_ok_iff.mpr ⟨sound.minor, rfl⟩,
      number_eq_ok_iff.mpr ⟨sound.patch, rfl⟩, checkIdentifiers_eq_ok_iff.mpr sound.prerelease,
      checkIdentifiers_eq_ok_iff.mpr sound.build, checkLengths_eq_ok_iff.mpr sound.comparable]
    rfl

end Parts

theorem ofText?_eq_some_iff :
    ofText? s = some v ↔ ∃ parts, Parts.split? (Text.trimBy Text.isBlank s.toList) = some parts ∧
      parts.Strict ∧ v = parts.value := by
  rw [ofText?]
  cases Parts.split? (Text.trimBy Text.isBlank s.toList) with
  | none => exact ⟨nofun, nofun⟩
  | some parts =>
      constructor
      · intro h
        dsimp only at h
        split at h
        case h_1 => cases h
        case h_2 patch patched =>
          split at h
          case isTrue => cases h
          case isFalse plain =>
            simp only [Bool.or_eq_true, hasLeadingZero_iff, not_or] at plain
            obtain ⟨⟨major, minor⟩, patchPlain⟩ := plain
            cases read : parts.version with
            | error d =>
                rw [read] at h
                cases h
            | ok w =>
                rw [read] at h
                cases h
                obtain ⟨sound, rfl⟩ := Parts.version_eq_ok_iff.mp read
                refine ⟨parts, rfl, ⟨sound, Option.isSome_of_eq_some patched, major, minor, ?_⟩, rfl⟩
                intro digits found
                cases found.symm.trans patched
                exact patchPlain
      · rintro ⟨_, ⟨⟩, strict, rfl⟩
        obtain ⟨patch, patched⟩ := Option.isSome_iff_exists.mp strict.patched
        have plain : ¬ (hasLeadingZero parts.major || hasLeadingZero parts.minor || hasLeadingZero patch) = true := by
          simp only [Bool.or_eq_true, hasLeadingZero_iff, not_or]
          exact ⟨⟨strict.majorPlain, strict.minorPlain⟩, strict.patchPlain patch patched⟩
        have read := Parts.version_eq_ok_iff.mpr ⟨strict.toSound, rfl⟩
        simp only [patched, if_neg plain, read]
        rfl

/-! ### The text of parts -/

variable {parts : Parts}

theorem isBlank_of_mem_marked {mark : Char} {p : Char → Bool} {content : Option (List Char)}
    (regular : ∀ cs ∈ content, IsRun p cs) (kind : ∀ c, p c = true → Text.isBlank c = false)
    (visible : Text.isBlank mark = false) : ∀ c ∈ marked mark content, Text.isBlank c = false := by
  cases content with
  | none => exact List.forall_mem_nil _
  | some cs => exact List.forall_mem_cons.mpr ⟨visible, fun c member => kind c ((regular cs rfl).2 c member)⟩

theorem isBlank_of_mem_written (regular : parts.Regular) : ∀ c ∈ parts.written, Text.isBlank c = false := by
  have digit : ∀ c, Text.isDigit c = true → Text.isBlank c = false := fun c => Text.isBlank_of_isDigit
  have word : ∀ c, isIdentifierChar c = true → Text.isBlank c = false :=
    fun c => Text.isBlank_of_isIdentifierChar
  simp only [Parts.written, List.forall_mem_append, List.forall_mem_cons]
  refine ⟨fun c member => digit c (regular.major.2 c member), rfl,
    fun c member => digit c (regular.minor.2 c member), ?_, ?_, ?_⟩
  · exact isBlank_of_mem_marked regular.patch digit rfl
  · exact isBlank_of_mem_marked regular.prerelease word rfl
  · exact isBlank_of_mem_marked regular.build word rfl

theorem stops_written (regular : parts.Regular) :
    Stops Text.isBlank parts.written ∧ Stops Text.isBlank parts.written.reverse := by
  have plain := isBlank_of_mem_written regular
  constructor
  · intro c head
    exact plain c (List.mem_of_mem_head? head)
  · intro c head
    exact plain c (List.mem_reverse.mp (List.mem_of_mem_head? head))

theorem Parts.exists_written_cons (regular : parts.Regular) :
    ∃ c rest, parts.written = c :: rest ∧ Text.isDigit c = true := by
  obtain ⟨c, rest, front⟩ := List.exists_cons_of_ne_nil regular.major.1
  refine ⟨c, _, by rw [Parts.written, front, List.cons_append], regular.major.2 c ?_⟩
  rw [front]
  exact List.mem_cons_self

theorem ofText?_of_written (regular : parts.Regular) (written : s.toList = parts.written) :
    ofText? s = some v ↔ parts.Strict ∧ v = parts.value := by
  have split := Parts.split?_written regular
  rw [ofText?_eq_some_iff, written, Text.trimBy_eq_self (isBlank_of_mem_written regular), split]
  constructor
  · rintro ⟨_, ⟨⟩, strict⟩
    exact strict
  · exact fun strict => ⟨parts, rfl, strict⟩

end ExprRegistry.Version
