import ExprRegistry.Proofs.Version.Comparison

/-!
The range of the compatible operator. It begins with the required version and ends before the next major or the next
minor. The prereleases of the version at its end come before that version and are out of the range all the same.
Main statement: `compatible_iff_between`.
-/

namespace ExprRegistry.Version

open Requirement (inRange)

variable {u v w : Version}

/-- The first release after those that are compatible with a version. -/
def upperEnd (w : Version) : Version :=
  if w.minor = 0 ∧ w.patch = 0 then ⟨w.major + 1, 0, 0, [], []⟩ else ⟨w.major, w.minor + 1, 0, [], []⟩

/-- A prerelease of a version has its numbers. -/
structure IsPrereleaseOf (v u : Version) : Prop where
  prerelease : v.prerelease ≠ []
  major : v.major = u.major
  minor : v.minor = u.minor
  patch : v.patch = u.patch

theorem upperEnd_eq (w : Version) :
    upperEnd w = ⟨(upperEnd w).major, (upperEnd w).minor, (upperEnd w).patch, [], []⟩ := by
  unfold upperEnd
  split <;> rfl

/-- What comes before a release has lower numbers, or is one of its prereleases. -/
theorem before_release_iff (released : u.prerelease = []) :
    v.precedence u = .lt ∧ ¬ v.IsPrereleaseOf u ↔
      v.major < u.major ∨ v.major = u.major ∧ (v.minor < u.minor ∨ v.minor = u.minor ∧ v.patch < u.patch) := by
  rw [precedence_eq_lt_iff, released]
  constructor
  · rintro ⟨major | ⟨major, minor | ⟨minor, patch | ⟨patch, early⟩⟩⟩, other⟩
    · exact .inl major
    · exact .inr ⟨major, .inl minor⟩
    · exact .inr ⟨major, .inr ⟨minor, patch⟩⟩
    · have some : v.prerelease ≠ [] := by
        intro none
        rw [none] at early
        cases early
      exact absurd ⟨some, major, minor, patch⟩ other
  · intro lower
    constructor
    · rcases lower with major | ⟨major, minor | ⟨minor, patch⟩⟩
      · exact .inl major
      · exact .inr ⟨major, .inl minor⟩
      · exact .inr ⟨major, .inr ⟨minor, .inl patch⟩⟩
    · intro same
      have major := same.major
      have minor := same.minor
      have patch := same.patch
      omega

/-- From the required version on, the numbers are in range up to the end, whose prereleases have its numbers. -/
theorem inRange_iff_before_upperEnd (low : (w.precedence v).isLE) :
    inRange w v = true ↔ v.precedence w.upperEnd = .lt ∧ ¬ v.IsPrereleaseOf w.upperEnd := by
  have released : w.upperEnd.prerelease = [] := by rw [upperEnd_eq]
  obtain ⟨major, minor⟩ := numbers_of_isLE low
  rw [before_release_iff released, inRange, upperEnd]
  simp only [Bool.and_eq_true, Bool.or_eq_true, beq_iff_eq]
  split
  case isTrue whole =>
    dsimp only
    omega
  case isFalse other =>
    dsimp only
    omega

/-! ### Releases as text -/

/-- The numbers of a version can be read back. -/
def Legible (v : Version) : Prop := ∀ n ∈ [v.major, v.minor, v.patch], (toString n).length ≤ Text.maxDigits

namespace Parts

/-- The parts of the release with three numbers. -/
def ofNumbers (major minor patch : Nat) : Parts :=
  ⟨Nat.toDigits 10 major, Nat.toDigits 10 minor, some (Nat.toDigits 10 patch), none, none⟩

variable {major minor patch : Nat}

theorem value_ofNumbers : (ofNumbers major minor patch).value = ⟨major, minor, patch, [], []⟩ := by
  simp only [value, ofNumbers, Option.getD_some, Text.numberOf_toDigits, identifiers]

theorem toList_text : (text ⟨major, minor, patch, [], []⟩).toList = (ofNumbers major minor patch).written := by
  have whole : text ⟨major, minor, patch, [], []⟩ =
      toString major ++ "." ++ (toString minor ++ "." ++ toString patch) ++ "" ++ "" := by
    rw [text, String.intercalate_cons_of_ne_nil (by simp), String.intercalate_cons_of_ne_nil (by simp),
      String.intercalate_singleton]
    rfl
  rw [whole, String.append_empty, String.append_empty]
  simp only [String.toList_append, Text.toList_toString]
  simp [written, ofNumbers, marked]

theorem regular_ofNumbers : (ofNumbers major minor patch).Regular := by
  have run (n : Nat) : IsRun Text.isDigit (Nat.toDigits 10 n) :=
    ⟨Nat.toDigits_ne_nil, fun c member => Text.isDigit_of_isAsciiDigit (Text.isAsciiDigit_of_mem_toDigits c member)⟩
  exact ⟨run major, run minor, fun _ same => Option.some.inj same ▸ run patch, nofun, nofun⟩

theorem sound_ofNumbers (legible : Legible ⟨major, minor, patch, [], []⟩) :
    (ofNumbers major minor patch).Sound := by
  have short {n : Nat} (member : n ∈ [major, minor, patch]) : (Nat.toDigits 10 n).length ≤ Text.maxDigits := by
    have fits := legible n member
    rwa [← String.length_toList, Text.toList_toString] at fits
  exact ⟨short (by simp), short (by simp), short (by simp), nofun, nofun, nofun⟩

end Parts

end ExprRegistry.Version

namespace ExprRegistry.Requirement

open Version (Parts)

variable {s r : String} {v : Version} {req : Requirement}

/-- The text of a release asks for the release. -/
theorem answers_text (op : Operator) {major minor patch : Nat}
    (legible : Version.Legible ⟨major, minor, patch, [], []⟩) (read : Version.ofText? s = some v) :
    Answers op (Version.text ⟨major, minor, patch, [], []⟩) s
      ((asked "" op (Parts.ofNumbers major minor patch)).admits v) := by
  have regular : (Parts.ofNumbers major minor patch).Regular := Parts.regular_ofNumbers
  apply answers_of_trimBy op read regular (Parts.sound_ofNumbers legible)
  rw [Parts.toList_text]
  exact Text.trimBy_eq_self (Version.isBlank_of_mem_written regular)

/-- A version meets a compatible requirement when it is at least the required version, comes before the end of the
range, and is no prerelease of the end. -/
theorem compatible_iff_between (read : Version.ofText? s = some v)
    (parsed : ofText (Operator.compatible.sign ++ " " ++ r) = .ok req) :
    ∃ within low high : Bool, Answers .compatible r s within ∧ Answers .atLeast r s low ∧
      (req.version.upperEnd.Legible → Answers .below req.version.upperEnd.text s high) ∧
      (high = true ↔ v.precedence req.version.upperEnd = .lt) ∧
      (within = true ↔ low = true ∧ high = true ∧ ¬ v.IsPrereleaseOf req.version.upperEnd) := by
  obtain ⟨parts, regular, sound, written, required⟩ := exists_parts_of_sign parsed
  rw [required]
  have answers (op : Operator) := answers_of_trimBy op read regular sound written
  refine ⟨_, _, v.precedence parts.value.upperEnd == .lt, answers .compatible, answers .atLeast, ?_, ?_, ?_⟩
  · intro legible
    rw [Version.upperEnd_eq] at legible ⊢
    have asks := answers_text .below legible read
    rwa [admits, asked, Parts.value_ofNumbers] at asks
  · exact beq_iff_eq
  · change (v.precedence parts.value != .lt && inRange parts.value v) = true ↔
      (v.precedence parts.value != .lt) = true ∧ (v.precedence parts.value.upperEnd == .lt) = true ∧ _
    rw [Bool.and_eq_true, beq_iff_eq]
    apply and_congr_right
    intro low
    exact Version.inRange_iff_before_upperEnd (Version.not_before_iff.mp low)

theorem compatible_iff_between_minor :
    Version.ofText? "1.9.9" = some ⟨1, 9, 9, [], []⟩ ∧
      ofText (Operator.compatible.sign ++ " " ++ "1.0") = .ok ⟨"~> 1.0", .compatible, ⟨1, 0, 0, [], []⟩, 2⟩ ∧
        ∃ within low high : Bool, Answers .compatible "1.0" "1.9.9" within ∧ Answers .atLeast "1.0" "1.9.9" low ∧
          Answers .below "2.0.0" "1.9.9" high ∧
            (within = true ↔
              low = true ∧ high = true ∧ ¬ Version.IsPrereleaseOf ⟨1, 9, 9, [], []⟩ ⟨2, 0, 0, [], []⟩) := by
  have read : Version.ofText? "1.9.9" = some ⟨1, 9, 9, [], []⟩ := by decide
  have parsed : ofText (Operator.compatible.sign ++ " " ++ "1.0") =
      .ok ⟨"~> 1.0", .compatible, ⟨1, 0, 0, [], []⟩, 2⟩ := by decide
  have legible : Version.Legible ⟨2, 0, 0, [], []⟩ := by
    unfold Version.Legible
    decide
  obtain ⟨within, low, high, compatible, atLeast, below, -, between⟩ := compatible_iff_between read parsed
  exact ⟨read, parsed, within, low, high, compatible, atLeast, below legible, between⟩

/-- A prerelease of the end of the range lies between the two bounds and is not compatible. -/
theorem compatible_excludes_prerelease :
    ∃ compatible atLeast below : Requirement,
      ofText "~> 1.0" = .ok compatible ∧ ofText ">= 1.0" = .ok atLeast ∧ ofText "< 2.0.0" = .ok below ∧
        compatible.admitsJson (.str "2.0.0-alpha") = false ∧ atLeast.admitsJson (.str "2.0.0-alpha") = true ∧
          below.admitsJson (.str "2.0.0-alpha") = true := by
  refine ⟨⟨"~> 1.0", .compatible, ⟨1, 0, 0, [], []⟩, 2⟩, ⟨">= 1.0", .atLeast, ⟨1, 0, 0, [], []⟩, 2⟩,
    ⟨"< 2.0.0", .below, ⟨2, 0, 0, [], []⟩, 3⟩, ?_⟩
  decide

end ExprRegistry.Requirement
