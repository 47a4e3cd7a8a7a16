import ExprRegistry.Proofs.Text.Digits
import ExprRegistry.Proofs.Version.Asking
import ExprRegistry.Proofs.Version.Select

/-!
Requirements and the order of versions. Two versions that are read have the same precedence only when nothing but
their build metadata differs, so of a version that comes before, at or after another one each operator tells which.
Main statements: `comparison_coherent`, on what the operators answer, and `release_meets_itself`, on the requirements
that a released version writes itself.
-/

namespace ExprRegistry.Version

open Std

variable {a b : String} {as bs : List String} {v w : Version}

/-- An identifier that is no number with zeros in front. -/
def Unpadded (identifier : String) : Prop := isNumeric identifier = true → ¬ Padded identifier.toList

theorem exists_digits (h : isNumeric a = true) :
    ∃ c cs, a.toList = c :: cs ∧ ∀ d ∈ c :: cs, Text.isAsciiDigit d = true := by
  obtain ⟨some, digits⟩ := isNumeric_iff.mp h
  obtain ⟨c, cs, chars⟩ := List.exists_cons_of_ne_nil some
  rw [chars] at digits
  exact ⟨c, cs, chars, digits⟩

/-- Numbers that are not padded have one spelling, so identifiers are equal in the order only when they are equal. -/
theorem compareIdentifiers_eq_iff (unpadded : Unpadded a) (unpadded' : Unpadded b) :
    compareIdentifiers a b = .eq ↔ a = b := by
  have plain {s : String} {c : Char} {cs : List Char} (h : ¬ Padded s.toList) (chars : s.toList = c :: cs) :
      c = '0' → cs = [] := by
    rintro rfl
    by_contra more
    obtain ⟨d, ds, rfl⟩ := List.exists_cons_of_ne_nil more
    exact h ⟨d, ds, chars⟩
  constructor
  · intro same
    cases numeric : isNumeric a <;> cases numeric' : isNumeric b <;>
      simp only [compareIdentifiers, numeric, numeric'] at same
    case false.false => exact LawfulEqCmp.eq_of_compare same
    case false.true => cases same
    case true.false => cases same
    case true.true =>
      obtain ⟨c, cs, chars, digits⟩ := exists_digits numeric
      obtain ⟨d, ds, chars', digits'⟩ := exists_digits numeric'
      have value := Nat.compare_eq_eq.mp same
      rw [chars, chars'] at value
      have spelled := Text.numberOf_injective digits (plain (unpadded numeric) chars) digits'
        (plain (unpadded' numeric') chars') value
      rw [← String.toList_inj, chars, chars', spelled]
  · rintro rfl
    exact ReflCmp.compare_self

theorem compareLists_eq_iff (unpadded : ∀ i ∈ as, Unpadded i) (unpadded' : ∀ i ∈ bs, Unpadded i) :
    compareLists as bs = .eq ↔ as = bs := by
  induction as generalizing bs with
  | nil => cases bs <;> simp [compareLists]
  | cons a as ih =>
      cases bs with
      | nil => simp [compareLists]
      | cons b bs =>
          obtain ⟨first, rest⟩ := List.forall_mem_cons.mp unpadded
          obtain ⟨first', rest'⟩ := List.forall_mem_cons.mp unpadded'
          rw [compareLists, Ordering.then_eq_eq, compareIdentifiers_eq_iff first first', ih rest rest',
            List.cons.injEq]

theorem comparePrereleases_eq_iff (unpadded : ∀ i ∈ as, Unpadded i) (unpadded' : ∀ i ∈ bs, Unpadded i) :
    comparePrereleases as bs = .eq ↔ as = bs := by
  cases as with
  | nil => cases bs <;> simp [comparePrereleases]
  | cons a as =>
      cases bs with
      | nil => simp [comparePrereleases]
      | cons b bs => exact compareLists_eq_iff unpadded unpadded'

/-- Versions without padded identifiers have the same precedence only when nothing but their build metadata differs. -/
theorem precedence_eq_iff (unpadded : ∀ i ∈ v.prerelease, Unpadded i)
    (unpadded' : ∀ i ∈ w.prerelease, Unpadded i) : v.precedence w = .eq ↔ v.withoutBuild = w.withoutBuild := by
  simp only [precedence, Ordering.then_eq_eq, Nat.compare_eq_eq, comparePrereleases_eq_iff unpadded unpadded',
    withoutBuild, Version.mk.injEq, and_true]

theorem precedence_eq_lt_iff :
    v.precedence w = .lt ↔ v.major < w.major ∨ v.major = w.major ∧ (v.minor < w.minor ∨ v.minor = w.minor ∧
      (v.patch < w.patch ∨ v.patch = w.patch ∧ comparePrereleases v.prerelease w.prerelease = .lt)) := by
  simp only [precedence, Ordering.then_eq_lt, Nat.compare_eq_lt, Nat.compare_eq_eq]

theorem not_before_iff : (v.precedence w != .lt) = true ↔ (w.precedence v).isLE := by
  rw [bne_iff_ne, ← OrientedCmp.isGE_iff_isLE, Ordering.isGE_iff_ne_lt]

theorem not_after_iff : (v.precedence w != .gt) = true ↔ (v.precedence w).isLE := by
  rw [bne_iff_ne, Ordering.isLE_iff_ne_gt]

/-- The numbers of a version that does not come before another one. -/
theorem numbers_of_isLE (h : (v.precedence w).isLE) :
    v.major ≤ w.major ∧ (v.major = w.major → v.minor ≤ w.minor) := by
  have early : ¬ w.precedence v = .lt := by
    rw [← OrientedCmp.gt_iff_lt]
    exact Ordering.isLE_iff_ne_gt.mp h
  rw [precedence_eq_lt_iff] at early
  constructor
  · by_contra above
    exact early (.inl (Nat.not_le.mp above))
  · intro same
    by_contra above
    exact early (.inr ⟨same.symm, .inl (Nat.not_le.mp above)⟩)

theorem precedence_congr {v' w' : Version} (same : v.withoutBuild = v'.withoutBuild)
    (same' : w.withoutBuild = w'.withoutBuild) : v.precedence w = v'.precedence w' := by
  have apart (x y : Version) : x.precedence y = x.withoutBuild.precedence y.withoutBuild := rfl
  rw [apart v w, same, same', ← apart]

theorem unpadded_value {parts : Parts} (sound : parts.Sound) : ∀ i ∈ parts.value.prerelease, Unpadded i :=
  fun i member => (sound.prerelease i member).2 rfl

theorem exists_strict_of_ofText? {s : String} (read : ofText? s = some v) :
    ∃ parts : Parts, parts.Regular ∧ parts.Strict ∧ Text.trimBy Text.isBlank s.toList = parts.written ∧
      v = parts.value := by
  obtain ⟨parts, split, strict, same⟩ := ofText?_eq_some_iff.mp read
  obtain ⟨regular, written⟩ := Parts.split?_eq_some_iff.mp split
  exact ⟨parts, regular, strict, written, same⟩

end ExprRegistry.Version

namespace ExprRegistry.Requirement

open Std
open Version (Parts)

variable {s r : String} {v w : Version} {req req' : Requirement} {op : Operator} {parts : Parts}

/-! ### What a requirement answers -/

theorem exists_parts_of_ofText (read : ofText s = .ok req) :
    ∃ parts : Parts, parts.Sound ∧ req.version = parts.value := by
  obtain ⟨op, parts, -, -, sound, rfl⟩ := ofText_eq_ok_iff.mp read
  exact ⟨parts, sound, rfl⟩

theorem exists_parts_of_ofText? (read : Version.ofText? s = some v) :
    ∃ parts : Parts, parts.Sound ∧ v = parts.value := by
  obtain ⟨parts, -, strict, -, same⟩ := Version.exists_strict_of_ofText? read
  exact ⟨parts, strict.toSound, same⟩

/-- Build metadata has no say, neither that of the version nor that of the requirement. -/
theorem admits_congr (operator : req.operator = req'.operator)
    (required : req.version.withoutBuild = req'.version.withoutBuild) (same : v.withoutBuild = w.withoutBuild) :
    req.admits v = req'.admits w := by
  have order := Version.precedence_congr same required
  have range : inRange req.version v = inRange req'.version w := by
    obtain ⟨major, minor, -⟩ := Version.mk.inj same
    obtain ⟨major', minor', patch', -⟩ := Version.mk.inj required
    rw [inRange, inRange, major, minor, major', minor', patch']
  simp only [admits, operator, order, range, same, required]

theorem inRange_between {a b c : Version} (low : (a.precedence b).isLE) (high : (b.precedence c).isLE)
    (first : inRange w a = true) (last : inRange w c = true) : inRange w b = true := by
  obtain ⟨major, minor⟩ := Version.numbers_of_isLE low
  obtain ⟨major', minor'⟩ := Version.numbers_of_isLE high
  simp only [inRange, Bool.and_eq_true, Bool.or_eq_true, beq_iff_eq] at first last ⊢
  omega

/-- Between versions that meet a requirement there are only such versions. -/
theorem admits_between {a b c : Version} (low : (a.precedence b).isLE) (high : (b.precedence c).isLE)
    (unpadded : ∀ i ∈ b.prerelease, Version.Unpadded i)
    (required : ∀ i ∈ req.version.prerelease, Version.Unpadded i)
    (first : req.admits a = true) (last : req.admits c = true) : req.admits b = true := by
  cases operator : req.operator with
  | compatible =>
      simp only [admits, operator, Bool.and_eq_true, Version.not_before_iff] at first last ⊢
      exact ⟨TransCmp.isLE_trans first.1 low, inRange_between low high first.2 last.2⟩
  | atLeast =>
      simp only [admits, operator, Version.not_before_iff] at first ⊢
      exact TransCmp.isLE_trans first low
  | above =>
      simp only [admits, operator, beq_iff_eq, OrientedCmp.gt_iff_lt] at first ⊢
      exact TransCmp.lt_of_lt_of_isLE first low
  | atMost =>
      simp only [admits, operator, Version.not_after_iff] at last ⊢
      exact TransCmp.isLE_trans high last
  | below =>
      simp only [admits, operator, beq_iff_eq] at last ⊢
      exact TransCmp.lt_of_isLE_of_lt high last
  | exactly =>
      simp only [admits, operator, decide_eq_true_eq] at first last ⊢
      rw [← Version.precedence_eq_iff unpadded required]
      apply OrientedCmp.isLE_antisymm
      · rw [Version.precedence_congr rfl last.symm]
        exact high
      · rw [Version.precedence_congr first.symm rfl]
        exact low

/-! ### The six operators with one version -/

/-- The answers of the six operators are those of an order: a candidate stands before, at or after the version. -/
structure Coherent (answer : Operator → Bool) : Prop where
  one : [answer .below, answer .exactly, answer .above].count true = 1
  atMost : answer .atMost = (answer .below || answer .exactly)
  atLeast : answer .atLeast = (answer .above || answer .exactly)

theorem coherent_admits (unpadded : ∀ i ∈ v.prerelease, Version.Unpadded i)
    (required : ∀ i ∈ parts.value.prerelease, Version.Unpadded i) :
    Coherent fun op => (asked "" op parts).admits v := by
  have exactly : (asked "" .exactly parts).admits v = (v.precedence parts.value == .eq) := by
    have same := Version.precedence_eq_iff unpadded required
    rw [Bool.eq_iff_iff, beq_iff_eq, same]
    exact decide_eq_true_iff
  constructor
  all_goals
    rw [exactly]
    simp only [admits, asked]
    cases v.precedence parts.value <;> rfl

/-- What the requirement of an operator and the text of a version answers on a candidate, whatever blanks stand
between the two. -/
def Answers (op : Operator) (r s : String) (answer : Bool) : Prop :=
  ∀ gap, Text.isBlankText gap = true →
    ∃ req, ofText (op.sign ++ gap ++ r) = .ok req ∧ req.admitsJson (.str s) = answer

theorem ofText_sign_of_trimBy (op : Operator) {gap : String} (blank : Text.isBlankText gap = true)
    (regular : parts.Regular) (sound : parts.Sound) (written : Text.trimBy Text.isBlank r.toList = parts.written) :
    ∃ text, ofText (op.sign ++ gap ++ r) = .ok (asked text op parts) := by
  have blanks : ∀ c ∈ gap.toList, Text.isBlank c = true := List.all_eq_true.mp blank
  have same : (op.sign ++ gap ++ r).toList = op.sign.toList ++ (gap.toList ++ r.toList) := by
    rw [String.toList_append, String.toList_append, List.append_assoc]
  have trimmed := (Text.trimBy_blanks_append blanks r.toList).trans written
  have free := ends_of_stops op (stops_of_trimBy regular trimmed)
  exact ⟨_, (ofText_sign_eq_ok_iff same free).mpr ⟨parts, regular, sound, trimmed, rfl⟩⟩

theorem answers_of_trimBy (op : Operator) (read : Version.ofText? s = some v) (regular : parts.Regular)
    (sound : parts.Sound) (written : Text.trimBy Text.isBlank r.toList = parts.written) :
    Answers op r s ((asked "" op parts).admits v) := by
  intro gap blank
  obtain ⟨text, required⟩ := ofText_sign_of_trimBy op blank regular sound written
  refine ⟨_, required, ?_⟩
  rw [admitsJson_str, read]
  rfl

/-- The text of a version that is required with one operator. -/
theorem exists_parts_of_sign (parsed : ofText (op.sign ++ " " ++ r) = .ok req) :
    ∃ parts : Parts, parts.Regular ∧ parts.Sound ∧ Text.trimBy Text.isBlank r.toList = parts.written ∧
      req.version = parts.value := by
  have same : (op.sign ++ " " ++ r).toList = op.sign.toList ++ ([' '] ++ r.toList) := by
    rw [String.toList_append, String.toList_append, List.append_assoc]
    rfl
  have free : Ends op ([' '] ++ r.toList) := ends_of_stops op (Version.stops_cons (by decide))
  obtain ⟨parts, regular, sound, written, rfl⟩ := (ofText_sign_eq_ok_iff same free).mp parsed
  rw [Text.trimBy_blanks_append (List.forall_mem_singleton.mpr (by decide))] at written
  exact ⟨parts, regular, sound, written, rfl⟩

/-- With the text of a version, each operator makes a requirement, and on a version that is read their answers are
those of an order. They are the same for every two texts that differ in build metadata only. What meets a
requirement has no gaps: a version between two that meet it meets it too. -/
theorem comparison_coherent (read : Version.ofText? s = some v) (parsed : ofText (op.sign ++ " " ++ r) = .ok req) :
    ∃ answer : Operator → Bool, (∀ op, Answers op r s (answer op)) ∧ Coherent answer ∧
      (∀ (s' r' : String) (v' : Version) (op' : Operator) (req' : Requirement),
        Version.ofText? s' = some v' → v'.withoutBuild = v.withoutBuild →
          ofText (op'.sign ++ " " ++ r') = .ok req' → req'.version.withoutBuild = req.version.withoutBuild →
            ∀ op, Answers op r' s' (answer op)) ∧
      ∀ (t b c : String) (req : Requirement) (vb vc : Version),
        ofText t = .ok req → Version.ofText? b = some vb → Version.ofText? c = some vc →
          (v.precedence vb).isLE → (vb.precedence vc).isLE →
            req.admitsJson (.str s) = true → req.admitsJson (.str c) = true → req.admitsJson (.str b) = true := by
  obtain ⟨parts, regular, sound, written, required⟩ := exists_parts_of_sign parsed
  obtain ⟨parts', sound', rfl⟩ := exists_parts_of_ofText? read
  refine ⟨fun op => (asked "" op parts).admits parts'.value, ?_, ?_, ?_, ?_⟩
  · intro op
    exact answers_of_trimBy op read regular sound written
  · exact coherent_admits (Version.unpadded_value sound') (Version.unpadded_value sound)
  · intro s' r' v' op' req' read' same parsed' same' op
    obtain ⟨other, regular', sound', written', required'⟩ := exists_parts_of_sign parsed'
    rw [required, required'] at same'
    have equal : (asked "" op parts).admits parts'.value = (asked "" op other).admits v' :=
      admits_congr rfl same'.symm same.symm
    change Answers op r' s' ((asked "" op parts).admits parts'.value)
    rw [equal]
    exact answers_of_trimBy op read' regular' sound' written'
  · intro t b c req vb vc asks readb readc low high first last
    obtain ⟨other, soundt, value⟩ := exists_parts_of_ofText asks
    obtain ⟨between, soundb, rfl⟩ := exists_parts_of_ofText? readb
    rw [admitsJson_str, read] at first
    rw [admitsJson_str, readc] at last
    rw [admitsJson_str, readb]
    refine admits_between low high (Version.unpadded_value soundb) ?_ first last
    rw [value]
    exact Version.unpadded_value soundt

theorem comparison_coherent_candidate :
    Version.ofText? "1.0.0-rc.1+b.05" = some ⟨1, 0, 0, ["rc", "1"], ["b", "05"]⟩ ∧
      ofText (Operator.below.sign ++ " " ++ "1.0.0-rc.1") =
          .ok ⟨"< 1.0.0-rc.1", .below, ⟨1, 0, 0, ["rc", "1"], []⟩, 3⟩ ∧
        ∃ answer : Operator → Bool,
          (∀ op, Answers op "1.0.0-rc.1" "1.0.0-rc.1+b.05" (answer op)) ∧ Coherent answer := by
  have read : Version.ofText? "1.0.0-rc.1+b.05" = some ⟨1, 0, 0, ["rc", "1"], ["b", "05"]⟩ := by decide
  have parsed : ofText (Operator.below.sign ++ " " ++ "1.0.0-rc.1") =
      .ok ⟨"< 1.0.0-rc.1", .below, ⟨1, 0, 0, ["rc", "1"], []⟩, 3⟩ := by decide
  obtain ⟨answer, answers, coherent, -⟩ := comparison_coherent read parsed
  exact ⟨read, parsed, answer, answers, coherent⟩

/-! ### Released versions as requirements -/

theorem admits_itself (op : Operator) (text : String) (parts : Parts) :
    (asked text op parts).admits parts.value = true ↔ op ∈ [.exactly, .atLeast, .atMost, .compatible] := by
  have order : parts.value.precedence parts.value = .eq := ReflCmp.compare_self
  have range : inRange parts.value parts.value = true := by simp [inRange]
  cases op <;> simp [admits, asked, order, range]

/-- What is read as a released version is read as the same version in a requirement, alone and behind every operator,
and it meets those of the requirements that admit equality. -/
theorem release_meets_itself (read : Version.ofText? s = some w) :
    (∃ req, ofText s = .ok req ∧ req.operator = .exactly ∧ req.version = w ∧ req.precision = 3) ∧
      ∀ op : Operator, ∃ req, ofText (op.sign ++ s) = .ok req ∧ req.operator = op ∧ req.version = w ∧
        req.precision = 3 ∧
          (req.admitsJson (.str s) = true ↔ op ∈ [.exactly, .atLeast, .atMost, .compatible]) := by
  obtain ⟨parts, regular, strict, written, rfl⟩ := Version.exists_strict_of_ofText? read
  have three : (if parts.patch.isSome then 3 else 2) = 3 := if_pos strict.patched
  constructor
  · have alone : Asks (Text.trimBy Text.isBlank s.toList) .exactly parts := written ▸ .alone strict.patched
    exact ⟨_, ofText_eq_ok_iff.mpr ⟨_, _, alone, regular, strict.toSound, rfl⟩, rfl, rfl, three⟩
  · intro op
    have empty : Text.isBlankText "" = true := rfl
    obtain ⟨text, required⟩ := ofText_sign_of_trimBy op empty regular strict.toSound written
    rw [String.append_empty] at required
    refine ⟨_, required, rfl, rfl, three, ?_⟩
    rw [admitsJson_str, read]
    exact admits_itself op text parts

theorem release_meets_itself_candidate :
    Version.ofText? " 1.0.0-rc.1+b.05" = some ⟨1, 0, 0, ["rc", "1"], ["b", "05"]⟩ ∧
      ∃ req, ofText (Operator.compatible.sign ++ " 1.0.0-rc.1+b.05") = .ok req ∧
        req.version = ⟨1, 0, 0, ["rc", "1"], ["b", "05"]⟩ ∧ req.admitsJson (.str " 1.0.0-rc.1+b.05") = true := by
  have read : Version.ofText? " 1.0.0-rc.1+b.05" = some ⟨1, 0, 0, ["rc", "1"], ["b", "05"]⟩ := by decide
  obtain ⟨req, asks, -, version, -, meets⟩ := (release_meets_itself read).2 .compatible
  exact ⟨read, req, asks, version, meets.mpr (by decide)⟩

end ExprRegistry.Requirement
