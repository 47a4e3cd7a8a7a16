import ExprRegistry.Proofs.Json.Parts
import ExprRegistry.Settings.Layers

/-!
Applying a settings file. An entry reaches one setting only, the one of its key: null clears it, a value that can be
converted to its type is taken, and any other value leaves it as it was. Nothing but a number out of range ends the
run through the entries. Main statement: `applyConfig_outcome`.
-/

namespace ExprRegistry

/-- The types that settings have. -/
inductive SettingType where
  | text
  | integer
  | double

/-- The type of a setting. -/
def Setting.type : Setting → SettingType
  | apiUrl => .text
  | indexFile => .text
  | requestTimeout => .integer
  | retryMax => .integer
  | retryDelay => .double
  | cacheTtl => .integer

/-- Whether a value is of a type. -/
def SettingType.Holds : SettingType → Json → Prop
  | text, .text _ => True
  | integer, .int _ => True
  | double, .float _ => True
  | _, _ => False

/-- Whether a value is a number that is out of the range of a type. -/
def SettingType.overflows : SettingType → Json → Bool
  | integer, .float x => x.isInfinite
  | double, .int n => !(Double.ofInt n).isFinite
  | _, _ => false

/-- What becomes of a setting that had a value before, where a mapping gives a value for it or gives none. -/
inductive Setting.Outcome (setting : Setting) (previous : Json) : Option Json → Json → Prop
  | absent : Outcome setting previous none previous
  | cleared : Outcome setting previous (some .null) .null
  | converted {v w : Json} (given : v ≠ .null) (converts : setting.convert v = .ok w) (typed : setting.type.Holds w) :
      Outcome setting previous (some v) w
  | refused {v : Json} {how : Unfit} (given : v ≠ .null) (refuses : setting.convert v = .error how) :
      Outcome setting previous (some v) previous

/-- Whether a setting became what its value in a mapping is to make of it. -/
def Settings.Follows (s : Settings) (fields : Fields) (setting : Setting) (after : Settings) : Prop :=
  setting.Outcome (s.get setting) (Json.field? fields setting.key) (after.get setting)

/-- Whether no setting is given a number that is out of the range of its type. -/
def InRange (fields : Fields) : Prop :=
  ∀ setting v, Json.field? fields (Setting.key setting) = some v → setting.type.overflows v = false

/-! ### Conversion -/

variable {setting : Setting} {v w : Json} {key : Scalar} {s : Settings} {fields : Fields}

namespace Setting

theorem convert_eq (setting : Setting) (v : Json) :
    setting.convert v =
      match setting.type with
      | .text => v.toText.map .text
      | .integer => v.toInt.map .int
      | .double => v.toDouble.map .float := by
  cases setting <;> rfl

theorem exists_of_map_eq_ok {α : Type} {x : Except Unfit α} {f : α → Json} (h : x.map f = .ok w) : ∃ a, w = f a := by
  cases x with
  | error how => cases h
  | ok a =>
      cases h
      exact ⟨a, rfl⟩

theorem holds_of_convert (h : setting.convert v = .ok w) : setting.type.Holds w := by
  rw [convert_eq] at h
  generalize setting.type = type at h ⊢
  cases type with
  | text =>
      obtain ⟨text, rfl⟩ := exists_of_map_eq_ok h
      trivial
  | integer =>
      obtain ⟨n, rfl⟩ := exists_of_map_eq_ok h
      trivial
  | double =>
      obtain ⟨x, rfl⟩ := exists_of_map_eq_ok h
      trivial

theorem map_eq_range_iff {α : Type} {x : Except Unfit α} {f : α → Json} :
    x.map f = .error .range ↔ x = .error .range := by
  cases x with
  | error how => rw [Except.map, Except.error.injEq, Except.error.injEq]
  | ok a => exact iff_of_false nofun nofun

theorem toText_ne_range (v : Json) : v.toText ≠ .error .range := by
  rw [Json.toText]
  split <;> nofun

theorem toInt_eq_range_iff : v.toInt = .error .range ↔ SettingType.integer.overflows v = true := by
  cases v with
  | arr items => exact iff_of_false nofun nofun
  | obj fields => exact iff_of_false nofun nofun
  | scalar k =>
      cases k with
      | null => exact iff_of_false nofun nofun
      | bool b => exact iff_of_false nofun nofun
      | int n => exact iff_of_false nofun nofun
      | str t =>
          cases t with
          | torn front h rest => exact iff_of_false nofun nofun
          | whole text =>
              rw [Json.toInt]
              cases Text.integer? text <;> exact iff_of_false nofun nofun
      | float x =>
          rw [Json.toInt, SettingType.overflows]
          cases number : x.isNaN with
          | true =>
              have finite : x.isInfinite = false := by
                unfold Double.isNaN at number
                unfold Double.isInfinite
                grind
              simp [finite]
          | false => cases x.isInfinite <;> simp

theorem toDouble_eq_range_iff : v.toDouble = .error .range ↔ SettingType.double.overflows v = true := by
  cases v with
  | arr items => exact iff_of_false nofun nofun
  | obj fields => exact iff_of_false nofun nofun
  | scalar k =>
      cases k with
      | null => exact iff_of_false nofun nofun
      | bool b => exact iff_of_false nofun nofun
      | float x => exact iff_of_false nofun nofun
      | str t =>
          cases t with
          | torn front h rest => exact iff_of_false nofun nofun
          | whole text =>
              rw [Json.toDouble]
              cases Text.double? text <;> exact iff_of_false nofun nofun
      | int n =>
          rw [Json.toDouble, SettingType.overflows]
          cases (Double.ofInt n).isFinite <;> simp

theorem convert_eq_range_iff : setting.convert v = .error .range ↔ setting.type.overflows v = true := by
  rw [convert_eq]
  cases setting.type with
  | text => exact iff_of_false (fun range => toText_ne_range v (map_eq_range_iff.mp range)) nofun
  | integer => exact map_eq_range_iff.trans toInt_eq_range_iff
  | double => exact map_eq_range_iff.trans toDouble_eq_range_iff

theorem ofKey?_eq_some_iff : ofKey? key = some setting ↔ (key == .str setting.key) = true := by
  constructor
  · intro found
    exact BEq.symm (List.find?_some (p := fun s : Setting => Scalar.str s.key == key) found)
  · intro same
    rw [Scalar.eq_str_of_same same]
    cases setting <;> rfl

end Setting

namespace Settings

/-! ### One entry -/

theorem get_set (s : Settings) (setting other : Setting) (v : Json) :
    (s.set setting v).get other = if setting = other then v else s.get other := by
  cases setting <;> cases other <;> rfl

/-- An entry ends the run only where it gives a setting a number out of range. -/
theorem applyEntry_failure (s : Settings) (key : Scalar) (v : Json) :
    (s.applyEntry key v).failure = none ↔
      ∀ setting, Setting.ofKey? key = some setting → setting.type.overflows v = false := by
  rw [applyEntry]
  cases located : Setting.ofKey? key with
  | none => exact iff_of_true rfl nofun
  | some setting =>
      have only : (∀ other, some setting = some other → other.type.overflows v = false) ↔
          setting.type.overflows v = false := by
        simp
      rw [only, ← Bool.not_eq_true, ← Setting.convert_eq_range_iff]
      dsimp only
      split
      case isTrue null =>
        subst null
        cases setting <;> exact iff_of_true rfl nofun
      case isFalse =>
        split
        case h_1 converts => exact iff_of_true rfl (by rw [converts]; nofun)
        case h_2 range => exact iff_of_false nofun (not_not_intro range)
        case h_3 how other refuses =>
          refine iff_of_true rfl fun range => ?_
          rw [range] at refuses
          cases refuses
          exact other rfl

/-- An entry makes of the setting of its key what is to become of it, and reaches no other setting. -/
theorem applyEntry_get (s : Settings) (key : Scalar) (v : Json) (setting : Setting) :
    if key == .str setting.key then setting.Outcome (s.get setting) (some v) ((s.applyEntry key v).settings.get setting)
    else (s.applyEntry key v).settings.get setting = s.get setting := by
  rw [applyEntry]
  split
  case isTrue same =>
    rw [Setting.ofKey?_eq_some_iff.mpr same]
    dsimp only
    split
    case isTrue null =>
      subst null
      rw [get_set, if_pos rfl]
      exact .cleared
    case isFalse given =>
      split
      case h_1 w converts =>
        rw [get_set, if_pos rfl]
        exact .converted given converts (Setting.holds_of_convert converts)
      case h_2 refuses => exact .refused given refuses
      case h_3 _ refuses => exact .refused given refuses
  case isFalse other =>
    cases located : Setting.ofKey? key with
    | none => rfl
    | some found =>
        have apart : found ≠ setting := by
          rintro rfl
          exact other (Setting.ofKey?_eq_some_iff.mp located)
        dsimp only
        split
        case isTrue => rw [get_set, if_neg apart]
        case isFalse =>
          split
          · rw [get_set, if_neg apart]
          · rfl
          · rfl

/-! ### All entries -/

theorem applyEntries_failure (s : Settings) (fields : Fields) :
    (s.applyEntries fields).failure = none ↔
      ∀ e ∈ fields, ∀ setting, Setting.ofKey? e.1 = some setting → setting.type.overflows e.2 = false := by
  induction fields generalizing s with
  | nil => exact iff_of_true rfl (List.forall_mem_nil _)
  | cons e rest ih =>
      obtain ⟨key, v⟩ := e
      rw [List.forall_mem_cons, ← applyEntry_failure s key v, applyEntries]
      cases failed : (s.applyEntry key v).failure with
      | some how => simp [failed]
      | none => simpa [failed] using ih (s.applyEntry key v).settings

theorem outcome_none_iff {previous after : Json} : setting.Outcome previous none after ↔ after = previous := by
  constructor
  · rintro ⟨⟩
    rfl
  · rintro rfl
    exact .absent

/-- However far the run through the entries of a mapping gets, a setting is as it was, or what is to become of it; and
it is the latter if the run gets to the end. -/
theorem applyEntries_get (s : Settings) (distinct : Table.Distinct fields) (setting : Setting) :
    ((s.applyEntries fields).settings.get setting = s.get setting ∨
        s.Follows fields setting (s.applyEntries fields).settings) ∧
      ((s.applyEntries fields).failure = none → s.Follows fields setting (s.applyEntries fields).settings) := by
  unfold Follows
  induction fields generalizing s with
  | nil => exact ⟨.inl rfl, fun _ => .absent⟩
  | cons e rest ih =>
      obtain ⟨key, v⟩ := e
      obtain ⟨apart, distinct⟩ := List.pairwise_cons.mp distinct
      have first := applyEntry_get s key v setting
      have later := ih (s.applyEntry key v).settings distinct
      rw [Json.field?_cons, applyEntries]
      by_cases same : (key == .str setting.key) = true
      · -- no later entry has the key, so the rest of the run leaves the setting as it is
        have absent : Json.field? rest setting.key = none := by
          refine Table.get?_eq_none_iff.mpr (Table.has_eq_false_iff.mpr fun x member => ?_)
          refine eq_false_of_ne_true fun again => ?_
          exact ne_true_of_eq_false (apart x member) (BEq.trans same (BEq.symm again))
        rw [if_pos same] at first ⊢
        rw [absent, outcome_none_iff, or_self] at later
        cases failed : (s.applyEntry key v).failure with
        | some how => exact ⟨.inr first, fun _ => first⟩
        | none =>
            dsimp only
            rw [later.1]
            exact ⟨.inr first, fun _ => first⟩
      · rw [if_neg same] at first ⊢
        cases failed : (s.applyEntry key v).failure with
        | some how => exact ⟨.inl first, fun none => nomatch failed.symm.trans none⟩
        | none =>
            rw [first] at later
            exact later

theorem Follows.eq_null {after : Settings} (h : s.Follows fields setting after) (null : after.get setting = .null) :
    s.get setting = .null ∨ Json.field? fields setting.key = some .null := by
  unfold Follows at h
  rw [null] at h
  generalize Json.field? fields setting.key = given at h
  generalize s.get setting = previous at h
  cases h with
  | absent => exact .inl rfl
  | cleared => exact .inr rfl
  | refused => exact .inl rfl
  | converted _ _ typed =>
      generalize setting.type = type at typed
      cases type <;> cases typed

theorem applyEntries_failure_of_inRange (s : Settings) (distinct : Table.Distinct fields) (fits : InRange fields) :
    (s.applyEntries fields).failure = none := by
  refine (applyEntries_failure s fields).mpr fun e member setting located => fits setting e.2 ?_
  have found := distinct.get?_eq_some member
  rwa [Table.get?_congr (Setting.ofKey?_eq_some_iff.mp located)] at found

/-- A mapping without a number out of range is applied to the end, and every setting becomes what its value in the
mapping is to make of it. Whatever is in the mapping, a setting becomes that or stays as it was, and one that had a
value has none afterwards only where the mapping gives null for it. -/
theorem applyConfig_outcome (s : Settings) (distinct : Table.Distinct fields) :
    (InRange fields → (s.applyConfig (.obj fields)).failure = none ∧
        ∀ setting, s.Follows fields setting (s.applyConfig (.obj fields)).settings) ∧
      ∀ setting,
        ((s.applyConfig (.obj fields)).settings.get setting = s.get setting ∨
          s.Follows fields setting (s.applyConfig (.obj fields)).settings) ∧
        ((s.applyConfig (.obj fields)).settings.get setting = .null →
          s.get setting = .null ∨ Json.field? fields setting.key = some .null) := by
  rw [applyConfig]
  refine ⟨fun fits => ?_, fun setting => ?_⟩
  · have ended := applyEntries_failure_of_inRange s distinct fits
    exact ⟨ended, fun setting => (applyEntries_get s distinct setting).2 ended⟩
  · have either := (applyEntries_get s distinct setting).1
    refine ⟨either, fun null => ?_⟩
    rcases either with same | follows
    · exact .inl (same.symm.trans null)
    · exact follows.eq_null null

/-- A mapping with a text for a setting of numbers and a key that is unknown. -/
def mixed : Fields :=
  [(.str "index", .str "packages.json"), (.str "retry_max", .str "many"), (.str "colour", .bool true),
    (.str "retry_base_delay", .int 2)]

theorem distinct_mixed : Table.Distinct mixed := by
  unfold Table.Distinct
  decide +kernel

theorem inRange_mixed : InRange mixed := by
  intro setting v found
  cases setting with
  | apiUrl => rfl
  | indexFile => rfl
  | requestTimeout => nomatch found
  | retryMax =>
      have text : some (Json.str "many") = some v := found
      cases text
      rfl
  | retryDelay =>
      have two : some (Json.int 2) = some v := found
      cases two
      decide +kernel
  | cacheTtl => nomatch found

theorem applyConfig_mixed : (({} : Settings).applyConfig (.obj mixed)).failure = none ∧
    ∀ setting, ({} : Settings).Follows mixed setting (({} : Settings).applyConfig (.obj mixed)).settings :=
  (applyConfig_outcome {} distinct_mixed).1 inRange_mixed

/-- Null takes a time from the settings, and an infinite number ends the run. -/
theorem applyConfig_null_infinity :
    ({} : Settings).cacheTtl = .int 300 ∧
      (({} : Settings).applyConfig (.obj [(.str "cache_ttl", .null)])).failure = none ∧
      (({} : Settings).applyConfig (.obj [(.str "cache_ttl", .null)])).settings.cacheTtl = .null ∧
      (({} : Settings).applyConfig (.obj [(.str "request_timeout", .float (Double.infinity false))])).failure =
        some .range := by
  decide +kernel

end Settings

end ExprRegistry
