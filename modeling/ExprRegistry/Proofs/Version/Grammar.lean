import ExprRegistry.Version.Grammar
import Mathlib.Data.List.TakeWhile

/-!
Versions as text, as they are described. A text is taken apart into parts exactly when the parts are
regular and the text is what they look like when they are written down, so a text has one reading at most.
Main statement: `Parts.split?_eq_some_iff`.
-/

namespace ExprRegistry.Version

variable {p q : Char → Bool} {mark : Char} {cs run rest : List Char} {content : Option (List Char)}

/-- A non-empty run of characters of one kind. -/
def IsRun (p : Char → Bool) (cs : List Char) : Prop := cs ≠ [] ∧ ∀ c ∈ cs, p c = true

/-- A text that does not go on with a character of a kind. -/
def Stops (p : Char → Bool) (cs : List Char) : Prop := ∀ c ∈ cs.head?, p c = false

/-- A mark and what it introduces, as they are written; nothing when there is nothing to introduce. -/
def marked (mark : Char) : Option (List Char) → List Char
  | none => []
  | some cs => mark :: cs

theorem stops_nil : Stops p [] := fun _ h => nomatch h

theorem stops_cons {c : Char} (h : p c = false) : Stops p (c :: rest) := by
  intro d head
  cases head
  exact h

theorem Stops.marked (h : p mark = false) (k : Stops p rest) : Stops p (marked mark content ++ rest) := by
  cases content with
  | none => exact k
  | some cs => exact stops_cons h

theorem stops_marked (h : p mark = false) : Stops p (marked mark content) :=
  List.append_nil (marked mark content) ▸ stops_nil.marked h

/-! ### Runs and marks -/

theorem takeWhile_of_stops (h : Stops p rest) : rest.takeWhile p = [] := by
  cases rest with
  | nil => rfl
  | cons c rest => exact List.takeWhile_cons_of_neg (ne_true_of_eq_false (h c rfl))

theorem dropWhile_of_stops (h : Stops p rest) : rest.dropWhile p = rest := by
  cases rest with
  | nil => rfl
  | cons c rest => exact List.dropWhile_cons_of_neg (ne_true_of_eq_false (h c rfl))

theorem stops_dropWhile (p : Char → Bool) (cs : List Char) : Stops p (cs.dropWhile p) := by
  intro c head
  have stopped := List.head?_dropWhile_not p cs
  rw [Option.mem_def.mp head] at stopped
  exact stopped

theorem run?_eq_some_iff :
    run? p cs = some (run, rest) ↔ IsRun p run ∧ cs = run ++ rest ∧ Stops p rest := by
  constructor
  · intro h
    rw [run?] at h
    split at h
    case h_1 => cases h
    case h_2 front some =>
      cases h
      have all : ∀ c ∈ cs.takeWhile p, p c = true := fun c member => List.mem_takeWhile_imp member
      exact ⟨⟨some, all⟩, List.takeWhile_append_dropWhile.symm, stops_dropWhile p cs⟩
  · rintro ⟨⟨some, all⟩, rfl, stops⟩
    rw [run?, List.takeWhile_append_of_pos all, List.dropWhile_append_of_pos all, takeWhile_of_stops stops,
      dropWhile_of_stops stops, List.append_nil]
    split
    · contradiction
    · rfl

theorem marked?_of_stops (h : Stops (· == mark) rest) : marked? mark p rest = some (none, rest) := by
  cases rest with
  | nil => rfl
  | cons c rest => rw [marked?, if_neg (ne_true_of_eq_false (h c rfl))]

theorem marked?_eq_some_iff :
    marked? mark p cs = some (content, rest) ↔
      cs = marked mark content ++ rest ∧ (content = none → Stops (· == mark) rest) ∧
        ∀ run ∈ content, IsRun p run ∧ Stops p rest := by
  constructor
  · intro h
    rw [marked?.eq_def] at h
    split at h
    case h_1 =>
      cases h
      exact ⟨rfl, fun _ => stops_nil, nofun⟩
    case h_2 c cs =>
      split at h
      case isTrue here =>
        obtain ⟨⟨run, rest⟩, found, same⟩ := Option.map_eq_some_iff.mp h
        obtain ⟨some, rfl, stops⟩ := run?_eq_some_iff.mp found
        cases same
        cases eq_of_beq here
        refine ⟨rfl, nofun, ?_⟩
        rintro _ ⟨⟩
        exact ⟨some, stops⟩
      case isFalse different =>
        cases h
        exact ⟨rfl, fun _ => stops_cons (eq_false_of_ne_true different), nofun⟩
  · rintro ⟨rfl, absent, present⟩
    cases content with
    | none => exact marked?_of_stops (absent rfl)
    | some run =>
        obtain ⟨some, stops⟩ := present run rfl
        have found : run? p (run ++ rest) = .some (run, rest) := run?_eq_some_iff.mpr ⟨some, rfl, stops⟩
        rw [marked, List.cons_append, marked?, if_pos BEq.rfl, found]
        rfl

/-! ### The parts of a version -/

namespace Parts

/-- Parts as they are written down. -/
def written (parts : Parts) : List Char :=
  parts.major ++ '.' :: (parts.minor ++ (marked '.' parts.patch ++
    (marked '-' parts.prerelease ++ marked '+' parts.build)))

/-- The numbers are runs of digits; prerelease and build, where they are there, are not empty. -/
structure Regular (parts : Parts) : Prop where
  major : IsRun Text.isDigit parts.major
  minor : IsRun Text.isDigit parts.minor
  patch : ∀ cs ∈ parts.patch, IsRun Text.isDigit cs
  prerelease : ∀ cs ∈ parts.prerelease, IsRun isIdentifierChar cs
  build : ∀ cs ∈ parts.build, IsRun isIdentifierChar cs

theorem regular_of_split? {parts : Parts} (h : split? cs = some parts) :
    parts.Regular ∧ cs = parts.written := by
  simp only [split?, Option.bind_eq_bind, Option.bind_eq_some_iff, Prod.exists] at h
  obtain ⟨major, _, first, _, _, second, minor, rfl, patch, _, third, prerelease, _, fourth, build, rest,
    fifth, ends⟩ := h
  obtain ⟨majorRun, rfl, -⟩ := run?_eq_some_iff.mp first
  obtain ⟨rfl, -, minorRun⟩ := marked?_eq_some_iff.mp second
  obtain ⟨rfl, -, patchRun⟩ := marked?_eq_some_iff.mp third
  obtain ⟨rfl, -, prereleaseRun⟩ := marked?_eq_some_iff.mp fourth
  obtain ⟨rfl, -, buildRun⟩ := marked?_eq_some_iff.mp fifth
  split at ends
  case isFalse => cases ends
  case isTrue whole =>
    cases ends
    cases List.isEmpty_iff.mp whole
    refine ⟨⟨majorRun, (minorRun minor rfl).1, fun run h => (patchRun run h).1,
      fun run h => (prereleaseRun run h).1, fun run h => (buildRun run h).1⟩, ?_⟩
    rw [List.append_nil]
    rfl

/-- The text of regular parts is taken apart into them. No mark is a character of the run before it, so a
run ends where the next mark stands, or with the text. -/
theorem split?_written {parts : Parts} (h : parts.Regular) : split? parts.written = some parts := by
  have plus {p : Char → Bool} (apart : p '+' = false) : Stops p (marked '+' parts.build) :=
    stops_marked apart
  have minus {p : Char → Bool} (apart : p '+' = false) (h : p '-' = false) :
      Stops p (marked '-' parts.prerelease ++ marked '+' parts.build) := (plus apart).marked h
  have point : Stops Text.isDigit
      (marked '.' parts.patch ++ (marked '-' parts.prerelease ++ marked '+' parts.build)) :=
    (minus (by decide) (by decide)).marked (by decide)
  have first : run? Text.isDigit parts.written = some (parts.major, _) :=
    run?_eq_some_iff.mpr ⟨h.major, rfl, stops_cons (by decide)⟩
  have second : marked? '.' Text.isDigit ('.' :: (parts.minor ++ _)) = some (some parts.minor, _) :=
    marked?_eq_some_iff.mpr ⟨rfl, nofun, by rintro _ ⟨⟩; exact ⟨h.minor, point⟩⟩
  have third : marked? '.' Text.isDigit (marked '.' parts.patch ++ _) = some (parts.patch, _) :=
    marked?_eq_some_iff.mpr ⟨rfl, fun _ => minus rfl rfl,
      fun run found => ⟨h.patch run found, minus (by decide) (by decide)⟩⟩
  have fourth : marked? '-' isIdentifierChar (marked '-' parts.prerelease ++ _) =
      some (parts.prerelease, _) :=
    marked?_eq_some_iff.mpr ⟨rfl, fun _ => plus rfl,
      fun run found => ⟨h.prerelease run found, plus (by decide)⟩⟩
  have fifth : marked? '+' isIdentifierChar (marked '+' parts.build) = some (parts.build, []) :=
    marked?_eq_some_iff.mpr ⟨(List.append_nil _).symm, fun _ => stops_nil,
      fun run found => ⟨h.build run found, stops_nil⟩⟩
  simp only [split?, Option.bind_eq_bind, first, second, third, fourth, fifth, Option.bind_some]
  rfl

theorem split?_eq_some_iff {parts : Parts} : split? cs = some parts ↔ parts.Regular ∧ cs = parts.written := by
  constructor
  · exact regular_of_split?
  · rintro ⟨regular, rfl⟩
    exact split?_written regular

theorem written_injective {parts other : Parts} (regular : parts.Regular) (regular' : other.Regular)
    (same : parts.written = other.written) : parts = other := by
  have split := split?_written regular
  rw [same, split?_written regular'] at split
  exact (Option.some.inj split).symm

end Parts

end ExprRegistry.Version
