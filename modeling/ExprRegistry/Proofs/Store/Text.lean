import ExprRegistry.Package.Name
import ExprRegistry.Proofs.Version.Grammar
import ExprRegistry.Store.Basic

/-!
Names of packages and texts of versions, as they are described. Main statements: what a store admits as a
name and as a version are exactly these.
-/

namespace ExprRegistry

/-- Two to a hundred characters, a lower-case letter followed by lower-case letters, digits and
underscores. -/
structure IsPackageName (name : String) : Prop where
  spelled : ∃ c rest, name.toList = c :: rest ∧ isLowerLetter c = true ∧
    ∀ d ∈ rest, isLowerLetter d = true ∨ Text.isAsciiDigit d = true ∨ d = '_'
  least : 2 ≤ name.length
  most : name.length ≤ 100

/-- Three numbers with points between them, maybe a prerelease after a minus, and maybe build metadata after
a plus: a text that regular parts with a patch look like. -/
def IsVersionText (s : String) : Prop :=
  ∃ parts : Version.Parts, parts.Regular ∧ parts.patch.isSome = true ∧ s.toList = parts.written

theorem isPackageNameChar_iff {c : Char} :
    isPackageNameChar c = true ↔ isLowerLetter c = true ∨ Text.isAsciiDigit c = true ∨ c = '_' := by
  simp [isPackageNameChar, or_assoc]

theorem isPackageNameText_iff {name : String} : isPackageNameText name = true ↔ IsPackageName name := by
  rw [isPackageNameText]
  constructor
  · intro h
    split at h
    case h_1 => cases h
    case h_2 c rest written =>
      simp only [Bool.and_eq_true, List.all_eq_true, isPackageNameChar_iff, decide_eq_true_eq] at h
      obtain ⟨⟨⟨start, all⟩, least⟩, most⟩ := h
      exact ⟨⟨c, rest, written, start, all⟩, least, most⟩
  · rintro ⟨⟨c, rest, written, start, all⟩, least, most⟩
    rw [written]
    simp only [Bool.and_eq_true, List.all_eq_true, isPackageNameChar_iff, decide_eq_true_eq]
    exact ⟨⟨⟨start, all⟩, least⟩, most⟩

theorem isVersionText_iff {s : String} : isVersionText s = true ↔ IsVersionText s := by
  rw [isVersionText, IsVersionText]
  constructor
  · intro h
    split at h
    case h_1 parts read =>
      obtain ⟨regular, written⟩ := Version.Parts.split?_eq_some_iff.mp read
      exact ⟨parts, regular, h, written⟩
    case h_2 => cases h
  · rintro ⟨parts, regular, patched, written⟩
    rw [Version.Parts.split?_eq_some_iff.mpr ⟨regular, written⟩]
    exact patched

end ExprRegistry
