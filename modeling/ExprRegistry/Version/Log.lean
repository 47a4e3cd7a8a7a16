import ExprRegistry.Log.Record
import ExprRegistry.Version.Select

/-!
The warnings of a selection: one for each candidate that writes no version, in the order of the
candidates.
-/

namespace ExprRegistry.Version

def skipped (candidate : Json) : Record :=
  ⟨.warning, "versioning.matcher", "Skipping invalid semantic version " ++ candidate.shown, []⟩

def skippedJson (candidates : List Json) : List Record :=
  (unreadable ofJson? candidates).map skipped

def skippedTexts (candidates : List Text) : List Record :=
  (unreadable (fun t => t.string?.bind ofText?) candidates).map fun t => skipped (.text t)

end ExprRegistry.Version
