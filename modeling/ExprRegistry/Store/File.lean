import ExprRegistry.File.Document
import ExprRegistry.Store.Load

/-!
Stores in files: an index document is read in the language that the name of its file tells.
-/

namespace ExprRegistry

/-- Why an index file is not loaded. -/
inductive IndexFileError where
  | missing (path : String)
  | index (e : IndexError)

/-- The result of loading an index file and what was logged on the way. -/
structure LoadedFile where
  log : List Record
  result : Except IndexFileError Store

def Files.loadIndex (files : Files) (path : String) (strict : Bool) : LoadedFile :=
  match files.text? path with
  | none => ⟨[], .error (.missing path)⟩
  | some text =>
    match readDocumentText path text with
    | .error (.broken reason) => ⟨[], .error (.index (.unreadable path reason))⟩
    | .error (.unfit how) => ⟨[], .error (.index (.unfit how))⟩
    | .ok document =>
      let loaded := Store.ofDocument strict document
      ⟨⟨.info, "registry.index", "Loaded package index from " ++ path, []⟩ :: loaded.log,
        loaded.result.mapError .index⟩

end ExprRegistry
