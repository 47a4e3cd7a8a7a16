import ExprRegistry.Cli.Run
import ExprRegistry.Proofs.Resolve.Worded
import ExprRegistry.Proofs.Store.Flaw

/-!
What a command finds in its files. Two files can be read: the input of the command, and the index file that its
packages are in. Main statements: `document_cases`, that a command either gets the document that its input file holds
or ends with a file error, and `packages_cases`, that an index file is faulty, holds an invalid release, or is loaded.
-/

namespace ExprRegistry

/-- A file that is there and whose text is read as a document. -/
def Files.Holds (files : Files) (path : String) (v : Json) : Prop :=
  ∃ text, files.text? path = some text ∧ Json.load text = .ok v

/-- No file with an integer of too many digits or a half of a character. -/
structure Files.Bounded (files : Files) (path : String) : Prop where
  short : ∀ text, files.text? path = some text → ¬ Json.Overlong text
  whole : ∀ v, files.Holds path v → v.isWhole = true

namespace Files

variable {files : Files} {path : String} {v w : Json}

theorem Holds.unique (h : files.Holds path v) (k : files.Holds path w) : v = w := by
  obtain ⟨text, found, read⟩ := h
  obtain ⟨other, found', read'⟩ := k
  cases found.symm.trans found'
  cases read.symm.trans read'
  rfl

theorem Holds.regular (h : files.Holds path v) (bounded : files.Bounded path) : v.Regular := by
  obtain ⟨text, _, read⟩ := id h
  exact Json.regular_of_load read (bounded.whole v h)

theorem Holds.digestible (h : files.Holds path v) (bounded : files.Bounded path) : v.Digestible := by
  obtain ⟨text, _, read⟩ := id h
  exact Json.digestible_of_load read (bounded.whole v h)

theorem Holds.bounded (h : files.Holds path v) (whole : v.isWhole = true) : files.Bounded path := by
  refine ⟨fun other same => ?_, fun w holds => h.unique holds ▸ whole⟩
  obtain ⟨text, found, read⟩ := h
  cases found.symm.trans same
  exact Json.not_overlong_of_load read

theorem follow_ne_unusable (files : Files) (p : Place) (parts : List String) :
    files.follow p parts ≠ .error .unusable := by
  induction parts generalizing p with
  | nil => nofun
  | cons part rest ih =>
      rw [follow]
      split
      case isTrue => exact ih p
      case isFalse =>
        split
        case isTrue => exact ih p.up
        case isFalse =>
          split
          case isTrue => nofun
          case isFalse =>
            split
            case h_1 => nofun
            case h_2 => exact ih (p.down part)
            case h_3 =>
              split
              case isTrue => nofun
              case isFalse => nofun

/-- Only a text with a null character is no path. -/
theorem locate_ne_unusable (usable : '\x00' ∉ path.toList) : files.locate path ≠ .error .unusable := by
  have usable : path.toList.contains '\x00' = false := by simpa using usable
  rw [locate, usable, if_neg Bool.false_ne_true]
  split
  case isTrue => nofun
  case isFalse =>
    split
    case isTrue => nofun
    case isFalse => exact follow_ne_unusable _ _ _

end Files

theorem readDocumentText_eq {path : String} (json : isJsonPath path = true) (text : String) :
    readDocumentText path text = loadJson text := if_pos json

theorem loadJson_of_ok {text : String} {v : Json} (read : Json.load text = .ok v) : loadJson text = .ok v := by
  rw [loadJson, read]
  rfl

theorem loadJson_of_error {text : String} {e : Json.ReadError} (refused : Json.load text = .error e)
    (short : ¬ Json.Overlong text) : loadJson text = .error (.broken e.message) := by
  have other : e.complaint ≠ .digits := fun digits => short ⟨e, refused, digits⟩
  rw [loadJson, refused, Except.mapError, if_neg other]

/-- How an index file is found. -/
inductive IndexState where
  | faulty
  | invalid
  | loaded (store : Store)

/-- What an index document is. It is faulty when it does not have the format, or when its first flaw is a package or a
release with data that was there before; it is invalid when its first flaw is an invalid release; and it is loaded when
it has no flaw. -/
inductive Json.IsIndex (v : Json) : IndexState → Prop
  | misformed {f : FormatFault} (fault : v.indexFault? = .ok (some f)) : IsIndex v .faulty
  | repeated {flaw : Flaw} (formed : v.indexFault? = .ok none) (first : v.firstFlaw? = some flaw)
      (again : flaw ≠ .invalidRelease) : IsIndex v .faulty
  | invalid (formed : v.indexFault? = .ok none) (first : v.firstFlaw? = some .invalidRelease) : IsIndex v .invalid
  | loaded {store : Store} (formed : v.indexFault? = .ok none) (flawless : v.firstFlaw? = none)
      (loaded : (Store.ofDocument true v).result = .ok store) : IsIndex v (.loaded store)

/-- What is found where an index file should be. A file that is missing or no document is faulty. -/
inductive Files.IndexIs (files : Files) (path : String) : IndexState → Prop
  | unread (nothing : ∀ v, ¬ files.Holds path v) : IndexIs files path .faulty
  | read {v : Json} {state : IndexState} (holds : files.Holds path v) (is : v.IsIndex state) :
      IndexIs files path state

theorem Json.IsIndex.unique {v : Json} {state other : IndexState} (h : v.IsIndex state) (k : v.IsIndex other) :
    state = other := by
  cases h <;> cases k <;> simp_all

theorem Files.IndexIs.unique {files : Files} {path : String} {state other : IndexState}
    (h : files.IndexIs path state) (k : files.IndexIs path other) : state = other := by
  cases h with
  | unread nothing =>
      cases k with
      | unread => rfl
      | read holds => exact absurd holds (nothing _)
  | read holds is =>
      cases k with
      | unread nothing => exact absurd holds (nothing _)
      | read holds' is' =>
          cases holds.unique holds'
          exact is.unique is'

namespace Cli.World

variable {w : World} {path : String}

theorem document_cases (json : isJsonPath path = true) (usable : '\x00' ∉ path.toList)
    (bounded : w.files.Bounded path) :
    (∃ v, w.files.Holds path v ∧ w.document path = .ok v) ∨
      (∀ v, ¬ w.files.Holds path v) ∧ ∃ message, w.document path = .error (.file message) := by
  rw [document, Files.read]
  -- A file holds what is read from its text; nothing else holds anything, the null device among it.
  have unheld (missing : w.files.text? path = none) : ∀ v, ¬ w.files.Holds path v := by
    rintro v ⟨text, held, _⟩
    rw [missing] at held
    cases held
  cases found : w.files.locate path with
  | error e =>
      have missing : w.files.text? path = none := by rw [Files.text?, found]
      cases e with
      | unusable => exact absurd found (Files.locate_ne_unusable usable)
      | _ => exact .inr ⟨unheld missing, _, rfl⟩
  | ok entry =>
      cases entry with
      | directory => exact .inr ⟨unheld (by rw [Files.text?, found]), _, rfl⟩
      | device =>
          refine .inr ⟨unheld (by rw [Files.text?, found]), ?_⟩
          simp only [readDocumentText_eq json]
          exact ⟨_, rfl⟩
      | file text =>
          have held : w.files.text? path = some (String.ofList (uniformLines text.toList)) := by
            rw [Files.text?, found]
          simp only [readDocumentText_eq json]
          cases read : Json.load (String.ofList (uniformLines text.toList)) with
          | ok v =>
              simp only [loadJson_of_ok read]
              exact .inl ⟨v, ⟨_, held, read⟩, rfl⟩
          | error e =>
              simp only [loadJson_of_error read (bounded.short _ held)]
              refine .inr ⟨?_, _, rfl⟩
              rintro v ⟨other, held', read'⟩
              cases held.symm.trans held'
              cases read.symm.trans read'

/-- What a strict load of an index file comes to. -/
theorem loadIndex_cases {files : Files} (json : isJsonPath path = true) (bounded : files.Bounded path) :
    (files.IndexIs path .faulty ∧ ∃ e message, (files.loadIndex path true).result = .error e ∧
        indexFileError e = .file message) ∨
      (files.IndexIs path .invalid ∧
        ∃ e, (files.loadIndex path true).result = .error (.index (.store (.invalid e)))) ∨
      ∃ store, files.IndexIs path (.loaded store) ∧ (files.loadIndex path true).result = .ok store ∧ store.Formed := by
  cases found : files.text? path with
  | none =>
      have nothing : ∀ v, ¬ files.Holds path v := by
        rintro v ⟨text, held, _⟩
        cases found.symm.trans held
      simp only [Files.loadIndex, found]
      exact .inl ⟨.unread nothing, _, _, rfl, rfl⟩
  | some text =>
      cases read : Json.load text with
      | error e =>
          have nothing : ∀ v, ¬ files.Holds path v := by
            rintro v ⟨other, held, read'⟩
            cases found.symm.trans held
            cases read.symm.trans read'
          simp only [Files.loadIndex, found, readDocumentText_eq json, loadJson_of_error read (bounded.short text found)]
          exact .inl ⟨.unread nothing, _, _, rfl, rfl⟩
      | ok v =>
          have holds : files.Holds path v := ⟨text, found, read⟩
          have digestible := holds.digestible bounded
          have result : (files.loadIndex path true).result = (Store.ofDocument true v).result.mapError .index := by
            simp only [Files.loadIndex, found, readDocumentText_eq json, loadJson_of_ok read]
          rw [result]
          rcases Store.ofDocument_meets digestible with ⟨f, fault, failed⟩ | ⟨formed, meets⟩
          · rw [failed]
            exact .inl ⟨.read holds (.misformed fault), _, _, rfl, rfl⟩
          · generalize first : v.firstFlaw? = flaw? at meets
            cases ended : (Store.ofDocument true v).result with
            | ok store =>
                rw [ended] at meets
                cases meets
                exact .inr (.inr ⟨store, .read holds (.loaded formed first ended), rfl,
                  Store.formed_of_load digestible.keyed digestible.whole ended⟩)
            | error e =>
                rw [ended] at meets
                cases meets with
                | repeatedPackage name => exact .inl ⟨.read holds (.repeated formed first nofun), _, _, rfl, rfl⟩
                | repeatedRelease name version =>
                    exact .inl ⟨.read holds (.repeated formed first nofun), _, _, rfl, rfl⟩
                | invalidRelease e => exact .inr (.inl ⟨.read holds (.invalid formed first), e, rfl⟩)

/-- What a command gets from the index file that the settings name. -/
theorem packages_cases (setting : w.settings.indexFile = .str path) (json : isJsonPath path = true)
    (bounded : w.files.Bounded path) :
    ∃ log result, w.packages = (log, result) ∧
      ((w.files.IndexIs path .faulty ∧ ∃ message, result = .error (.file message)) ∨
        (w.files.IndexIs path .invalid ∧ ∃ e, result = .error (.validation e)) ∨
        ∃ store, w.files.IndexIs path (.loaded store) ∧ result = .ok (.stored store) ∧
          ∀ e ∈ store, e.2.name = .scalar e.1 ∧ e.2.Formed) := by
  have given : w.settings.indexFile.isGiven = true := by
    rw [setting]
    refine bne_iff_ne.mpr ?_
    rintro ⟨⟩
    cases json
  have opened : w.packages = ((w.files.loadIndex path true).log,
      ((w.files.loadIndex path true).result.mapError indexFileError).map .stored) := by
    rw [packages, if_pos given, setting]
    rfl
  refine ⟨_, _, opened, ?_⟩
  rcases loadIndex_cases json bounded with
    ⟨is, e, message, failed, file⟩ | ⟨is, e, failed⟩ | ⟨store, is, loaded, formed⟩
  · refine .inl ⟨is, message, ?_⟩
    rw [failed, ← file]
    rfl
  · refine .inr (.inl ⟨is, e, ?_⟩)
    rw [failed]
    rfl
  · refine .inr (.inr ⟨store, is, ?_, formed⟩)
    rw [loaded]
    rfl

end Cli.World

end ExprRegistry
