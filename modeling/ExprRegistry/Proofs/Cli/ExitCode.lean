import ExprRegistry.Proofs.Cli.Files
import ExprRegistry.Proofs.Cli.Output

/-!
Exit codes. Where the files of a command are documents of the language that objects and lists are written in, a command
always has an exit code, and the code tells what was wrong: a file, a document that is not valid, or packages that do
not resolve. What is wrong is said of the files alone, apart from the resolutions of the library. Main statement: the
exit code of every command is the one of what is wrong, and success where nothing is.
-/

namespace ExprRegistry.Cli

namespace World

variable {w : World} {a : Arguments} {path : String}

/-- A command whose input file and index file are documents by their names, without integers of too many digits and
halves of characters. -/
structure ReadsJson (w : World) (a : Arguments) (path : String) : Prop where
  input : a.verb.subject? = some "FILE" →
    isJsonPath a.subject = true ∧ '\x00' ∉ a.subject.toList ∧ w.files.Bounded a.subject
  index : a.verb.usesIndex = true →
    w.settings.indexFile = .str path ∧ isJsonPath path = true ∧ w.files.Bounded path

/-- The document that a command takes from its input file; requirements are an object. -/
def Input (w : World) (a : Arguments) (v : Json) : Prop :=
  w.files.Holds a.subject v ∧ (a.verb = .checkDeps → ∃ entries, v = .obj entries)

/-- A file that the command reads is missing, is no document or not of the expected format, or it is an index file that
is refused for a package or a release with data that was there before. -/
def Faulty (w : World) (a : Arguments) (path : String) : Prop :=
  (a.verb.subject? = some "FILE" ∧ ∀ v, ¬ w.Input a v) ∨
    (a.verb.usesIndex = true ∧ w.files.IndexIs path .faulty)

/-- The document of the command, or a release of its index file, is not valid. -/
def Invalid (w : World) (a : Arguments) (path : String) : Prop :=
  match a.verb with
  | .validate => ∃ v, w.files.Holds a.subject v ∧ ∃ e, v.checkPublishable = .error e
  | .analyze | .suggest | .format => ∃ v, w.files.Holds a.subject v ∧ ∃ e, Expr.decode v = .error e
  | .resolve | .tree | .dependents => w.files.IndexIs path .invalid
  | .checkDeps => (∃ v, w.Input a v) ∧ w.files.IndexIs path .invalid
  | .examples => False

/-- The resolution that the command asks for ends with an error, or its tree has an error leaf. -/
def Unresolved (w : World) (a : Arguments) (path : String) : Prop :=
  match a.verb with
  | .resolve => ∃ store, w.files.IndexIs path (.loaded store) ∧
      ∃ e, (resolve Source.ofTable (.str a.subject) store).2 = .error (.resolve e)
  | .tree => ∃ store, w.files.IndexIs path (.loaded store) ∧
      ((∃ e, (dependencyTree Source.ofTable (.str a.subject) store).2 = .error (.resolve e)) ∨
        ∃ t, (dependencyTree Source.ofTable (.str a.subject) store).2 = .ok t ∧ t.hasFailure = true)
  | .checkDeps => ∃ entries, w.files.Holds a.subject (.obj entries) ∧
      ∃ store, w.files.IndexIs path (.loaded store) ∧
        ∃ e, (resolveRequirements Source.ofTable entries store).2 = .error (.resolve e)
  | _ => False

/-- An exit code that tells what is wrong. -/
structure Tells (w : World) (a : Arguments) (path : String) (code : ExitCode) : Prop where
  file : code = .fileError ↔ w.Faulty a path
  validation : code = .validationError ↔ w.Invalid a path
  resolution : code = .resolutionError ↔ w.Unresolved a path
  success : code = .success ↔ ¬ w.Faulty a path ∧ ¬ w.Invalid a path ∧ ¬ w.Unresolved a path

theorem tells_file (faulty : w.Faulty a path) (valid : ¬ w.Invalid a path) (resolved : ¬ w.Unresolved a path) :
    w.Tells a path .fileError :=
  ⟨iff_of_true rfl faulty, iff_of_false nofun valid, iff_of_false nofun resolved,
    iff_of_false nofun fun fine => fine.1 faulty⟩

theorem tells_validation (sound : ¬ w.Faulty a path) (invalid : w.Invalid a path)
    (resolved : ¬ w.Unresolved a path) :
    w.Tells a path .validationError :=
  ⟨iff_of_false nofun sound, iff_of_true rfl invalid, iff_of_false nofun resolved,
    iff_of_false nofun fun fine => fine.2.1 invalid⟩

theorem tells_resolution (sound : ¬ w.Faulty a path) (valid : ¬ w.Invalid a path)
    (unresolved : w.Unresolved a path) :
    w.Tells a path .resolutionError :=
  ⟨iff_of_false nofun sound, iff_of_false nofun valid, iff_of_true rfl unresolved,
    iff_of_false nofun fun fine => fine.2.2 unresolved⟩

theorem tells_success (sound : ¬ w.Faulty a path) (valid : ¬ w.Invalid a path) (resolved : ¬ w.Unresolved a path) :
    w.Tells a path .success :=
  ⟨iff_of_false nofun sound, iff_of_false nofun valid, iff_of_false nofun resolved,
    iff_of_true rfl ⟨sound, valid, resolved⟩⟩

/-! ### Commands on one document -/

theorem faulty_of_document (reads : a.verb.subject? = some "FILE") (plain : a.verb ≠ .checkDeps)
    (unindexed : a.verb.usesIndex = false) : w.Faulty a path ↔ ∀ v, ¬ w.files.Holds a.subject v := by
  rw [Faulty, unindexed]
  constructor
  · rintro (⟨_, nothing⟩ | ⟨⟨⟩, _⟩)
    exact fun v holds => nothing v ⟨holds, fun same => absurd same plain⟩
  · exact fun nothing => .inl ⟨reads, fun v input => nothing v input.1⟩

/-- A command that judges the document of its input file and looks into no packages. -/
theorem tells_of_document {read : Json → Except CommandError Output} {wrong : Json → Prop}
    (h : w.ReadsJson a path) (reads : a.verb.subject? = some "FILE") (plain : a.verb ≠ .checkDeps)
    (unindexed : a.verb.usesIndex = false)
    (judges : ∀ v, w.files.Holds a.subject v → Judges (read v) .validationError (wrong v))
    (validation : w.Invalid a path ↔ ∃ v, w.files.Holds a.subject v ∧ wrong v) (resolved : ¬ w.Unresolved a path) :
    ∃ code, Comes ((w.document a.subject).bind read) code ∧ w.Tells a path code := by
  have file : w.Faulty a path ↔ ∀ v, ¬ w.files.Holds a.subject v :=
    faulty_of_document reads plain unindexed
  obtain ⟨json, usable, bounded⟩ := h.input reads
  rcases document_cases json usable bounded with ⟨v, holds, got⟩ | ⟨nothing, message, failed⟩
  · have sound : ¬ w.Faulty a path := fun faulty => file.mp faulty v holds
    rw [got]
    cases judges v holds with
    | refused bad comes => exact ⟨_, comes, tells_validation sound (validation.mpr ⟨v, holds, bad⟩) resolved⟩
    | passed right comes =>
        refine ⟨_, comes, tells_success sound ?_ resolved⟩
        rw [validation]
        rintro ⟨other, holds', bad⟩
        cases holds.unique holds'
        exact right bad
  · rw [failed]
    refine ⟨_, .error rfl, tells_file (file.mpr nothing) ?_ resolved⟩
    rw [validation]
    rintro ⟨v, holds, _⟩
    exact nothing v holds

/-! ### Commands on an index file -/

theorem faulty_of_index (named : a.verb.subject? = some "NAME") (indexed : a.verb.usesIndex = true) :
    w.Faulty a path ↔ w.files.IndexIs path .faulty := by
  rw [Faulty]
  constructor
  · rintro (⟨reads, _⟩ | ⟨_, is⟩)
    · exact absurd (named.symm.trans reads) (by decide)
    · exact is
  · exact fun is => .inr ⟨indexed, is⟩

/-- A command that looks into the packages of an index file, where something can be wrong with what it asks. -/
theorem tells_of_index {result : Except CommandError Output} {wrong : Store → Prop}
    (h : w.ReadsJson a path) (indexed : a.verb.usesIndex = true)
    (failed : ∀ log e, w.packages = (log, .error e) → result = .error e)
    (judges : ∀ log store, store.Formed → w.packages = (log, .ok (.stored store)) →
      Judges result .resolutionError (wrong store))
    (file : w.Faulty a path ↔ w.files.IndexIs path .faulty)
    (validation : w.Invalid a path ↔ w.files.IndexIs path .invalid)
    (resolution : w.Unresolved a path ↔ ∃ store, w.files.IndexIs path (.loaded store) ∧ wrong store) :
    ∃ code, Comes result code ∧ w.Tells a path code := by
  have resolved {state : IndexState} (is : w.files.IndexIs path state) (unloaded : ∀ store, state ≠ .loaded store) :
      ¬ w.Unresolved a path := by
    rw [resolution]
    rintro ⟨store, loaded, _⟩
    exact unloaded store (is.unique loaded)
  obtain ⟨setting, json, bounded⟩ := h.index indexed
  obtain ⟨log, opened, got, ⟨is, message, rfl⟩ | ⟨is, e, rfl⟩ | ⟨store, is, rfl, formed⟩⟩ :=
    packages_cases setting json bounded
  · rw [failed log _ got]
    refine ⟨_, .error rfl, tells_file (file.mpr is) ?_ (resolved is nofun)⟩
    rw [validation]
    exact fun invalid => nomatch is.unique invalid
  · rw [failed log _ got]
    refine ⟨_, .error rfl, tells_validation ?_ (validation.mpr is) (resolved is nofun)⟩
    rw [file]
    exact fun faulty => nomatch is.unique faulty
  · have sound : ¬ w.Faulty a path := by
      rw [file]
      exact fun faulty => nomatch is.unique faulty
    have valid : ¬ w.Invalid a path := by
      rw [validation]
      exact fun invalid => nomatch is.unique invalid
    cases judges log store formed got with
    | refused bad comes => exact ⟨_, comes, tells_resolution sound valid (resolution.mpr ⟨store, is, bad⟩)⟩
    | passed right comes =>
        refine ⟨_, comes, tells_success sound valid ?_⟩
        rw [resolution]
        rintro ⟨other, loaded, bad⟩
        cases is.unique loaded
        exact right bad

theorem ask_error {log : List Record} {e : CommandError} (q : Question) (got : w.packages = (log, .error e)) :
    (w.ask q).result = .error e := by
  rw [ask, got]

theorem ask_stored {log : List Record} {store : Store} (q : Question)
    (got : w.packages = (log, .ok (.stored store))) :
    (w.ask q).result = (q.answer Source.ofTable store).2.mapError failureError := by
  rw [ask, got]

/-- A command that asks a question about the packages of an index file. -/
theorem tells_of_question (q : Question) {wrong : Store → Prop} (h : w.ReadsJson a path)
    (indexed : a.verb.usesIndex = true)
    (judges : ∀ store : Store, store.Formed →
      Judges ((q.answer Source.ofTable store).2.mapError failureError) .resolutionError (wrong store))
    (file : w.Faulty a path ↔ w.files.IndexIs path .faulty)
    (validation : w.Invalid a path ↔ w.files.IndexIs path .invalid)
    (resolution : w.Unresolved a path ↔ ∃ store, w.files.IndexIs path (.loaded store) ∧ wrong store) :
    ∃ code, Comes (w.ask q).result code ∧ w.Tells a path code := by
  refine tells_of_index h indexed (fun log e => ask_error q) (fun log store formed got => ?_) file validation resolution
  rw [ask_stored q got]
  exact judges store formed

theorem judges_dependents {log : List Record} {store : Store} (formed : store.Formed) (name : String)
    (got : w.packages = (log, .ok (.stored store))) : Judges (w.dependents name).result .resolutionError False := by
  obtain ⟨found, told, regular⟩ := exists_dependents formed name
  rw [dependents, got]
  simp only [told]
  refine .passed nofun (.output (.of_fields ?_ rfl))
  exact .cons "dependents" rfl (.arr (List.forall_mem_map.mpr regular)) .empty

/-! ### Every command -/

theorem faulty_of_input {v : Json} (verb : a.verb = .checkDeps) (taken : w.Input a v) :
    w.Faulty a path ↔ w.files.IndexIs path .faulty := by
  rw [Faulty, verb]
  constructor
  · rintro (⟨_, nothing⟩ | ⟨_, is⟩)
    · exact absurd taken (nothing v)
    · exact is
  · exact fun is => .inr ⟨rfl, is⟩

theorem tells_of_no_input (verb : a.verb = .checkDeps) (nothing : ∀ v, ¬ w.Input a v) :
    w.Tells a path .fileError := by
  refine tells_file (.inl ⟨by rw [verb]; rfl, nothing⟩) ?_ ?_
  · rw [Invalid, verb]
    rintro ⟨⟨v, taken⟩, _⟩
    exact nothing v taken
  · rw [Unresolved, verb]
    rintro ⟨entries, holds, _⟩
    exact nothing _ ⟨holds, fun _ => ⟨entries, rfl⟩⟩

/-- The requirements of a file are taken from it before any package is looked for. -/
theorem tells_of_requirements (h : w.ReadsJson a path) (verb : a.verb = .checkDeps) :
    ∃ code, Comes (w.carryOut a).result code ∧ w.Tells a path code := by
  obtain ⟨json, usable, bounded⟩ := h.input (by rw [verb]; rfl)
  rw [carryOut, verb]
  rcases document_cases json usable bounded with ⟨v, holds, got⟩ | ⟨nothing, message, failed⟩
  · have unmapped (noMapping : ∀ entries, v ≠ .obj entries) : ∀ x, ¬ w.Input a x := by
      rintro x ⟨holds', mapping⟩
      cases holds.unique holds'
      obtain ⟨entries, rfl⟩ := mapping verb
      exact noMapping entries rfl
    rw [got]
    cases v with
    | scalar k => exact ⟨_, .error rfl, tells_of_no_input verb (unmapped nofun)⟩
    | arr items => exact ⟨_, .error rfl, tells_of_no_input verb (unmapped nofun)⟩
    | obj entries =>
        have taken : w.Input a (.obj entries) := ⟨holds, fun _ => ⟨entries, rfl⟩⟩
        refine tells_of_question (.requirements entries) h (by rw [verb]; rfl)
          (fun store formed => judges_requirements formed (holds.regular bounded).names)
          (faulty_of_input verb taken) ?_ ?_
        · rw [Invalid, verb]
          exact ⟨And.right, fun is => ⟨⟨_, taken⟩, is⟩⟩
        · rw [Unresolved, verb]
          constructor
          · rintro ⟨others, holds', unresolved⟩
            cases holds.unique holds'
            exact unresolved
          · exact fun unresolved => ⟨entries, holds, unresolved⟩
  · rw [failed]
    exact ⟨_, .error rfl, tells_of_no_input verb fun v taken => nothing v taken.1⟩

/-- By cases on the command, which decides what can be invalid and what can be left unresolved. -/
theorem exists_code (h : w.ReadsJson a path) : ∃ code, Comes (w.carryOut a).result code ∧ w.Tells a path code := by
  obtain ⟨_, _, _, _, verb, subject, style, _, _, _⟩ := a
  cases verb with
  | validate =>
      exact tells_of_document h rfl nofun rfl
        (fun _ holds => judges_validate (holds.digestible (h.input rfl).2.2).texted) Iff.rfl id
  | analyze =>
      exact tells_of_document h rfl nofun rfl
        (fun _ holds => judges_analyze (holds.regular (h.input rfl).2.2) (holds.digestible (h.input rfl).2.2).texted)
        Iff.rfl id
  | suggest =>
      exact tells_of_document h rfl nofun rfl
        (fun _ holds => judges_suggest (holds.digestible (h.input rfl).2.2).texted) Iff.rfl id
  | format =>
      exact tells_of_document h rfl nofun rfl
        (fun _ holds => judges_format style (holds.digestible (h.input rfl).2.2).texted) Iff.rfl id
  | resolve =>
      exact tells_of_question (.resolve subject) h rfl (fun store formed => judges_resolve formed subject)
        (faulty_of_index rfl rfl) Iff.rfl Iff.rfl
  | tree =>
      exact tells_of_question (.tree subject) h rfl (fun store formed => judges_tree formed subject)
        (faulty_of_index rfl rfl) Iff.rfl Iff.rfl
  | dependents =>
      refine tells_of_index h rfl (fun log e got => by rw [carryOut, dependents, got])
        (fun log store formed => judges_dependents formed subject) (faulty_of_index rfl rfl) Iff.rfl ?_
      exact ⟨nofun, fun ⟨_, _, wrong⟩ => wrong⟩
  | checkDeps => exact tells_of_requirements h rfl
  | examples =>
      refine ⟨_, comes_examples, tells_success ?_ id id⟩
      rintro (⟨⟨⟩, _⟩ | ⟨⟨⟩, _⟩)

/-- A command whose files are documents has an exit code, and the code tells what is wrong: 1 a file, 3 the document
of the command or a release of its index, 4 the resolution, and 0 nothing. Where documents are printed, one is, and it
has a field for an error exactly when the command ended with one. -/
theorem exit_code_tells (h : w.ReadsJson a path) (before : List Record) :
    ∃ code, ((w.carryOut a).finish a.asJson before).exit = .ok code.number ∧ w.Tells a path code ∧
      (a.asJson = true → ∃ v, Json.read ((w.carryOut a).finish a.asJson before).output = .ok v ∧
        (v.TellsError ↔ ∃ e, (w.carryOut a).result = .error e)) := by
  obtain ⟨code, comes, tells⟩ := exists_code h
  obtain ⟨exit, printed⟩ := comes.finish a.asJson before
  exact ⟨code, exit, tells, printed⟩

/-- A world with one file, which is the index file. -/
def ofIndex (text : String) : World := ⟨[("index.json", text)], { indexFile := .str "index.json" }, .ofScript []⟩

def resolveLogic : Arguments := { verb := .resolve, subject := "logic", outputForm := .value .json }

/-- An index file with a release of the package. -/
def oneRelease : World :=
  ofIndex "\x7b\"packages\": [\x7b\"name\": \"logic\", \"versions\": [\"1.0.0\"]\x7d]\x7d"

theorem exit_code_tells_oneRelease :
    oneRelease.ReadsJson resolveLogic "index.json" ∧
      ∃ code, ((oneRelease.carryOut resolveLogic).finish resolveLogic.asJson []).exit = .ok code.number ∧
        oneRelease.Tells resolveLogic "index.json" code ∧
        (resolveLogic.asJson = true →
          ∃ v, Json.read ((oneRelease.carryOut resolveLogic).finish resolveLogic.asJson []).output = .ok v ∧
            (v.TellsError ↔ ∃ e, (oneRelease.carryOut resolveLogic).result = .error e)) := by
  have holds : oneRelease.files.Holds "index.json" (Store.singleDocument [.str "1.0.0"]) :=
    ⟨_, rfl, eq_ok_of_toOption (by decide +kernel)⟩
  have reads : oneRelease.ReadsJson resolveLogic "index.json" :=
    ⟨fun file => absurd file (by decide), fun _ => ⟨rfl, by decide, holds.bounded rfl⟩⟩
  exact ⟨reads, exit_code_tells reads []⟩

def repeatedText : String :=
  "\x7b\"packages\": [\x7b\"name\": \"logic\", \"versions\": [\"1.0.0\", \"1.0.0\"]\x7d]\x7d"

/-- An index file in which a package has a release without data twice. -/
def repeatedRelease : World := ofIndex repeatedText

/-- A release that is there twice is no error of the file when it has no data. -/
theorem success_of_repeatedRelease :
    repeatedRelease.ReadsJson resolveLogic "index.json" ∧
      (∃ v, repeatedRelease.files.Holds "index.json" v ∧ ∃ record ∈ v.indexEntries, ∃ p,
        Package.ofJson record = .ok p ∧ ¬ p.versionTexts.Nodup) ∧
      ((repeatedRelease.carryOut resolveLogic).finish resolveLogic.asJson []).exit =
        .ok ExitCode.success.number := by
  have holds : repeatedRelease.files.Holds "index.json" (Store.singleDocument [.str "1.0.0", .str "1.0.0"]) :=
    ⟨repeatedText, by decide +kernel, eq_ok_of_toOption (by decide +kernel)⟩
  refine ⟨⟨fun file => absurd file (by decide), fun _ => ⟨rfl, by decide, holds.bounded rfl⟩⟩, ⟨_, holds, _, List.mem_singleton.mpr rfl, _, rfl, by decide⟩, ?_⟩
  exact eq_ok_of_toOption (by decide +kernel)

end World

end ExprRegistry.Cli
