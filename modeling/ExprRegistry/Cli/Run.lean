import ExprRegistry.Cli.Arguments
import ExprRegistry.Expr.Check
import ExprRegistry.Expr.Metrics
import ExprRegistry.Expr.Samples
import ExprRegistry.Http.Index
import ExprRegistry.Resolve.Tree
import ExprRegistry.Store.File

/-!
Carrying out commands. A command reads documents from the files it is given and ends in one of three
ways: with an output, with an error that is reported and gives an exit code, or, where a value does not
fit, without any exit code.
-/

namespace ExprRegistry.Cli

/-- The meanings of exit codes. -/
inductive ExitCode where
  | success
  | fileError
  | connectionError
  | validationError
  | resolutionError
  deriving DecidableEq

def ExitCode.number : ExitCode → Nat
  | success => 0
  | fileError => 1
  | connectionError => 2
  | validationError => 3
  | resolutionError => 4

/-- The output of a command, in both of its forms. -/
structure Output where
  code : ExitCode
  data : Json
  text : String

/-- Why a command ends without output. -/
inductive CommandError where
  | validation (e : ValidationError)
  | resolution (e : ResolveError)
  | connection (message : String)
  | file (message : String)
  | needsIndexFile
  /-- A value does not fit; there is no report of this. -/
  | unfit (how : Unfit)

namespace CommandError

/-- The error of a document that is refused. -/
def refused (e : ValidationError) : CommandError := if e.hasMessage then .validation e else .unfit .value

theorem refused_of_told {e : ValidationError} (told : e.hasMessage = true) : refused e = .validation e := if_pos told

/-- The exit code of an error; there is none for a value that does not fit. -/
def code? : CommandError → Except Unfit ExitCode
  | validation _ => .ok .validationError
  | resolution _ => .ok .resolutionError
  | connection _ => .ok .connectionError
  | file _ => .ok .fileError
  | needsIndexFile => .ok .fileError
  | unfit how => .error how

def message : CommandError → String
  | validation e => e.report.message
  | resolution e => e.message
  | connection message => message
  | file message => message
  | needsIndexFile => "The dependents command requires a package index file (--index)"
  | unfit _ => ""

def described (kind message : String) : Json := .obj [("kind", .str kind), ("message", .str message)]

end CommandError

def Detail.toJson (d : Detail) : Json :=
  .obj [("kind", .str d.kind.name), ("message", .str d.message)]

def reportJson (r : Report) : Json :=
  let cause : Fields := match r.cause with
    | none => []
    | some cause => [("cause", Detail.toJson cause)]
  .obj (("kind", .str r.kind.name) :: ("message", .str r.message) ::
    if r.path.isEmpty then cause else ("path", .str r.path) :: cause)

def CommandError.toJson : CommandError → Json
  | validation e => reportJson e.report
  | resolution e => e.toJson
  | connection message => described "connection" message
  | file message => described "file" message
  | needsIndexFile => described "unsupported" "dependents requires --index"
  | unfit _ => .null

/-- What a command leaves behind: its log, the requests it sent, and how it ended. -/
structure Ended where
  log : List Record
  requests : List Http.Request
  result : Except CommandError Output

/-- The world that a command sees. -/
structure World where
  files : Files
  settings : Settings
  transport : Http.Transport

def World.document (w : World) (path : String) : Except CommandError Json :=
  match w.files.read path with
  | .error .unusable => .error (.unfit .value)
  | .error e => .error (.file (e.message path))
  | .ok text =>
    match readDocumentText path text with
    | .error (.broken reason) => .error (.file reason)
    | .error (.unfit how) => .error (.unfit how)
    | .ok v => .ok v

/-- The packages that a command looks into. -/
inductive Packages where
  | stored (store : Store)
  | remote (index : Http.Index)

def indexFileError : IndexFileError → CommandError
  | .missing path => .file path
  | .index (.store (.invalid e)) => .validation e
  | .index (.store (.unfit how)) => .unfit how
  | .index (.record (.unfit how)) => .unfit how
  | .index (.unfit how) => .unfit how
  | .index e => .file e.message

/-- Opens the packages that the settings name: an index file, or else a remote index. -/
def World.packages (w : World) : List Record × Except CommandError Packages :=
  if w.settings.indexFile.isGiven then
    match w.settings.indexFile.asText with
    | .torn _ _ _ => ([], .error (.unfit .encoding))
    | .whole path =>
      let loaded := w.files.loadIndex path true
      (loaded.log, (loaded.result.mapError indexFileError).map .stored)
  else
    ([], ((Http.Index.ofBase .null w.settings true).mapError .unfit).map .remote)

def failureError : Failure → CommandError
  | .resolve e => .resolution e
  | .lookup (.unfit how) => .unfit how
  | .lookup e => .connection e.message
  | .unfit how => .unfit how
  | .tooDeep => .unfit .range

def resolvedJson (pins : Table Scalar String) : Json :=
  .obj [("resolved", .obj (pins.map fun (name, version) => (name, .str version)))]

def resolvedText (pins : Table Scalar String) : String :=
  "\n".intercalate (pins.map fun (name, version) => name.display ++ " " ++ version)

/-- A question about packages that any source can answer. -/
inductive Question where
  | resolve (name : String)
  | requirements (entries : Fields)
  | tree (name : String)

def Question.answer {σ : Type} (q : Question) (src : Source σ) (state : σ) :
    Run σ × Except Failure Output :=
  match q with
  | .resolve name =>
    let (run, r) := ExprRegistry.resolve src (.str name) state
    (run, r.map fun pins => ⟨.success, resolvedJson pins, resolvedText pins⟩)
  | .requirements entries =>
    let (run, r) := resolveRequirements src entries state
    (run, r.map fun pins =>
      ⟨.success, resolvedJson pins, if pins.isEmpty then "No dependencies" else resolvedText pins⟩)
  | .tree name =>
    let (run, r) := dependencyTree src (.str name) state
    (run, r.map fun t =>
      ⟨if t.hasFailure then .resolutionError else .success, t.toJson, t.render "  "⟩)

def World.ask (w : World) (q : Question) : Ended :=
  match w.packages with
  | (log, .error e) => ⟨log, [], .error e⟩
  | (log, .ok (.stored store)) =>
    let (run, r) := q.answer Source.ofTable store
    ⟨log ++ run.log, [], r.mapError failureError⟩
  | (log, .ok (.remote index)) =>
    let (run, r) := q.answer index.source (Http.Session.start w.settings w.transport)
    ⟨log ++ run.log, run.source.requests, r.mapError failureError⟩

def World.dependents (w : World) (name : String) : Ended :=
  match w.packages with
  | (log, .error e) => ⟨log, [], .error e⟩
  | (log, .ok (.remote _)) => ⟨log, [], .error .needsIndexFile⟩
  | (log, .ok (.stored store)) =>
    match store.dependents (.str name) with
    | .error how => ⟨log, [], .error (.unfit how)⟩
    | .ok found =>
      let lines := found.map fun d => d.name.display ++ " (" ++ d.requirement.display ++ ")"
      ⟨log, [], .ok ⟨.success, .obj [("dependents", .arr (found.map Store.Dependent.toJson))],
        if found.isEmpty then "No packages depend on " ++ name else "\n".intercalate lines⟩⟩

def analysisError : TermError → CommandError
  | .invalid e => .validation (.expression e)
  | .misplaced (.unfit how) => .unfit how
  | .misplaced (.notExpression _) => .unfit .kind
  | .unfit how => .unfit how

/-- The tag of the expression in a document that is fit for publication. -/
def publishedTag (document : Json) : String :=
  let tagOf : Json → String
    | .obj fields => (Json.fieldOrNull fields "g").display
    | _ => ""
  match document with
  | .obj fields =>
    match Json.field? fields "expression_data", Json.field? fields "name" with
    | some data, some _ => tagOf data
    | _, _ => tagOf document
  | _ => tagOf document

def validateOutput (document : Json) : Except CommandError Output :=
  match document.checkPublishable with
  | .error e => .error (.refused e)
  | .ok () =>
    let tag := publishedTag document
    .ok ⟨.success, .obj [("valid", .bool true), ("type", .str tag)], "Valid G-expression (" ++ tag ++ ")"⟩

def analyzeOutput (document : Json) : Except CommandError Output :=
  match Analysis.ofJson document with
  | .error e => .error (analysisError e)
  | .ok a =>
    .ok ⟨.success, a.toJson, "\n".intercalate
      ["Type:       " ++ a.form.tag,
       "Complexity: " ++ toString a.complexity,
       "Depth:      " ++ toString a.depth,
       "Structure:  " ++ a.outline.render .spaced]⟩

def suggestOutput (document : Json) : Except CommandError Output :=
  match document.fixes with
  | .error how => .error (.unfit how)
  | .ok [] =>
    .ok ⟨.success, .obj [("valid", .bool true), ("suggestions", .arr [])],
      "G-expression is valid; nothing to fix"⟩
  | .ok hints =>
    .ok ⟨.validationError, .obj [("valid", .bool false), ("suggestions", .arr (hints.map .str))],
      "\n".intercalate (hints.map ("- " ++ ·))⟩

/-- Writes an expression in a style; one that is not named is the indented one. -/
def formatOutput (style : Given Style) (document : Json) : Except CommandError Output :=
  match Expr.decode document with
  | .error e => .error (.refused (.expression e))
  | .ok e =>
    match e.format (style.value?.getD .indented) with
    | .error (.unfit how) => .error (.unfit how)
    | .error (.notExpression _) => .error (.unfit .kind)
    | .ok text =>
      let name := style.toJson fun s => .str (styleName s)
      .ok ⟨.success, .obj [("style", name), ("output", .str text)], text⟩

def sampleLines (s : Sample) (index : Nat) : List String :=
  [toString (index + 1) ++ ". " ++ s.name, "   " ++ s.description,
   "   " ++ ((s.expression.format .compact).toOption.getD "")]

def sampleJson (s : Sample) : Json :=
  .obj [("name", .str s.name), ("description", .str s.description),
    ("expression", s.expression.encode.toOption.getD .null)]

def examplesOutput : Output :=
  ⟨.success, .arr (Sample.all.map sampleJson),
    "\n".intercalate (Sample.all.zipIdx.flatMap fun (s, i) => sampleLines s i)⟩

def requirementsOf (path : String) : Json → Except CommandError Fields
  | .obj fields => .ok fields
  | _ => .error (.file (path ++ " must contain a mapping of package name to requirement"))

def World.carryOut (w : World) (a : Arguments) : Ended :=
  let quiet (r : Except CommandError Output) : Ended := ⟨[], [], r⟩
  match a.verb with
  | .validate => quiet ((w.document a.subject).bind validateOutput)
  | .analyze => quiet ((w.document a.subject).bind analyzeOutput)
  | .suggest => quiet ((w.document a.subject).bind suggestOutput)
  | .format => quiet ((w.document a.subject).bind (formatOutput a.style))
  | .resolve => w.ask (.resolve a.subject)
  | .tree => w.ask (.tree a.subject)
  | .dependents => w.dependents a.subject
  | .checkDeps =>
    match (w.document a.subject).bind (requirementsOf a.subject) with
    | .error e => quiet (.error e)
    | .ok entries => w.ask (.requirements entries)
  | .examples => quiet (.ok examplesOutput)

def programRecord (level : Level) (message : String) : Record := ⟨level, "root", message, []⟩

def printed (asJson : Bool) (data : Json) (text : String) : String :=
  (if asJson then data.render .indentedPlain else text) ++ "\n"

/-- Why the program ends without an exit code. -/
inductive Crash where
  | unfit (how : Unfit)
  | logFile (e : PathError)

/-- How the program ends: its exit code, what it printed, its log and the requests it sent. -/
structure Finished where
  exit : Except Crash Nat
  output : String
  log : List Record
  requests : List Http.Request

def Ended.finish (e : Ended) (asJson : Bool) (before : List Record) : Finished :=
  let log := before ++ e.log
  match e.result with
  | .ok out => ⟨.ok out.code.number, printed asJson out.data out.text, log, e.requests⟩
  | .error error =>
    match error.code? with
    | .error how => ⟨.error (.unfit how), "", log, e.requests⟩
    | .ok code =>
      ⟨.ok code.number, if asJson then printed true (.obj [("error", error.toJson)]) "" else "",
        log ++ [programRecord .error error.message], e.requests⟩

/-- The log as it is written from a level on, a line for each record. -/
def logText (threshold : Level) (log : List Record) : String :=
  String.join ((log.filter (Record.reaches threshold)).map fun r =>
    "[" ++ r.level.name ++ "] " ++ r.message ++ "\n")

/-- Where the log is written. -/
inductive LogTarget where
  | errorOutput
  /-- The file with a path; without one, the null device. -/
  | file (path : Option String)

/-- Opens the target of the log. Its file is there from then on. -/
def LogTarget.openIn (files : Files) (path : Option String) : Except PathError (Files × LogTarget) :=
  match path with
  | none => .ok (files, .errorOutput)
  | some "" => .ok (files, .errorOutput)
  | some path => (files.openToAppend path).map fun (files, path) => (files, .file path)

def LogTarget.write (target : LogTarget) (text : String) (files : Files) : Files :=
  match target with
  | .file (some path) => files.append path text
  | _ => files

/-- Runs the program on a command line that was understood; text of the log that is written on the way is
seen by what reads files later. -/
def runOn (a : Arguments) (environment : Fields) (files : Files) (target : LogTarget)
    (transport : Http.Transport) : Finished :=
  let configured := ({} : Settings).configure a.settingFlags (.obj environment) files
  match configured.failure with
  | some (.file e) =>
    ⟨.ok ExitCode.fileError.number, "", configured.log ++ [programRecord .error e.message], []⟩
  | some (.unfit how) => ⟨.error (.unfit how), "", configured.log, []⟩
  | none =>
    let before := configured.log ++
      [programRecord .info "Arguments parsed.", programRecord .debug "CLI start"]
    let files := target.write (logText a.threshold before) files
    ((World.mk files configured.settings transport).carryOut a).finish a.asJson before

/-- A run with what it left behind: the files, and the text on the error output. -/
structure Traced where
  finished : Finished
  files : Files
  errors : String

/-- Runs the program on a command line that was understood, from the opening of its log on. -/
def run (a : Arguments) (environment : Fields) (files : Files)
    (transport : Http.Transport) : Traced :=
  match LogTarget.openIn files a.logPath? with
  | .error e => ⟨⟨.error (.logFile e), "", [], []⟩, files, ""⟩
  | .ok (files, target) =>
    let finished := runOn a environment files target transport
    let text := logText a.threshold finished.log
    ⟨finished, target.write text files,
      match target with
      | .errorOutput => text
      | .file _ => ""⟩

end ExprRegistry.Cli
