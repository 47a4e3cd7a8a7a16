import ExprRegistry.File.Document
import ExprRegistry.Json.Display
import ExprRegistry.Json.Unfit
import ExprRegistry.Log.Record
import ExprRegistry.Settings.Basic
import ExprRegistry.Text.Numeral

/-!
The three layers of settings: a settings file, the environment and the command line, each over the one
before. A value in a file is converted to the type of its setting; one that cannot be converted is passed
over with a warning, except that a number out of range ends the layer.
-/

namespace ExprRegistry

namespace Json

def toInt : Json → Except Unfit Int
  | .bool b => .ok (if b then 1 else 0)
  | .int n => .ok n
  | .float x =>
    if x.isNaN then .error .value
    else if x.isInfinite then .error .range
    else .ok x.truncate
  | .str s =>
    match Text.integer? s with
    | some n => .ok n
    | none => .error .value
  | .text _ => .error .value
  | _ => .error .kind

def toDouble : Json → Except Unfit Double
  | .bool b => .ok (Double.ofInt (if b then 1 else 0))
  | .int n =>
    let x := Double.ofInt n
    if x.isFinite then .ok x else .error .range
  | .float x => .ok x
  | .str s =>
    match Text.double? s with
    | some x => .ok x
    | none => .error .value
  | .text _ => .error .value
  | _ => .error .kind

end Json

def Setting.convert (setting : Setting) (v : Json) : Except Unfit Json :=
  match setting with
  | .apiUrl => v.toText.map .text
  | .indexFile => v.toText.map .text
  | .requestTimeout => v.toInt.map .int
  | .retryMax => v.toInt.map .int
  | .retryDelay => v.toDouble.map .float
  | .cacheTtl => v.toInt.map .int

/-- Why a settings file is not read. -/
inductive SettingsFileError where
  | missing (path : String)
  | broken (path : String)
  | notMapping (path : String)

def SettingsFileError.message : SettingsFileError → String
  | missing path => "Config file not found: " ++ path
  | broken path => "Could not parse config file " ++ path ++ ": not a YAML document"
  | notMapping path => "Config file " ++ path ++ " must contain a mapping"

/-- The section of a document that holds settings: its own, or the whole document when there is none. A
section that is no mapping holds nothing. -/
def settingsSection (fields : Fields) : Fields :=
  match Json.field? fields "gexreg" with
  | some (.obj own) => own
  | some _ => []
  | none => fields

def Files.settingsAt (files : Files) (path : String) : Except SettingsFileError Fields :=
  match files.text? path with
  | none => .error (.missing path)
  | some text =>
    match Yaml.read? text with
    | none => .error (.broken path)
    | some (.obj fields) => .ok (settingsSection fields)
    | some v => if v.isGiven then .error (.notMapping path) else .ok []

/-- Why settings are not applied to the end. -/
inductive ConfigureError where
  | file (e : SettingsFileError)
  | unfit (how : Unfit)

/-- Whether a number can be that of an open file: those numbers have 32 bits. -/
def isFileNumber (n : Int) : Bool :=
  decide (-(Nat.pow 2 31 : Nat) ≤ n) && decide (n < (Nat.pow 2 31 : Nat))

/-- Reads a settings file. Nothing is read when no path is given. A text is a path, at which there is no file when
it is not whole; an integer or a truth value would be the number of a file that is open, and none is. -/
def Files.loadSettings (files : Files) (path : Json) : Except ConfigureError Fields :=
  if !path.isGiven then .ok []
  else
    match path with
    | .str name => (files.settingsAt name).mapError .file
    | .text _ => .error (.file (.missing path.display))
    | .int n =>
      if isFileNumber n then .error (.file (.missing path.display)) else .error (.unfit .range)
    | .bool _ => .error (.file (.missing path.display))
    | _ => .error (.unfit .kind)

namespace Settings

def warning (message : String) : Record := ⟨.warning, "cli_config", message, []⟩

/-- The settings after a layer, what was logged, and how the layer ended early if it did. -/
structure Layered where
  settings : Settings
  log : List Record
  failure : Option Unfit

def applyEntry (s : Settings) (key : Scalar) (v : Json) : Layered :=
  match Setting.ofKey? key with
  | none => ⟨s, [warning ("Ignoring unknown config key: " ++ key.display)], none⟩
  | some setting =>
    if v = .null then ⟨s.set setting .null, [], none⟩
    else
      match setting.convert v with
      | .ok converted => ⟨s.set setting converted, [], none⟩
      | .error .range => ⟨s, [], some .range⟩
      | .error _ =>
        ⟨s, [warning ("Ignoring invalid value for config key " ++ setting.key ++ ": " ++ v.shown)],
          none⟩

def applyEntries (s : Settings) : Fields → Layered
  | [] => ⟨s, [], none⟩
  | (key, v) :: rest =>
    let first := s.applyEntry key v
    match first.failure with
    | some _ => first
    | none =>
      let later := applyEntries first.settings rest
      { later with log := first.log ++ later.log }

def applyConfig (s : Settings) : Json → Layered
  | .obj fields => s.applyEntries fields
  | _ => ⟨s, [], some .operation⟩

/-- The text of a variable without the white space around it; nothing when that leaves nothing, or when
the variable holds nothing. -/
def environmentText? (environment : Fields) (name : String) : Except Unfit (Option Text) :=
  match Json.fieldOrNull environment name with
  | .text t => .ok (if t.allBlank then none else some t.stripped)
  | v => if v.isGiven then .error .operation else .ok none

def setText (s : Settings) (setting : Setting) (text : Option Text) : Settings :=
  match text with
  | some text => s.set setting (.text text)
  | none => s

def applyTimeout (s : Settings) (v : Json) : Layered :=
  if !v.isGiven then ⟨s, [], none⟩
  else
    match v.toInt with
    | .ok n => ⟨s.set .requestTimeout (.int n), [], none⟩
    | .error .value =>
      ⟨s, [warning ("Ignoring invalid GEXREG_REQUEST_TIMEOUT: " ++ v.shown)], none⟩
    | .error how => ⟨s, [], some how⟩

def applyVariables (s : Settings) (environment : Fields) : Layered :=
  match environmentText? environment "GEXREG_API_URL" with
  | .error how => ⟨s, [], some how⟩
  | .ok url =>
    let s := s.setText .apiUrl url
    match environmentText? environment "GEXREG_INDEX" with
    | .error how => ⟨s, [], some how⟩
    | .ok path =>
      (s.setText .indexFile path).applyTimeout
        (Json.fieldOrNull environment "GEXREG_REQUEST_TIMEOUT")

/-- Applies an environment, a mapping of variables; null is an environment without any. -/
def applyEnvironment (s : Settings) : Json → Layered
  | .obj environment => s.applyVariables environment
  | .null => ⟨s, [], none⟩
  | _ => ⟨s, [], some .operation⟩

/-- What the command line says about settings; null for what it does not mention. -/
structure Flags where
  config : Json := .null
  apiUrl : Json := .null
  indexFile : Json := .null
  requestTimeout : Json := .null

/-- Applies the command line. An address that is given takes the place of any index file. -/
def applyFlags (s : Settings) (flags : Flags) : Layered :=
  let s := if flags.apiUrl.isGiven then (s.set .apiUrl flags.apiUrl).set .indexFile .null else s
  let s := if flags.indexFile.isGiven then s.set .indexFile flags.indexFile else s
  if flags.requestTimeout = .null then ⟨s, [], none⟩
  else
    match flags.requestTimeout.toInt with
    | .ok n => ⟨s.set .requestTimeout (.int n), [], none⟩
    | .error how => ⟨s, [], some how⟩

/-- The settings after all layers, what was logged, and the failure if one of them failed. -/
structure Configured where
  settings : Settings
  log : List Record
  failure : Option ConfigureError

/-- Applies the settings file that the command line names, the environment and the command line. -/
def configure (s : Settings) (flags : Flags) (environment : Json) (files : Files) : Configured :=
  match files.loadSettings flags.config with
  | .error e => ⟨s, [], some e⟩
  | .ok entries =>
    let first := s.applyEntries entries
    match first.failure with
    | some how => ⟨first.settings, first.log, some (.unfit how)⟩
    | none =>
      let second := first.settings.applyEnvironment environment
      match second.failure with
      | some how => ⟨second.settings, first.log ++ second.log, some (.unfit how)⟩
      | none =>
        let third := second.settings.applyFlags flags
        ⟨third.settings, first.log ++ second.log ++ third.log, third.failure.map .unfit⟩

end Settings

end ExprRegistry
