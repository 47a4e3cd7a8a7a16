import ExprRegistry.Expr.Format
import ExprRegistry.Log.Record
import ExprRegistry.Settings.Layers
import ExprRegistry.Text.Numeral

/-!
Command lines. Flags for the whole program stand before the command, flags of the command after it. A
long flag may be cut short as long as it stays unique, its value follows as the next word or after an
equals sign, and a short flag takes the rest of its word. A word of two dashes ends the flags, and two
dashes where the word of a flag has its value are no value at all. What no flag and no command takes is
wrong, but only when no flag asks for help after it.
-/

namespace ExprRegistry.Cli

/-- The flags. -/
inductive Flag where
  | help
  | logLevel
  | logFile
  | config
  | outputFormat
  | style
  | index
  | api
  | timeout
  deriving DecidableEq

def Flag.names : Flag → List String
  | help => ["-h", "--help"]
  | logLevel => ["--loglevel"]
  | logFile => ["--logfile"]
  | config => ["-c", "--config"]
  | outputFormat => ["-o", "--output-format"]
  | style => ["--style"]
  | index => ["--index"]
  | api => ["--api"]
  | timeout => ["--timeout"]

/-- The commands by kind. -/
inductive Verb where
  | validate
  | analyze
  | suggest
  | format
  | resolve
  | tree
  | dependents
  | checkDeps
  | examples
  deriving DecidableEq

namespace Verb

def name : Verb → String
  | validate => "validate"
  | analyze => "analyze"
  | suggest => "suggest"
  | format => "format"
  | resolve => "resolve"
  | tree => "tree"
  | dependents => "dependents"
  | checkDeps => "check-deps"
  | examples => "examples"

def all : List Verb :=
  [validate, analyze, suggest, format, resolve, tree, dependents, checkDeps, examples]

def ofName? (name : String) : Option Verb := all.find? fun v => v.name == name

def subject? : Verb → Option String
  | validate => some "FILE"
  | analyze => some "FILE"
  | suggest => some "FILE"
  | format => some "FILE"
  | resolve => some "NAME"
  | tree => some "NAME"
  | dependents => some "NAME"
  | checkDeps => some "FILE"
  | examples => none

def usesIndex : Verb → Bool
  | resolve => true
  | tree => true
  | dependents => true
  | checkDeps => true
  | _ => false

def flags (v : Verb) : List Flag :=
  .help :: (if v = format then [.style] else []) ++
    (if v.usesIndex then [.index, .api, .timeout] else [])

end Verb

/-- What a flag was given: a value, or nothing where its word has two dashes in place of one. -/
inductive Given (α : Type) where
  | value (v : α)
  | nothing
  deriving DecidableEq

namespace Given

def value? {α : Type} : Given α → Option α
  | value v => some v
  | nothing => none

/-- Reads what the word of a flag says. Two dashes are not read, whatever the flag takes. -/
def read? {α : Type} (valueOf? : String → Option α) (text : String) : Option (Given α) :=
  if text == "--" then some .nothing else (valueOf? text).map .value

/-- What a flag was given as a document; nothing is written as a list without elements. -/
def toJson {α : Type} (write : α → Json) : Given α → Json
  | value v => write v
  | nothing => .arr []

def optionJson {α : Type} (write : α → Json) : Option (Given α) → Json
  | some g => g.toJson write
  | none => .null

end Given

/-- The forms of output. -/
inductive OutputForm where
  | text
  | json
  deriving DecidableEq

def OutputForm.name : OutputForm → String
  | text => "text"
  | json => "json"

/-- A command line that was understood. Only the fields of its command have a meaning. -/
structure Arguments where
  logLevel : Given Level := .value .warning
  logFile : Option (Given String) := none
  config : Option (Given String) := none
  outputForm : Given OutputForm := .value .text
  verb : Verb := .examples
  subject : String := ""
  style : Given Style := .value .pretty
  index : Option (Given String) := none
  api : Option (Given String) := none
  timeout : Option (Given Int) := none
  deriving DecidableEq

/-- Why a command line is not carried out. -/
inductive Usage where
  | wrong
  | help
  deriving DecidableEq

/-- What a word of a command line is. -/
inductive Part where
  | word
  | dashes
  | flag (f : Flag) (value : Option String)
  | helpWith (more : List Char)
  | unknown

/-- Whether characters are a negative number: digits after a minus, possibly with a point before the
last of them. A line feed may follow. -/
def isNegativeNumber : List Char → Bool
  | '-' :: rest =>
    let body := if rest.getLast? == some '\n' then rest.dropLast else rest
    let whole := body.takeWhile Text.isDigit
    match body.drop whole.length with
    | [] => !whole.isEmpty
    | '.' :: places => !places.isEmpty && places.all Text.isDigit
    | _ => false
  | _ => false

def startsWith (s start : String) : Bool := start.toList.isPrefixOf s.toList

/-- The flags whose long names begin with a word, up to an equals sign, with the value after it. -/
def longMatches (flags : List Flag) (cs : List Char) : List (Flag × Option String) :=
  let (start, value) := Text.cutAt (· == '=') cs
  flags.flatMap fun f =>
    (f.names.filter fun name => start.isPrefixOf name.toList).map fun _ => (f, value.map String.ofList)

/-- The flags whose short names begin a word, with the value that is the rest of it. -/
def shortMatches (flags : List Flag) (cs : List Char) : List (Flag × Option String) :=
  flags.flatMap fun f =>
    (f.names.filter fun name => name.toList = cs.take 2).map fun _ =>
      (f, some (String.ofList (cs.drop 2)))

/-- A flag with its value. Help takes none; characters in the word of its short flag can be other flags. -/
def valued (f : Flag) (isLong : Bool) (value : Option String) : Part :=
  match f, value with
  | .help, some more => .helpWith (if isLong then [] else more.toList)
  | _, _ => .flag f value

/-- Tells what a word is among the flags; nothing when it could be several flags. -/
def classify (flags : List Flag) (arg : String) : Option Part :=
  let named (name : String) : Option Flag := flags.find? fun f => f.names.contains name
  match arg.toList with
  | '-' :: d :: rest =>
    match named arg with
    | some f => some (.flag f none)
    | none =>
      let cs := '-' :: d :: rest
      let (start, value) := Text.cutAt (· == '=') cs
      match value, named (String.ofList start) with
      | some value, some f => some (valued f (d == '-') (some (String.ofList value)))
      | _, _ =>
        match (if d == '-' then longMatches flags cs else shortMatches flags cs) with
        | [(f, value)] => some (valued f (d == '-') value)
        | _ :: _ :: _ => none
        | [] => if isNegativeNumber cs || cs.contains ' ' then some .word else some .unknown
  | _ => some .word

/-- Tells what the words of a command line are. After two dashes all are plain words. -/
def classifyAll (flags : List Flag) : List String → Option (List (String × Part))
  | [] => some []
  | arg :: rest =>
    if arg == "--" then some ((arg, .dashes) :: rest.map fun w => (w, .word))
    else
      match classify flags arg with
      | none => none
      | some part => (classifyAll flags rest).map ((arg, part) :: ·)

/-- A letter in upper case; the dotless i counts as an i. -/
def upperLetter (c : Char) : Char := if c == '\u0131' then 'I' else Text.upperAscii c

def level? (name : String) : Option Level :=
  Level.ofName? (String.ofList (name.toList.map upperLetter))

def lowered (s : String) : String := String.ofList (s.toList.map Text.lowerAscii)

def outputForm? (name : String) : Option OutputForm :=
  match lowered name with
  | "json" => some .json
  | "text" => some .text
  | _ => none

def style? (name : String) : Option Style :=
  match lowered name with
  | "pretty" => some .pretty
  | "json" => some .indented
  | "compact" => some .compact
  | _ => none

def styleName : Style → String
  | .pretty => "pretty"
  | .indented => "json"
  | .compact => "compact"

def takeGiven {α : Type} (valueOf? : String → Option α) (text : String)
    (store : Given α → Arguments) : Except Usage Arguments :=
  match Given.read? valueOf? text with
  | some g => .ok (store g)
  | none => .error .wrong

/-- Takes a flag with the text where its value stands. Of an index file and an address only one can be
given. -/
def Arguments.take (a : Arguments) (f : Flag) (text : String) : Except Usage Arguments :=
  match f with
  | .help => .error .help
  | .logLevel => takeGiven level? text fun g => { a with logLevel := g }
  | .logFile => takeGiven some text fun g => { a with logFile := some g }
  | .config => takeGiven some text fun g => { a with config := some g }
  | .outputFormat => takeGiven outputForm? text fun g => { a with outputForm := g }
  | .style => takeGiven style? text fun g => { a with style := g }
  | .index =>
    if a.api.isSome then .error .wrong
    else takeGiven some text fun g => { a with index := some g }
  | .api =>
    if a.index.isSome then .error .wrong
    else takeGiven some text fun g => { a with api := some g }
  | .timeout => takeGiven Text.integer? text fun g => { a with timeout := some g }

/-- What becomes of the flag for help with more characters in its word: each of them must be a short flag,
and one that takes a value ends the word with it or has it in the next word. -/
def helpUsage (flags : List Flag) (after : List (String × Part)) : List Char → Usage
  | [] => .wrong
  | c :: more =>
    match flags.find? fun f => f.names.contains (String.ofList ['-', c]) with
    | none => .wrong
    | some .help => if more.isEmpty then .help else helpUsage flags after more
    | some _ =>
      match more, after with
      | _ :: _, _ => .help
      | [], (_, .word) :: _ => .help
      | [], _ => .wrong

def globalFlags : List Flag := [.help, .logLevel, .logFile, .config, .outputFormat]

/-- What is understood before the command: the flags, whether there were only known ones, and the command
with the words after it. -/
structure Globals where
  arguments : Arguments
  known : Bool
  words : List String

def takeGlobals (known : Bool) (a : Arguments) : List (String × Part) → Except Usage Globals
  | [] => .error .wrong
  | (w, .word) :: rest => .ok ⟨a, known, w :: rest.map (·.1)⟩
  | (_, .dashes) :: _ => .error .wrong
  | (_, .unknown) :: rest => takeGlobals false a rest
  | (_, .flag .help _) :: _ => .error .help
  | (_, .helpWith more) :: rest => .error (helpUsage globalFlags rest more)
  | (_, .flag f (some value)) :: rest =>
    match a.take f value with
    | .error u => .error u
    | .ok a => takeGlobals known a rest
  | (_, .flag f none) :: (value, .word) :: rest =>
    match a.take f value with
    | .error u => .error u
    | .ok a => takeGlobals known a rest
  | (_, .flag _ none) :: _ => .error .wrong

/-- The word that a command is about, if it was given; a command that is about nothing has none. -/
inductive Subject where
  | pending
  | settled

/-- Takes the flags and the subject of a command; `known` tells whether everything before was taken. Two
dashes stand next to the subject. -/
def takeLocals (flags : List Flag) (subject : Subject) (known : Bool) (a : Arguments) :
    List (String × Part) → Except Usage Arguments
  | [] =>
    match subject, known with
    | .settled, true => .ok a
    | _, _ => .error .wrong
  | (w, .word) :: rest =>
    match subject with
    | .pending =>
      match rest with
      | [(_, .dashes)] => if known then .ok { a with subject := w } else .error .wrong
      | _ => takeLocals flags .settled known { a with subject := w } rest
    | .settled => takeLocals flags .settled false a rest
  | (_, .dashes) :: rest =>
    match subject, known, rest with
    | .pending, true, [(w, _)] => .ok { a with subject := w }
    | _, _, _ => .error .wrong
  | (_, .unknown) :: rest => takeLocals flags subject false a rest
  | (_, .flag .help _) :: _ => .error .help
  | (_, .helpWith more) :: rest => .error (helpUsage flags rest more)
  | (_, .flag f (some value)) :: rest =>
    match a.take f value with
    | .error u => .error u
    | .ok a => takeLocals flags subject known a rest
  | (_, .flag f none) :: (value, .word) :: rest =>
    match a.take f value with
    | .error u => .error u
    | .ok a => takeLocals flags subject known a rest
  | (_, .flag _ none) :: _ => .error .wrong

def Arguments.parse (words : List String) : Except Usage Arguments :=
  match classifyAll globalFlags words with
  | none => .error .wrong
  | some parts =>
    match takeGlobals true {} parts with
    | .error u => .error u
    | .ok ⟨_, _, []⟩ => .error .wrong
    | .ok ⟨a, known, command :: rest⟩ =>
      match Verb.ofName? command with
      | none => .error .wrong
      | some verb =>
        match classifyAll verb.flags rest with
        | none => .error .wrong
        | some parts =>
          takeLocals verb.flags (if verb.subject?.isSome then .pending else .settled) known
            { a with verb := verb } parts

/-- A command line as a document: the flags that its command has, each under its name. -/
def Arguments.toJson (a : Arguments) : Json :=
  let general : Fields :=
    [("COMMAND", .str a.verb.name), ("LOG_LEVEL", a.logLevel.toJson fun l => .str l.name),
     ("LOG_FILE", Given.optionJson .str a.logFile), ("CONFIG", Given.optionJson .str a.config),
     ("OUTPUT_FORMAT", a.outputForm.toJson fun f => .str f.name)]
  let subject : Fields := match a.verb.subject? with
    | some name => [(.str name, .str a.subject)]
    | none => []
  let style : Fields :=
    if a.verb = .format then [("STYLE", a.style.toJson fun s => .str (styleName s))] else []
  let source : Fields :=
    if a.verb.usesIndex then
      [("INDEX_FILE", Given.optionJson .str a.index), ("API_URL", Given.optionJson .str a.api),
       ("REQUEST_TIMEOUT", Given.optionJson .int a.timeout)]
    else []
  .obj (general ++ subject ++ style ++ source)

def Arguments.settingFlags (a : Arguments) : Settings.Flags :=
  ⟨Given.optionJson .str a.config, Given.optionJson .str a.api, Given.optionJson .str a.index,
    Given.optionJson .int a.timeout⟩

/-- The level from which on the log is written; one that is not named is that of information. -/
def Arguments.threshold (a : Arguments) : Level := a.logLevel.value?.getD .info

def Arguments.logPath? (a : Arguments) : Option String := a.logFile.bind Given.value?

def Arguments.configPath? (a : Arguments) : Option String := a.config.bind Given.value?

def Arguments.asJson (a : Arguments) : Bool := decide (a.outputForm = .value .json)

end ExprRegistry.Cli
