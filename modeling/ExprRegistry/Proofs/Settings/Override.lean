import ExprRegistry.Cli.Arguments
import ExprRegistry.Proofs.Settings.Config

/-!
Settings after all layers. Each layer supplies values for some settings: the settings file, over it the environment,
and over both the command line. A setting has the value of the highest layer that supplies one, and an address on the
command line also takes away the index file. Main statement: `configure_overrides`.
-/

namespace ExprRegistry

namespace Settings

open Cli

/-! ### What the layers supply -/

/-- The value that a settings file supplies: that of the setting's key, if it can be converted to the setting's type. -/
def inFile? (entries : Fields) (setting : Setting) : Option Json :=
  (Json.field? entries setting.key).bind fun v => (setting.convert v).toOption

/-- The text of a variable without the blanks around it, unless there are only blanks. -/
def variableText? (environment : Fields) (name : String) : Option Text :=
  match Json.field? environment name with
  | some (.text t) => if t.allBlank then none else some t.stripped
  | _ => none

/-- The integer whose numeral a variable is. -/
def variableInteger? (environment : Fields) (name : String) : Option Int :=
  match Json.field? environment name with
  | some (.str text) => Text.integer? text
  | _ => none

/-- The value that an environment supplies. -/
def inEnvironment? (environment : Fields) : Setting → Option Json
  | .apiUrl => (variableText? environment "GEXREG_API_URL").map .text
  | .indexFile => (variableText? environment "GEXREG_INDEX").map .text
  | .requestTimeout => (variableInteger? environment "GEXREG_REQUEST_TIMEOUT").map .int
  | _ => none

/-- The text that a flag was given, if it is not empty. -/
def flagText? (flag : Option (Given String)) : Option String := (flag.bind Given.value?).filter (· != "")

/-- The value that a command line supplies. -/
def onCommandLine? (a : Arguments) : Setting → Option Json
  | .apiUrl => (flagText? a.api).map .str
  | .indexFile => (flagText? a.index).map .str
  | .requestTimeout => (a.timeout.bind Given.value?).map .int
  | _ => none

/-- Whether a command line takes the index file away: it has an address and no index file. -/
def dropsIndexFile (a : Arguments) : Bool := (flagText? a.api).isSome && (flagText? a.index).isNone

/-- The value that a setting has after all layers, if it had a value before. -/
def chosen (a : Arguments) (environment entries : Fields) (setting : Setting) (previous : Json) : Json :=
  if setting = .indexFile ∧ dropsIndexFile a = true then .null
  else
    (((onCommandLine? a setting).or (inEnvironment? environment setting)).or (inFile? entries setting)).getD previous

variable {s : Settings} {a : Arguments} {environment entries : Fields} {setting : Setting}

theorem ext_get {s t : Settings} (h : ∀ setting, s.get setting = t.get setting) : s = t := by
  have url := h .apiUrl
  have index := h .indexFile
  have timeout := h .requestTimeout
  have retries := h .retryMax
  have delay := h .retryDelay
  have lifetime := h .cacheTtl
  cases s
  cases t
  simp only [get] at url index timeout retries delay lifetime
  rw [url, index, timeout, retries, delay, lifetime]

/-! ### The settings file -/

theorem Follows.eq_getD {after : Settings} (h : s.Follows entries setting after)
    (noNull : Json.field? entries setting.key ≠ some .null) :
    after.get setting = (inFile? entries setting).getD (s.get setting) := by
  unfold Follows at h
  rw [inFile?]
  generalize Json.field? entries setting.key = given at h noNull ⊢
  generalize s.get setting = previous at h ⊢
  generalize after.get setting = value at h ⊢
  cases h with
  | absent => rfl
  | cleared => exact absurd rfl noNull
  | converted _ converts _ => rw [Option.bind_some, converts]; rfl
  | refused _ refuses => rw [Option.bind_some, refuses]; rfl

theorem applyEntries_supplies (distinct : Table.Distinct entries) (noNull : ∀ e ∈ entries, e.2 ≠ .null)
    (applied : (s.applyEntries entries).failure = none) (setting : Setting) :
    (s.applyEntries entries).settings.get setting = (inFile? entries setting).getD (s.get setting) := by
  refine Follows.eq_getD ((applyEntries_get s distinct setting).2 applied) fun null => ?_
  obtain ⟨key, member, _⟩ := Table.mem_of_get? null
  exact noNull _ member rfl

theorem applyEntries_failure_perm {others : Fields} (same : others.Perm entries) (s t : Settings) :
    (t.applyEntries others).failure = none ↔ (s.applyEntries entries).failure = none := by
  rw [applyEntries_failure, applyEntries_failure]
  exact forall_congr' fun e => imp_congr_left same.mem_iff

theorem inFile?_perm {others : Fields} (distinct : Table.Distinct entries) (same : others.Perm entries)
    (setting : Setting) : inFile? others setting = inFile? entries setting := by
  rw [inFile?, inFile?, Json.field?, Json.field?, distinct.get?_perm same]

/-! ### The environment -/

theorem field?_text (texts : ∀ e ∈ environment, e.2.isText = true) (name : String) :
    Json.field? environment name = none ∨ ∃ t, Json.field? environment name = some (.text t) := by
  cases found : Json.field? environment name with
  | none => exact .inl rfl
  | some v =>
      obtain ⟨key, member, _⟩ := Table.mem_of_get? found
      obtain ⟨text, rfl⟩ := Json.exists_of_isText (texts _ member)
      exact .inr ⟨text, rfl⟩

theorem isGiven_str {text : String} (h : text ≠ "") : (Json.str text).isGiven = true := by
  refine bne_iff_ne.mpr ?_
  rintro ⟨⟩
  exact h rfl

theorem environmentText?_eq (texts : ∀ e ∈ environment, e.2.isText = true) (name : String) :
    environmentText? environment name = .ok (variableText? environment name) := by
  rw [environmentText?, variableText?, Json.fieldOrNull]
  rcases field?_text texts name with absent | ⟨text, found⟩
  · rw [absent]
    rfl
  · rw [found]
    rfl

theorem get_setText (s : Settings) (setting other : Setting) (text : Option Text) :
    (s.setText setting text).get other =
      if setting = other then (text.map .text).getD (s.get other) else s.get other := by
  cases text with
  | none => exact (ite_self _).symm
  | some text => exact get_set s setting other (.text text)

theorem applyTimeout_supplies (texts : ∀ e ∈ environment, e.2.isText = true) (s : Settings) (name : String) :
    (s.applyTimeout (Json.fieldOrNull environment name)).failure = none ∧
      ∀ setting, (s.applyTimeout (Json.fieldOrNull environment name)).settings.get setting =
        if .requestTimeout = setting then ((variableInteger? environment name).map .int).getD (s.get setting)
        else s.get setting := by
  rw [applyTimeout, variableInteger?, Json.fieldOrNull]
  rcases field?_text texts name with absent | ⟨text, found⟩
  · rw [absent]
    exact ⟨rfl, fun setting => (ite_self _).symm⟩
  · rw [found]
    cases text with
    | torn front h rest => exact ⟨rfl, fun setting => (ite_self _).symm⟩
    | whole text =>
        simp only [Option.getD_some]
        by_cases empty : text = ""
        · subst empty
          have noNumeral : Text.integer? "" = none := rfl
          rw [noNumeral]
          exact ⟨rfl, fun setting => (ite_self _).symm⟩
        · have given : (Json.str text).isGiven = true := isGiven_str empty
          rw [given, Json.toInt]
          cases Text.integer? text with
          | none => exact ⟨rfl, fun setting => (ite_self _).symm⟩
          | some n => exact ⟨rfl, fun setting => get_set s .requestTimeout setting (.int n)⟩

theorem applyEnvironment_supplies (texts : ∀ e ∈ environment, e.2.isText = true) (s : Settings) :
    (s.applyEnvironment (.obj environment)).failure = none ∧
      ∀ setting, (s.applyEnvironment (.obj environment)).settings.get setting =
        (inEnvironment? environment setting).getD (s.get setting) := by
  simp only [applyEnvironment, applyVariables, environmentText?_eq texts]
  obtain ⟨ended, timeout⟩ := applyTimeout_supplies texts
    ((s.setText .apiUrl (variableText? environment "GEXREG_API_URL")).setText .indexFile
      (variableText? environment "GEXREG_INDEX")) "GEXREG_REQUEST_TIMEOUT"
  refine ⟨ended, fun setting => ?_⟩
  rw [timeout, get_setText, get_setText]
  cases setting <;> rfl

/-! ### The command line -/

/-- A flag with a text that is not empty counts as given, and no other flag does. -/
theorem flagText?_cases (flag : Option (Given String)) :
    flagText? flag = none ∧ (Given.optionJson .str flag).isGiven = false ∨
      ∃ text, flagText? flag = some text ∧ Given.optionJson .str flag = .str text ∧ (Json.str text).isGiven = true := by
  cases flag with
  | none => exact .inl ⟨rfl, rfl⟩
  | some given =>
      cases given with
      | nothing => exact .inl ⟨rfl, rfl⟩
      | value text =>
          by_cases empty : text = ""
          · subst empty
            exact .inl ⟨rfl, rfl⟩
          · have some : flagText? (some (.value text)) = some text := Option.filter_some_pos (bne_iff_ne.mpr empty)
            exact .inr ⟨text, some, rfl, isGiven_str empty⟩

/-- The settings after the flags for an address and for an index file. -/
def applySources (s : Settings) (flags : Flags) : Settings :=
  let s := if flags.apiUrl.isGiven then (s.set .apiUrl flags.apiUrl).set .indexFile .null else s
  if flags.indexFile.isGiven then s.set .indexFile flags.indexFile else s

/-- The settings after the flag for the timeout. -/
def applyTimeoutFlag (s : Settings) (v : Json) : Layered :=
  if v = .null then ⟨s, [], none⟩
  else
    match v.toInt with
    | .ok n => ⟨s.set .requestTimeout (.int n), [], none⟩
    | .error how => ⟨s, [], some how⟩

theorem applyFlags_eq (s : Settings) (flags : Flags) :
    s.applyFlags flags = (s.applySources flags).applyTimeoutFlag flags.requestTimeout := rfl

theorem get_applySources (s : Settings) (a : Arguments) (setting : Setting) :
    (s.applySources a.settingFlags).get setting =
      if setting = .requestTimeout then s.get setting
      else if setting = .indexFile ∧ dropsIndexFile a = true then .null
      else (onCommandLine? a setting).getD (s.get setting) := by
  rw [applySources, Arguments.settingFlags]
  rcases flagText?_cases a.api with ⟨noUrl, empty⟩ | ⟨url, someUrl, written, given⟩
  · have keeps : dropsIndexFile a = false := by rw [dropsIndexFile, noUrl]; rfl
    rcases flagText?_cases a.index with ⟨noPath, empty'⟩ | ⟨path, somePath, written', given'⟩
    · simp only [empty, empty', keeps]
      cases setting <;> simp [onCommandLine?, noUrl, noPath]
    · simp only [empty, written', given', if_true, get_set, keeps]
      cases setting <;> simp [onCommandLine?, noUrl, somePath]
  · rcases flagText?_cases a.index with ⟨noPath, empty'⟩ | ⟨path, somePath, written', given'⟩
    · have drops : dropsIndexFile a = true := by rw [dropsIndexFile, someUrl, noPath]; rfl
      simp only [written, given, empty', if_true, drops]
      cases setting <;> simp [onCommandLine?, someUrl, get_set]
    · have keeps : dropsIndexFile a = false := by rw [dropsIndexFile, somePath, Option.isNone_some, Bool.and_false]
      simp only [written, given, written', given', if_true, get_set, keeps]
      cases setting <;> simp [onCommandLine?, someUrl, somePath]

theorem applyTimeoutFlag_supplies (s : Settings) (flag : Option (Given Int)) :
    ((s.applyTimeoutFlag (Given.optionJson .int flag)).failure = none ↔ flag ≠ some .nothing) ∧
      ∀ setting, (s.applyTimeoutFlag (Given.optionJson .int flag)).settings.get setting =
        if .requestTimeout = setting then ((flag.bind Given.value?).map .int).getD (s.get setting)
        else s.get setting := by
  cases flag with
  | none => exact ⟨iff_of_true rfl nofun, fun setting => (ite_self _).symm⟩
  | some given =>
      cases given with
      | nothing => exact ⟨iff_of_false nofun (not_not_intro rfl), fun setting => (ite_self _).symm⟩
      | value n => exact ⟨iff_of_true rfl nofun, fun setting => get_set s .requestTimeout setting (.int n)⟩

/-- A command line fails only where the timeout flag was given nothing, and even then each setting has its value. -/
theorem applyFlags_supplies (s : Settings) (a : Arguments) :
    ((s.applyFlags a.settingFlags).failure = none ↔ a.timeout ≠ some .nothing) ∧
      ∀ setting, (s.applyFlags a.settingFlags).settings.get setting =
        if setting = .indexFile ∧ dropsIndexFile a = true then .null
        else (onCommandLine? a setting).getD (s.get setting) := by
  obtain ⟨ends, timeout⟩ := applyTimeoutFlag_supplies (s.applySources a.settingFlags) a.timeout
  rw [applyFlags_eq]
  refine ⟨ends, fun setting => (timeout setting).trans ?_⟩
  rw [get_applySources]
  by_cases same : setting = .requestTimeout
  · subst same
    rfl
  · rw [if_neg (Ne.symm same), if_neg same]

/-! ### All layers -/

variable {files : Files}

/-- A settings file that is applied to its end is followed by the two other layers. -/
theorem configure_eq (texts : ∀ e ∈ environment, e.2.isText = true)
    (loaded : files.loadSettings a.settingFlags.config = .ok entries)
    (applied : (s.applyEntries entries).failure = none) :
    ((s.configure a.settingFlags (.obj environment) files).failure = none ↔ a.timeout ≠ some .nothing) ∧
      (s.configure a.settingFlags (.obj environment) files).settings =
        (((s.applyEntries entries).settings.applyEnvironment (.obj environment)).settings.applyFlags
          a.settingFlags).settings := by
  have ended := (applyEnvironment_supplies texts (s.applyEntries entries).settings).1
  simp only [configure, loaded, applied, ended]
  rw [Option.map_eq_none_iff]
  exact ⟨(applyFlags_supplies _ a).1, trivial⟩

theorem getD_chosen (a : Arguments) (environment entries : Fields) (setting : Setting) (previous : Json) :
    (if setting = .indexFile ∧ dropsIndexFile a = true then .null
      else (onCommandLine? a setting).getD
        ((inEnvironment? environment setting).getD ((inFile? entries setting).getD previous))) =
      chosen a environment entries setting previous := by
  rw [chosen, Option.getD_or, Option.getD_or]

/-- Every setting has the value of the highest layer that supplies one, or else the value it had, but that an address on
the command line takes the index file away unless there is one beside it. The order in which a settings file gives its
keys does not count, and a layer leaves the settings alone that it supplies no value for. -/
theorem configure_overrides (distinct : Table.Distinct entries) (noNull : ∀ e ∈ entries, e.2 ≠ .null)
    (texts : ∀ e ∈ environment, e.2.isText = true)
    (loaded : files.loadSettings a.settingFlags.config = .ok entries)
    (applied : (s.applyEntries entries).failure = none) :
    (∀ setting, (s.configure a.settingFlags (.obj environment) files).settings.get setting =
      chosen a environment entries setting (s.get setting)) ∧
    ((s.configure a.settingFlags (.obj environment) files).failure = none ↔ a.timeout ≠ some .nothing) ∧
    (∀ (files' : Files) (path : Option (Given String)) (others : Fields),
      files'.loadSettings { a with config := path }.settingFlags.config = .ok others → others.Perm entries →
      (s.configure { a with config := path }.settingFlags (.obj environment) files').settings =
        (s.configure a.settingFlags (.obj environment) files).settings) ∧
    ∀ (t : Settings) (setting : Setting),
      (inFile? entries setting = none → (t.applyConfig (.obj entries)).settings.get setting = t.get setting) ∧
      (inEnvironment? environment setting = none →
        (t.applyEnvironment (.obj environment)).settings.get setting = t.get setting) ∧
      (onCommandLine? a setting = none → ¬(setting = .indexFile ∧ dropsIndexFile a = true) →
        (t.applyFlags a.settingFlags).settings.get setting = t.get setting) := by
  have value {b : Arguments} {files : Files} {others : Fields}
      (loaded : files.loadSettings b.settingFlags.config = .ok others) (distinct : Table.Distinct others)
      (noNull : ∀ e ∈ others, e.2 ≠ .null) (applied : (s.applyEntries others).failure = none) (setting : Setting) :
      (s.configure b.settingFlags (.obj environment) files).settings.get setting =
        chosen b environment others setting (s.get setting) := by
    rw [(configure_eq texts loaded applied).2, (applyFlags_supplies _ b).2, (applyEnvironment_supplies texts _).2,
      applyEntries_supplies distinct noNull applied, getD_chosen]
  refine ⟨value loaded distinct noNull applied, (configure_eq texts loaded applied).1, ?_,
    fun t setting => ⟨?_, ?_, ?_⟩⟩
  · intro files' path others loaded' same
    -- both files supply the same values, as a mapping has them under its keys in any order
    have noNull' : ∀ e ∈ others, e.2 ≠ .null := fun e member => noNull e (same.mem_iff.mp member)
    have applied' := (applyEntries_failure_perm same s s).mpr applied
    apply ext_get
    intro setting
    rw [value loaded' (distinct.perm same) noNull' applied', value loaded distinct noNull applied, chosen,
      inFile?_perm distinct same]
    rfl
  · intro none
    have applied := (applyEntries_failure_perm (List.Perm.refl entries) s t).mpr applied
    rw [applyConfig, applyEntries_supplies distinct noNull applied, none]
    rfl
  · intro none
    rw [(applyEnvironment_supplies texts t).2, none]
    rfl
  · intro none keeps
    rw [(applyFlags_supplies t a).2, if_neg keeps, none]
    rfl

/-! ### A run with all layers -/

def layeredText : String := "gexreg:\n  api_url: http://cfg.test\n  request_timeout: 3\n  retry_max: 5\n"

def layeredFiles : Files := [("config.yml", layeredText)]

def layeredEntries : Fields :=
  [(.str "api_url", .str "http://cfg.test"), (.str "request_timeout", .int 3), (.str "retry_max", .int 5)]

def layeredEnvironment : Fields :=
  [(.str "GEXREG_INDEX", .str " env.yaml "), (.str "GEXREG_REQUEST_TIMEOUT", .str "soon")]

def layeredArguments : Arguments :=
  { config := some (.value "config.yml"), verb := .resolve, api := some (.value "http://cli.test") }

theorem loadSettings_layered :
    layeredFiles.loadSettings layeredArguments.settingFlags.config = .ok layeredEntries := by
  have text : layeredFiles.text? "config.yml" = some layeredText := by decide +kernel
  have read : Yaml.read? layeredText = some (.obj [(.str "gexreg", .obj layeredEntries)]) := by decide +kernel
  have given : (Json.str "config.yml").isGiven = true := by decide
  change layeredFiles.loadSettings (.str "config.yml") = _
  rw [Files.loadSettings, given]
  simp only [Files.settingsAt, text, read]
  rfl

/-- The address of the command line stands over that of the file and takes the index file of the environment away; the
timeout and the number of attempts are those of the file, as the environment has no number for a timeout. -/
theorem configure_overrides_layered :
    layeredFiles.loadSettings layeredArguments.settingFlags.config = .ok layeredEntries ∧
      (({} : Settings).configure layeredArguments.settingFlags (.obj layeredEnvironment) layeredFiles).settings =
        { apiUrl := .str "http://cli.test", indexFile := .null, requestTimeout := .int 3, retryMax := .int 5 } := by
  have distinct : Table.Distinct layeredEntries := by
    unfold Table.Distinct
    decide +kernel
  have values := (configure_overrides (s := {}) distinct (by decide +kernel)
    (show ∀ e ∈ layeredEnvironment, e.2.isText = true by decide) loadSettings_layered (by decide +kernel)).1
  refine ⟨loadSettings_layered, ext_get fun setting => (values setting).trans ?_⟩
  cases setting <;> decide +kernel

end Settings

end ExprRegistry
