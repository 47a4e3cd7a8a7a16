import ExprRegistry.Expr.Basic
import ExprRegistry.Json.Display

/-!
What can be wrong with a document that is meant as an expression. A `Fault` is the trouble with one node,
a `Path` says which node, and `Invalid.report` is what users are told: below the root the fault becomes
the cause of a report about the whole.
-/

namespace ExprRegistry

/-- The classes of faults. -/
inductive FaultKind where
  | missingTag
  | unknownTag
  | missingField
  | wrongType
  | invalidIdentifier
  | nestedInvalid
  deriving DecidableEq

def FaultKind.name : FaultKind → String
  | missingTag => "missing_tag"
  | unknownTag => "unknown_tag"
  | missingField => "missing_required_field"
  | wrongType => "wrong_field_type"
  | invalidIdentifier => "invalid_identifier"
  | nestedInvalid => "nested_invalid"

/-- From an expression to one of its parts. -/
inductive Step where
  | function
  | argument
  | body
  | inner
  | scrutinee
  | item (index : Nat)
  | result (index : Nat)
  deriving DecidableEq

def Step.text : Step → String
  | function => "v.fn"
  | argument => "v.args"
  | body => "v.body"
  | inner => "v"
  | scrutinee => "v.expr"
  | item index => "v[" ++ toString index ++ "]"
  | result index => "v.branches[" ++ toString index ++ "].result"

abbrev Path := List Step

/-- A path as it is written; that of the root is empty. -/
def Path.text (path : Path) : String := ".".intercalate (path.map Step.text)

/-- What is wrong with one node. -/
inductive Fault where
  | notObject
  | noTag
  | unknownTag (tag : Json)
  | noPayload (form : Form)
  | literalObject
  | referenceNotText
  | referenceName (name : Text)
  | vectorNotList
  | applicationNotObject
  | noFunction
  | noParams
  | noBody
  | paramsNotList
  | paramNotText (param : Json)
  | paramName (name : Text)
  | noScrutinee
  | noBranches
  | branchesNotList
  | branchIncomplete (index : Nat)
  | branchPattern (index : Nat)

namespace Fault

def kind : Fault → FaultKind
  | notObject => .missingTag
  | noTag => .missingTag
  | unknownTag _ => .unknownTag
  | noPayload _ => .missingField
  | literalObject => .wrongType
  | referenceNotText => .wrongType
  | referenceName _ => .invalidIdentifier
  | vectorNotList => .wrongType
  | applicationNotObject => .wrongType
  | noFunction => .missingField
  | noParams => .missingField
  | noBody => .missingField
  | paramsNotList => .wrongType
  | paramNotText _ => .wrongType
  | paramName _ => .invalidIdentifier
  | noScrutinee => .missingField
  | noBranches => .missingField
  | branchesNotList => .wrongType
  | branchIncomplete _ => .missingField
  | branchPattern _ => .wrongType

/-- Whether the message of a fault can be written: what it shows needs a text. -/
def hasMessage : Fault → Bool
  | unknownTag tag => tag.hasText
  | paramNotText param => param.hasText
  | _ => true

/-- The message of a fault that has one. -/
def message : Fault → String
  | notObject => "G-expression must be a JSON object with 'g' and 'v' fields"
  | noTag => "G-expression missing required 'g' field"
  | unknownTag tag =>
    "Invalid g-expression type: '" ++ tag.display ++ "'. Valid types are: " ++ Form.tagList
  | noPayload form => form.title ++ " expression missing required 'v' field"
  | literalObject => "Literal value must be a number, string, boolean, null, or array"
  | referenceNotText => "Reference value must be a string"
  | referenceName name => "Reference '" ++ name.escaped ++ "' must be a valid identifier"
  | vectorNotList => "Vector value must be an array"
  | applicationNotObject => "Application value must be an object with 'fn' field"
  | noFunction => "Application must have 'fn' field"
  | noParams => "Lambda must have 'params' (array) and 'body' fields"
  | noBody => "Lambda must have 'params' (array) and 'body' fields"
  | paramsNotList => "Lambda must have 'params' (array) and 'body' fields"
  | paramNotText param => "Parameter must be a string, got: " ++ param.shown
  | paramName name => "Parameter '" ++ name.escaped ++ "' must be a valid identifier"
  | noScrutinee => "Match must have 'expr' and 'branches' fields"
  | noBranches => "Match must have 'expr' and 'branches' fields"
  | branchesNotList => "Match branches must be an array"
  | branchIncomplete index =>
    "Branch " ++ toString index ++ " must have 'pattern' and 'result' fields"
  | branchPattern index => "Branch " ++ toString index ++ " has an invalid pattern format"

/-- The tag of the node that a fault is about, as far as it has one. -/
def form : Fault → Option Text
  | notObject => none
  | noTag => none
  | unknownTag (.text tag) => some tag
  | unknownTag _ => none
  | noPayload form => some form.tag
  | literalObject => some Form.literal.tag
  | referenceNotText => some Form.reference.tag
  | referenceName _ => some Form.reference.tag
  | vectorNotList => some Form.vector.tag
  | applicationNotObject => some Form.application.tag
  | noFunction => some Form.application.tag
  | noParams => some Form.lambda.tag
  | noBody => some Form.lambda.tag
  | paramsNotList => some Form.lambda.tag
  | paramNotText _ => some Form.lambda.tag
  | paramName _ => some Form.lambda.tag
  | noScrutinee => some Form.cases.tag
  | noBranches => some Form.cases.tag
  | branchesNotList => some Form.cases.tag
  | branchIncomplete _ => some Form.cases.tag
  | branchPattern _ => some Form.cases.tag

def field : Fault → Option String
  | notObject => none
  | noTag => none
  | unknownTag _ => some "g"
  | noPayload _ => some "v"
  | literalObject => some "v"
  | referenceNotText => some "v"
  | referenceName _ => some "v"
  | vectorNotList => some "v"
  | applicationNotObject => some "v"
  | noFunction => some "fn"
  | noParams => some "params"
  | noBody => some "body"
  | paramsNotList => some "params"
  | paramNotText _ => some "params"
  | paramName _ => some "params"
  | noScrutinee => some "expr"
  | noBranches => some "branches"
  | branchesNotList => some "branches"
  | branchIncomplete _ => some "branches"
  | branchPattern _ => some "pattern"

/-- The name that a fault rejects, null when it is not about a name. -/
def value : Fault → Json
  | referenceName name => .text name
  | paramName name => .text name
  | _ => .null

end Fault

/-- What a report says about one thing. -/
structure Detail where
  kind : FaultKind
  message : String
  form : Option Text
  field : Option String
  value : Json
  deriving DecidableEq

def Fault.detail (fault : Fault) : Detail :=
  ⟨fault.kind, fault.message, fault.form, fault.field, fault.value⟩

/-- What users are told about a refused document. -/
structure Report extends Detail where
  path : String
  cause : Option Detail

def Report.rootMessage (report : Report) : String :=
  match report.cause with
  | none => report.message
  | some cause => cause.message

/-- A refused expression: the node and what is wrong with it. -/
structure Invalid where
  path : Path
  fault : Fault

namespace Invalid

def below (step : Step) (e : Invalid) : Invalid := { e with path := step :: e.path }

/-- The report of a refused expression. A fault below the root is the cause of the report. -/
def report (e : Invalid) : Report :=
  match e.path with
  | [] => { e.fault.detail with path := "", cause := none }
  | path =>
    { kind := .nestedInvalid
      message := "Invalid G-expression at " ++ Path.text path ++ ": " ++ e.fault.message
      form := none
      field := none
      value := .null
      path := Path.text path
      cause := some e.fault.detail }

end Invalid

/-- What is wrong with a document that is to be published. -/
inductive ValidationError where
  | expression (e : Invalid)
  | packageExpression (e : Invalid)
  | packageName (given : Json)
  | packageTitle
  | versionText (given : Json)

namespace ValidationError

/-- Whether the message of an error can be written. -/
def hasMessage : ValidationError → Bool
  | expression e => e.fault.hasMessage
  | packageExpression e => e.fault.hasMessage
  | packageName given => given.hasText
  | packageTitle => true
  | versionText given => given.hasText

def report : ValidationError → Report
  | expression e => e.report
  | packageExpression e =>
    let inner := e.report
    { inner with message := "Invalid expression_data: " ++ inner.message }
  | packageName given =>
    { kind := .invalidIdentifier
      message := "Package name " ++ given.shown ++
        " must start with a letter and contain only lowercase letters, numbers, and underscores"
      form := none
      field := some "name"
      value := given
      path := ""
      cause := none }
  | packageTitle =>
    { kind := .missingField
      message := "Package must have a non-empty 'title'"
      form := none
      field := some "title"
      value := .null
      path := ""
      cause := none }
  | versionText given =>
    { kind := .wrongType
      message := "Version " ++ given.shown ++
        " must be a valid semantic version (e.g., 1.0.0, 1.0.0-alpha, 1.0.0+build)"
      form := none
      field := some "version"
      value := given
      path := ""
      cause := none }

end ValidationError

end ExprRegistry
