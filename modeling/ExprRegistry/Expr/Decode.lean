import ExprRegistry.Expr.Fault
import ExprRegistry.Expr.Name

/-!
Reading expressions from documents. `decode` accepts the documents of the grammar, drops keys that no
form has, and refuses everything else with its first fault in reading order. It follows the document
itself, so a part is looked up and read in one pass over the fields.
-/

namespace ExprRegistry

def Json.isTagged : Json → Bool
  | .obj fields => Json.hasField fields "g"
  | _ => false

def elsePatterns : List String := ["else", "else_pattern"]

def Json.isPattern : Json → Bool
  | .obj _ => true
  | .str s => elsePatterns.contains s
  | _ => false

namespace Expr

def refuse {α : Type} (fault : Fault) : Except Invalid α := .error ⟨[], fault⟩

def atStep {α : Type} (step : Step) (r : Except Invalid α) : Except Invalid α :=
  r.mapError (Invalid.below step)

def checkParams : List Json → Except Invalid Unit
  | [] => .ok ()
  | .str name :: rest =>
    if isParameterName name then checkParams rest else refuse (.paramName name)
  | .text name :: _ => refuse (.paramName name)
  | param :: _ => refuse (.paramNotText param)

def decodeLiteral : Json → Except Invalid Expr
  | .obj _ => refuse .literalObject
  | v => .ok (literal v)

def decodeReference : Json → Except Invalid Expr
  | .str name =>
    if isReferenceName name then .ok (reference (.str name)) else refuse (.referenceName name)
  | .text name => refuse (.referenceName name)
  | _ => refuse .referenceNotText

mutual

def decode : Json → Except Invalid Expr
  | .obj fields =>
    match Json.field? fields "g" with
    | none => refuse .noTag
    | some (.str tag) =>
      match Form.ofTag? tag with
      | some form => decodeTagged form fields
      | none => refuse (.unknownTag (.str tag))
    | some tag => refuse (.unknownTag tag)
  | _ => refuse .notObject

/-- Finds the payload among the fields and reads it as that of a form. -/
def decodeTagged (form : Form) : Fields → Except Invalid Expr
  | [] => refuse (.noPayload form)
  | (key, payload) :: rest =>
    if key == .str "v" then
      match form with
      | .literal => decodeLiteral payload
      | .reference => decodeReference payload
      | .vector => decodeVector payload
      | .application => decodeApplication payload
      | .lambda => decodeLambda payload
      | .fixpoint => (atStep .inner (decode payload)).map fixpoint
      | .cases => decodeCases payload
    else decodeTagged form rest

def decodeVector : Json → Except Invalid Expr
  | .arr items => (decodeItems 0 items).map vector
  | _ => refuse .vectorNotList

def decodeApplication : Json → Except Invalid Expr
  | .obj fields =>
    match decodeField "fn" .function .noFunction fields with
    | .error e => .error e
    | .ok f =>
      if Json.fieldOrNull fields "args" = .null then .ok (application f none)
      else
        (decodeField "args" .argument .noFunction fields).map fun a => application f (some a)
  | _ => refuse .applicationNotObject

def decodeLambda : Json → Except Invalid Expr
  | .obj fields =>
    match Json.field? fields "params" with
    | none => refuse .noParams
    | some params =>
      if !Json.hasField fields "body" then refuse .noBody
      else
        match params with
        | .arr params =>
          match checkParams params with
          | .error e => .error e
          | .ok () => (decodeField "body" .body .noBody fields).map (lambda params)
        | _ => refuse .paramsNotList
  | _ => refuse .noParams

def decodeCases : Json → Except Invalid Expr
  | .obj fields =>
    if !Json.hasField fields "expr" then refuse .noScrutinee
    else
      match Json.field? fields "branches" with
      | none => refuse .noBranches
      | some (.arr _) =>
        match decodeField "expr" .scrutinee .noScrutinee fields with
        | .error e => .error e
        | .ok e => (decodeBranchesField fields).map (cases e)
      | some _ => refuse .branchesNotList
  | _ => refuse .noScrutinee

/-- Finds a field and reads its value as the expression one step below; a field that is not there is
the fault `absent` of the node at hand. -/
def decodeField (key : String) (step : Step) (absent : Fault) :
    Fields → Except Invalid Expr
  | [] => refuse absent
  | (k, v) :: rest =>
    if k == .str key then atStep step (decode v) else decodeField key step absent rest

/-- Reads the items of a vector; the first of them has the given index. -/
def decodeItems (index : Nat) : List Json → Except Invalid (List Expr)
  | [] => .ok []
  | v :: rest =>
    match (if v.isTagged then atStep (.item index) (decode v) else .ok (raw v)) with
    | .error e => .error e
    | .ok item => (decodeItems (index + 1) rest).map (item :: ·)

/-- Finds the branches among the fields of a match and reads them. -/
def decodeBranchesField : Fields → Except Invalid (List (Json × Expr))
  | [] => refuse .noBranches
  | (k, v) :: rest =>
    if k == .str "branches" then
      match v with
      | .arr items => decodeBranches 0 items
      | _ => refuse .branchesNotList
    else decodeBranchesField rest

/-- Reads branches; the first of them has the given index. -/
def decodeBranches (index : Nat) : List Json → Except Invalid (List (Json × Expr))
  | [] => .ok []
  | v :: rest =>
    match decodeBranch index v with
    | .error e => .error e
    | .ok b => (decodeBranches (index + 1) rest).map (b :: ·)

def decodeBranch (index : Nat) : Json → Except Invalid (Json × Expr)
  | .obj fields =>
    match Json.field? fields "pattern" with
    | none => refuse (.branchIncomplete index)
    | some pattern =>
      if !Json.hasField fields "result" then refuse (.branchIncomplete index)
      else if !pattern.isPattern then refuse (.branchPattern index)
      else
        (decodeField "result" (.result index) (.branchIncomplete index) fields).map
          fun e => (pattern, e)
  | _ => refuse (.branchIncomplete index)

end

end Expr

end ExprRegistry
