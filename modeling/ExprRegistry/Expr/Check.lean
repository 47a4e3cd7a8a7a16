import ExprRegistry.Expr.Decode
import ExprRegistry.Package.Name
import ExprRegistry.Text.Blank

/-!
Checks of documents that are meant to be published, and hints for mending an expression.
-/

namespace ExprRegistry

/-- Whether a document is an expression. There is no answer where the message of a refusal cannot be written. -/
def Json.isValid (v : Json) : Except Unfit Bool :=
  match Expr.decode v with
  | .ok _ => .ok true
  | .error e => if e.fault.hasMessage then .ok false else .error .value

def fieldHints (fields : Fields) : List String :=
  let unknownTag (tag : Text) := "Unknown type '" ++ tag.escaped ++ "'; use one of: " ++ Form.tagList
  let tagHint := match Json.field? fields "g" with
    | none => ["Add a 'g' field specifying the expression type (" ++ Form.tagList ++ ")"]
    | some (.str tag) =>
      if (Form.ofTag? tag).isSome then []
      else [unknownTag tag]
    | some (.text tag) => [unknownTag tag]
    | some _ => ["The 'g' field must be a string"]
  let payloadHint :=
    if Json.hasField fields "v" then [] else ["Add a 'v' field containing the expression value"]
  tagHint ++ payloadHint

/-- Hints for mending a document that is refused. A fault inside the document is named only when the fields of
the whole are in order. -/
def Json.hints (v : Json) (e : Invalid) : List String :=
  match v with
  | .obj fields =>
    match fieldHints fields with
    | [] =>
      let place := if e.path.isEmpty then "" else " at " ++ Path.text e.path
      ["Fix" ++ place ++ ": " ++ e.fault.message]
    | hints => hints
  | _ => ["G-expression must be a JSON object"]

/-- Hints for mending a document; none when it is an expression. -/
def Json.fixes (v : Json) : Except Unfit (List String) :=
  match Expr.decode v with
  | .ok _ => .ok []
  | .error e => if e.fault.hasMessage then .ok (v.hints e) else .error .value

/-- Whether a value is a title: a text that is not blank. -/
def Json.isTitle : Json → Bool
  | .text t => !t.allBlank
  | _ => false

/-- Checks a document for publication. An object with a name and expression data is a package: its name,
its title and its expression are checked in this order. Anything else must be an expression. -/
def Json.checkPublishable (v : Json) : Except ValidationError Unit :=
  match v with
  | .obj fields =>
    match Json.field? fields "expression_data", Json.field? fields "name" with
    | some data, some name =>
      if !isPackageName name then .error (.packageName name)
      else if !(Json.fieldOrNull fields "title").isTitle then .error .packageTitle
      else
        match Expr.decode data with
        | .ok _ => .ok ()
        | .error e => .error (.packageExpression e)
    | _, _ => checkExpression v
  | _ => checkExpression v
where
  checkExpression (v : Json) : Except ValidationError Unit :=
    match Expr.decode v with
    | .ok _ => .ok ()
    | .error e => .error (.expression e)

end ExprRegistry
