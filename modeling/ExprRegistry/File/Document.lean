import ExprRegistry.File.Directory
import ExprRegistry.Json.Reader
import ExprRegistry.Json.Unfit
import ExprRegistry.Yaml.Document

/-!
Documents in files. The name of a file tells its language: one that ends in `.json`, in any case, is read
as JSON and every other one as YAML.
-/

namespace ExprRegistry

def isJsonPath (path : String) : Bool :=
  ".json".toList.reverse.isPrefixOf (path.toList.map Text.lowerAscii).reverse

/-- Why a text is not read as a document. -/
inductive DocumentError where
  | broken (reason : String)
  | unfit (how : Unfit)

def loadJson (text : String) : Except DocumentError Json :=
  (Json.load text).mapError fun e => if e.complaint = .digits then .unfit .value else .broken e.message

/-- Reads a YAML document. A broken one is refused without a reason of its own. -/
def readYaml (text : String) : Except DocumentError Json :=
  match Yaml.read? text with
  | some v => .ok v
  | none => .error (.broken "not a YAML document")

def readDocumentText (path text : String) : Except DocumentError Json :=
  if isJsonPath path then loadJson text else readYaml text

end ExprRegistry
