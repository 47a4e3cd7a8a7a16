import ExprRegistry.Json.Basic
import ExprRegistry.Yaml.Scalar
import ExprRegistry.Yaml.Token

/-!
Documents in YAML, read from their tokens. Any scalar can be a key of a mapping; a key that is written
again keeps its first place and takes the last value, and the entries of the mappings under the key `<<`
come before the others. Two plain words stand for nothing else: `<<` is only that key, and `=` only a key
of its own name.
-/

namespace ExprRegistry.Yaml

/-- What a part of a document is read as. -/
inductive Node where
  | value (v : Json)
  | merge
  | equals

namespace Node

def ofPlain (text : List Char) : Node :=
  match text with
  | ['<', '<'] => merge
  | ['='] => equals
  | _ => value (plainValue text)

def absent : Node := value .null

def value? : Node → Option Json
  | value v => some v
  | _ => none

end Node

/-- The entries of a mapping while it is read: those that are merged into it, and its own. -/
structure Entries where
  merged : List (Scalar × Json) := []
  own : List (Scalar × Json) := []

namespace Entries

def ofMapping? : Json → Option (List (Scalar × Json))
  | .obj fields => some fields
  | _ => none

/-- Adds an entry. Several mappings that are merged take effect from the last to the first. -/
def add? (e : Entries) (key : Node) (v : Json) : Option Entries :=
  match key, v with
  | .value (.scalar k), _ => some { e with own := e.own ++ [(k, v)] }
  | .value _, _ => none
  | .equals, _ => some { e with own := e.own ++ [(.str "=", v)] }
  | .merge, .obj fields => some { e with merged := e.merged ++ fields }
  | .merge, .arr items =>
    (items.mapM ofMapping?).map fun all => { e with merged := e.merged ++ all.reverse.flatten }
  | .merge, _ => none

def toNode (e : Entries) : Node := .value (.obj (Table.ofEntries (e.merged ++ e.own)))

end Entries

mutual

/-- Reads the node that begins with the first token. Under a key, a sequence may stand without a block of
its own. -/
def readNode (underKey : Bool) : Nat → List Token → Option (Node × List Token)
  | 0, _ => none
  | fuel + 1, tokens =>
    match tokens with
    | .plain text :: rest => some (.ofPlain text, rest)
    | .quoted text :: rest => some (.value (.text text), rest)
    | .flowSequenceStart :: rest =>
      (readFlowItems fuel rest).map fun (items, rest) => (.value (.arr items), rest)
    | .flowMappingStart :: rest =>
      (readFlowEntries fuel {} rest).map fun (e, rest) => (e.toNode, rest)
    | .sequenceStart :: rest =>
      match readItems fuel rest with
      | some (items, .blockEnd :: rest) => some (.value (.arr items), rest)
      | _ => none
    | .mappingStart :: rest => (readEntries fuel {} rest).map fun (e, rest) => (e.toNode, rest)
    | .dash :: _ =>
      if underKey then
        (readItems fuel tokens).map fun (items, rest) => (.value (.arr items), rest)
      else none
    | _ => none

def readItems : Nat → List Token → Option (List Json × List Token)
  | 0, _ => none
  | fuel + 1, tokens =>
    match tokens with
    | .dash :: rest =>
      let read : Option (Node × List Token) := match rest with
        | .dash :: _ => some (.absent, rest)
        | .key :: _ => some (.absent, rest)
        | .value :: _ => some (.absent, rest)
        | .blockEnd :: _ => some (.absent, rest)
        | _ => readNode false fuel rest
      match read with
      | some (.value v, rest) =>
        (readItems fuel rest).map fun (items, rest) => (v :: items, rest)
      | _ => none
    | _ => some ([], tokens)

def readEntries : Nat → Entries → List Token → Option (Entries × List Token)
  | 0, _, _ => none
  | fuel + 1, e, tokens =>
    match tokens with
    | .blockEnd :: rest => some (e, rest)
    | .key :: rest =>
      match readEntryPart fuel rest with
      | none => none
      | some (key, rest) =>
        let read : Option (Node × List Token) := match rest with
          | .value :: rest => readEntryPart fuel rest
          | _ => some (.absent, rest)
        match read with
        | some (.value v, rest) => (e.add? key v).bind fun e => readEntries fuel e rest
        | _ => none
    | _ => none

def readEntryPart : Nat → List Token → Option (Node × List Token)
  | 0, _ => none
  | fuel + 1, tokens =>
    match tokens with
    | .key :: _ => some (.absent, tokens)
    | .value :: _ => some (.absent, tokens)
    | .blockEnd :: _ => some (.absent, tokens)
    | _ => readNode true fuel tokens

/-- Reads items of a flow sequence and its closing bracket. An item with a key is a mapping with one
entry. -/
def readFlowItems : Nat → List Token → Option (List Json × List Token)
  | 0, _ => none
  | fuel + 1, tokens =>
    match tokens with
    | .flowSequenceEnd :: rest => some ([], rest)
    | _ =>
      let read : Option (Node × List Token) := match tokens with
        | .key :: rest => (readFlowEntry fuel {} rest).map fun (e, rest) => (e.toNode, rest)
        | _ => readNode false fuel tokens
      match read with
      | some (.value v, .flowSequenceEnd :: rest) => some ([v], rest)
      | some (.value v, .comma :: rest) =>
        (readFlowItems fuel rest).map fun (items, rest) => (v :: items, rest)
      | _ => none

def readFlowEntries : Nat → Entries → List Token → Option (Entries × List Token)
  | 0, _, _ => none
  | fuel + 1, e, tokens =>
    match tokens with
    | .flowMappingEnd :: rest => some (e, rest)
    | _ =>
      let read : Option (Entries × List Token) := match tokens with
        | .key :: rest => readFlowEntry fuel e rest
        | _ =>
          match readNode false fuel tokens with
          | some (key, rest) => (e.add? key .null).map fun e => (e, rest)
          | none => none
      match read with
      | some (e, .flowMappingEnd :: rest) => some (e, rest)
      | some (e, .comma :: rest) => readFlowEntries fuel e rest
      | _ => none

/-- Reads one entry of a flow collection after the mark of its key. -/
def readFlowEntry : Nat → Entries → List Token → Option (Entries × List Token)
  | 0, _, _ => none
  | fuel + 1, e, tokens =>
    match readFlowPart fuel tokens with
    | none => none
    | some (key, rest) =>
      let read : Option (Node × List Token) := match rest with
        | .value :: rest => readFlowPart fuel rest
        | _ => some (.absent, rest)
      match read with
      | some (.value v, rest) => (e.add? key v).map fun e => (e, rest)
      | _ => none

/-- Reads a key or a value in a flow collection, which may be absent. -/
def readFlowPart : Nat → List Token → Option (Node × List Token)
  | 0, _ => none
  | fuel + 1, tokens =>
    match tokens with
    | .value :: _ => some (.absent, tokens)
    | .comma :: _ => some (.absent, tokens)
    | .flowSequenceEnd :: _ => some (.absent, tokens)
    | .flowMappingEnd :: _ => some (.absent, tokens)
    | _ => readNode false fuel tokens

end

/-- The tokens without marks of the end of a document at the front. -/
def dropEnds : List Token → List Token
  | .documentEnd :: rest => dropEnds rest
  | tokens => tokens

/-- Reads the only document among tokens. A text without one is null. -/
def readDocument (fuel : Nat) (tokens : List Token) : Option Json :=
  let read : Option (Node × List Token) := match tokens with
    | [] => some (.absent, [])
    | .documentStart :: [] => some (.absent, [])
    | .documentStart :: .documentEnd :: rest => some (.absent, .documentEnd :: rest)
    | .documentStart :: rest => readNode false fuel rest
    | _ => readNode false fuel tokens
  match read with
  | some (.value v, rest) => if (dropEnds rest).isEmpty then some v else none
  | _ => none

def isAllowed (c : Char) : Bool :=
  let n := c.toNat
  n == 0x09 || n == 0x0A || n == 0x0D || (0x20 ≤ n && n ≤ 0x7E) || n == 0x85 ||
    (0xA0 ≤ n && n ≤ 0xFFFD) || 0x10000 ≤ n

/-- The value of a document; nothing when it is broken. -/
def read? (text : String) : Option Json :=
  let cs := text.toList
  if cs.all isAllowed then
    (tokens? cs).bind fun tokens => readDocument (3 * tokens.length + 3) tokens
  else none

end ExprRegistry.Yaml
