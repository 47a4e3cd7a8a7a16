import ExprRegistry.Http.Client
import ExprRegistry.Http.Percent
import ExprRegistry.Resolve.Source

/-!
The package index behind an HTTP address. The record of a package stands at its own address, possibly
inside an object under the key `data`; a record without a name takes the name that was asked for.
-/

namespace ExprRegistry.Http

/-- A remote index: its base address without slashes at the end, and whether replies are kept. -/
structure Index where
  base : String
  useCache : Bool
  deriving DecidableEq

/-- The index at a base address; the address of the settings when none is given. -/
def Index.ofBase (base : Json) (settings : Settings) (useCache : Bool) : Except Unfit Index :=
  match (if base.isGiven then base else settings.apiUrl) with
  | .str address => .ok ⟨Text.dropTrailing '/' address, useCache⟩
  | .text _ => .error .encoding
  | _ => .error .operation

namespace Index

def packageUrl (index : Index) (name : String) : String :=
  index.base ++ "/expressions/" ++ percentEncode name

def lookupHeaders : Json := .obj [("Accept", .str "application/json")]

def lookupRecord (target : String) (name : String) (status : Int) : Record :=
  ⟨.debug, "registry.http", "Package lookup",
    [("event", .str "lookup"), ("component", .str "http_index"), ("target", .str target),
     ("package", .str name), ("status_code", .int status)]⟩

/-- The record of a package in a body: what stands under `data`, or the body itself. -/
def recordOf (body : Fields) : Json := (Json.field? body "data").getD (.obj body)

def withName (name : String) (fields : Fields) : Fields :=
  if Json.hasField fields "name" then fields else fields.concat ("name", .str name)

def interpret (index : Index) (name : String) (reply : JsonReply) :
    Except LookupError (Option Package) :=
  if reply.status == 404 then .ok none
  else if reply.status == 0 then
    match safe? index.base with
    | some base => .error (.unreachable base)
    | none => .error (.unfit .value)
  else if reply.status != 200 then .error (.badStatus reply.status (.str name))
  else
    match reply.body with
    | .obj body =>
      match recordOf body with
      | .obj fields =>
        match Package.ofFields (withName name fields) with
        | .ok package => .ok (some package)
        | .error (.unfit how) => .error (.unfit how)
        | .error .noName => .error (.unfit .kind)
      | _ => .error (.badRecord (.str name))
    | _ => .error (.undecodable (.str name))

def lookupText (index : Index) (name : String) (s : Session) :
    Session × Except LookupError (Option Package) :=
  let url := index.packageUrl name
  match getJson url lookupHeaders index.useCache [] s with
  | (s, .error how) => (s, .error (.unfit how))
  | (s, .ok reply) =>
    (s.note (lookupRecord ((safe? url).getD "") name reply.status), index.interpret name reply)

/-- Looks a package up. Only a whole text can be part of an address. -/
def lookup (index : Index) (name : Json) (s : Session) :
    Session × Except LookupError (Option Package) :=
  match name with
  | .str text => index.lookupText text s
  | .text _ => (s, .error (.unfit .encoding))
  | _ => (s, .error (.unfit .kind))

/-- The remote index as a source of packages; what a lookup logs is part of its answer. Every package
that is found was either kept before or takes a request that is answered. -/
def source (index : Index) : Source Session where
  find name s :=
    let found := index.lookup name { s with log := [] }
    ⟨{ found.1 with log := s.log }, found.1.log, found.2⟩
  bound s := s.cache.length + s.transport.reach

end Index

end ExprRegistry.Http
