import ExprRegistry.Store.Basic
import ExprRegistry.Store.Format

/-!
Loading a store from an index document. A strict load publishes every release that has expression data,
so its expression is checked and its checksum taken; a lenient load takes the releases as they are.
-/

namespace ExprRegistry

/-- Why an index document is not loaded. -/
inductive IndexError where
  | format (f : FormatFault)
  | unfit (how : Unfit)
  | duplicate (name : Scalar)
  /-- The document at `path` cannot be read, for a reason that the reader gives. -/
  | unreadable (path reason : String)
  | store (e : StoreError)
  | record (e : RecordDefect)

def IndexError.message : IndexError → String
  | format f => f.message
  | unfit _ => ""
  | duplicate name => "Duplicate package in index: " ++ name.display
  | unreadable path reason => "Could not parse index file " ++ path ++ ": " ++ reason
  | store e => e.message
  | record .noName => "name"
  | record (.unfit _) => ""

namespace Store

/-- The result of a load and what was logged on the way. -/
structure Loaded where
  log : List Record
  result : Except IndexError Store

/-- Adds a release to a stored package: one without expression data as it is, one with data by
publishing it. -/
def loadRelease (store : Store) (name : Scalar) (r : Release) : Performed :=
  if r.data = .null then
    ⟨Table.modify name (fun p => { p with releases := p.releases ++ [r] }) store, [], .ok .done⟩
  else store.perform (.addVersion (.scalar name) (.text r.version) r.data)

/-- Adds releases to a stored package up to the first that fails. -/
def loadReleases (store : Store) (name : Scalar) : List Release → Loaded
  | [] => ⟨[], .ok store⟩
  | r :: rest =>
    let performed := store.loadRelease name r
    match performed.answer with
    | .error e => ⟨performed.log, .error (.store e)⟩
    | .ok _ =>
      let loaded := loadReleases performed.store name rest
      { loaded with log := performed.log ++ loaded.log }

def loadPackage (strict : Bool) (store : Store) (record : Json) : Loaded :=
  match Package.ofJson record with
  | .error e => ⟨[], .error (.record e)⟩
  | .ok package =>
    match package.name with
    | .scalar k =>
      if Table.has k store then ⟨[], .error (.duplicate k)⟩
      else if strict then
        loadReleases (Table.put k { package with releases := [] } store) k package.releases
      else ⟨[], .ok (Table.put k package store)⟩
    | _ => ⟨[], .error (.record (.unfit .kind))⟩

/-- Adds the packages that records describe, up to the first that fails. -/
def loadPackages (strict : Bool) (store : Store) : List Json → Loaded
  | [] => ⟨[], .ok store⟩
  | record :: rest =>
    let first := store.loadPackage strict record
    match first.result with
    | .error e => ⟨first.log, .error e⟩
    | .ok store =>
      let loaded := loadPackages strict store rest
      { loaded with log := first.log ++ loaded.log }

def ofDocument (strict : Bool) (document : Json) : Loaded :=
  match document.indexFault? with
  | .error how => ⟨[], .error (.unfit how)⟩
  | .ok (some f) => ⟨[], .error (.format f)⟩
  | .ok none => loadPackages strict [] document.indexEntries

def toDocument (packages : List Package) : Json :=
  .obj [("packages", .arr (packages.map Package.toJson))]

end Store

end ExprRegistry
