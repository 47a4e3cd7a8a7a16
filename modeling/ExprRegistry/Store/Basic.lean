import ExprRegistry.Data.Table
import ExprRegistry.Expr.Check
import ExprRegistry.Expr.Encode
import ExprRegistry.Log.Record
import ExprRegistry.Package.Basic
import ExprRegistry.Json.Order
import ExprRegistry.Version.Grammar

/-!
The store of packages. Five operations change it: a package is created empty, its dependencies are
replaced, a release is published after its expression has been checked, releases and packages are
deleted. An operation ends in a store, whether it succeeds or fails.
-/

namespace ExprRegistry

abbrev Store := Table Scalar Package

/-- Why an operation on a store fails. -/
inductive StoreError where
  | invalid (e : ValidationError)
  | packageExists (name : Json)
  | versionExists (name : Json) (version : String)
  | unknownPackage (name : Json)
  | unfit (how : Unfit)

/-- The failure of an operation that refuses what it is given. -/
def StoreError.refused (e : ValidationError) : StoreError := if e.hasMessage then .invalid e else .unfit .value

theorem StoreError.refused_of_told {e : ValidationError} (told : e.hasMessage = true) : refused e = .invalid e :=
  if_pos told

theorem StoreError.refused_of_silent {e : ValidationError} (silent : e.hasMessage = false) :
    refused e = .unfit .value := if_neg (ne_true_of_eq_false silent)

/-- A failure in words; there are none for a value that does not fit. -/
def StoreError.message : StoreError → String
  | invalid e => e.report.message
  | packageExists name => "Package already exists: " ++ name.display
  | versionExists name version => name.display ++ " " ++ version ++ " already exists"
  | unknownPackage name => "Package not found: " ++ name.display
  | unfit _ => ""

/-- The answer of an operation that succeeds. -/
inductive Answer where
  | package (p : Package)
  | release (r : Release)
  | removed (any : Bool)
  | done

/-- What a store can be asked to change. The arguments are any values. -/
inductive Operation where
  | create (name dependencies title description : Json)
  | setDependencies (name dependencies : Json)
  | addVersion (name version data : Json)
  | deleteVersion (name version : Json)
  | deletePackage (name : Json)

/-- Whether a text is written like a version: three numbers, prerelease and build. -/
def isVersionText (s : String) : Bool :=
  match Version.Parts.split? s.toList with
  | some parts => parts.patch.isSome
  | none => false

namespace Store

def find (store : Store) (name : Json) : Except StoreError (Option Package) :=
  match name with
  | .scalar k => .ok (Table.get? k store)
  | _ => .error (.unfit .kind)

def require (store : Store) (name : Json) : Except StoreError (Scalar × Package) :=
  match name with
  | .scalar k =>
    match Table.get? k store with
    | some package => .ok (k, package)
    | none => .error (.unknownPackage name)
  | _ => .error (.unfit .kind)

/-- The name of a new package. A value that is not given counts as the empty name. -/
def newName : Json → Except StoreError String
  | .str s => if isPackageNameText s then .ok s else .error (.invalid (.packageName (.str s)))
  | .text t => .error (.invalid (.packageName (.text t)))
  | v => if v.isGiven then .error (.unfit .kind) else .error (.invalid (.packageName v))

/-- Creates an empty package. -/
def create (store : Store) (name dependencies title description : Json) :
    Store × Except StoreError Package :=
  match newName name with
  | .error e => (store, .error e)
  | .ok text =>
    if Table.has (.str text) store then (store, .error (.packageExists name))
    else
      match dependencies.entriesIfGiven with
      | .error how => (store, .error (.unfit how))
      | .ok dependencies =>
        let package : Package := ⟨name, dependencies, [], title, description⟩
        (Table.put (.str text) package store, .ok package)

def setDependencies (store : Store) (name dependencies : Json) : Store × Except StoreError Unit :=
  match dependencies.entries with
  | .error how => (store, .error (.unfit how))
  | .ok dependencies =>
    match store.require name with
    | .error e => (store, .error e)
    | .ok (k, _) =>
      (Table.modify k (fun p => { p with dependencies := dependencies }) store, .ok ())

def addVersion (store : Store) (name version data : Json) : Store × Except StoreError Release :=
  match version with
  | .str text =>
    if !isVersionText text then (store, .error (.invalid (.versionText version)))
    else
      match Expr.decode data with
      | .error e => (store, .error (.refused (.expression e)))
      | .ok _ =>
        match data.checksum with
        | .error how => (store, .error (.unfit how))
        | .ok checksum =>
          match store.require name with
          | .error e => (store, .error e)
          | .ok (k, package) =>
            if (package.release? version).isSome then (store, .error (.versionExists name text))
            else
              let release : Release := ⟨text, data, .str checksum⟩
              (Table.modify k (fun p => { p with releases := p.releases ++ [release] }) store,
                .ok release)
  | _ => (store, .error (.refused (.versionText version)))

/-- Deletes the releases with a version; the answer tells whether there were any. -/
def deleteVersion (store : Store) (name version : Json) : Store × Except StoreError Bool :=
  match store.require name with
  | .error e => (store, .error e)
  | .ok (k, package) =>
    let kept := package.releases.filter fun r => !decide (Json.text r.version = version)
    (Table.modify k (fun p => { p with releases := kept }) store,
      .ok (kept.length != package.releases.length))

/-- Deletes a package with its releases; the answer tells whether it was there. In an empty store nothing
is looked for, so any value may be asked for. -/
def deletePackage (store : Store) (name : Json) : Store × Except StoreError Bool :=
  match name with
  | .scalar k => (Table.erase k store, .ok (Table.has k store))
  | _ => if store.isEmpty then (store, .ok false) else (store, .error (.unfit .kind))

def sorted (store : Store) : Except Unfit (List Package) :=
  (Scalar.sortBy Prod.fst store).map Table.values

def names (store : Store) : Except Unfit (List Scalar) := Scalar.sortBy id (Table.keys store)

/-- A package that declares a dependency, and its requirement. -/
structure Dependent where
  name : Json
  title : Json
  requirement : Json

def Dependent.toJson (d : Dependent) : Json :=
  .obj [("name", d.name), ("title", d.title), ("version_requirement", d.requirement)]

/-- The packages that declare a dependency on a name, in order of their names. -/
def dependents (store : Store) (name : Json) : Except Unfit (List Dependent) :=
  match store.sorted with
  | .error how => .error how
  | .ok packages =>
    match name with
    | .scalar k =>
      .ok (packages.filterMap fun p =>
        (Table.get? k p.dependencies).map fun requirement => ⟨p.name, p.title, requirement⟩)
    | _ => if packages.isEmpty then .ok [] else .error .kind

def debugRecord (message : String) : Record := ⟨.debug, "registry.index", message, []⟩

/-- The store after an operation, what was logged, and the answer. -/
structure Performed where
  store : Store
  log : List Record
  answer : Except StoreError Answer

/-- An operation as it ended, with what it logs and answers when it succeeds. -/
def Performed.ofEnd {α : Type} (ended : Store × Except StoreError α) (log : α → List Record)
    (answer : α → Answer) : Performed :=
  match ended with
  | (store, .error e) => ⟨store, [], .error e⟩
  | (store, .ok a) => ⟨store, log a, .ok (answer a)⟩

@[simp]
theorem Performed.ofEnd_error {α : Type} (store : Store) (e : StoreError) (log : α → List Record)
    (answer : α → Answer) : ofEnd (store, .error e) log answer = ⟨store, [], .error e⟩ := rfl

@[simp]
theorem Performed.ofEnd_ok {α : Type} (store : Store) (a : α) (log : α → List Record) (answer : α → Answer) :
    ofEnd (store, .ok a) log answer = ⟨store, log a, .ok (answer a)⟩ := rfl

def perform (store : Store) : Operation → Performed
  | .create name dependencies title description =>
    .ofEnd (store.create name dependencies title description)
      (fun _ => [debugRecord ("Created package " ++ name.display)]) .package
  | .setDependencies name dependencies =>
    .ofEnd (store.setDependencies name dependencies) (fun _ => []) fun _ => .done
  | .addVersion name version data =>
    .ofEnd (store.addVersion name version data)
      (fun r => [debugRecord ("Published " ++ name.display ++ " " ++ r.version.escaped)]) .release
  | .deleteVersion name version =>
    .ofEnd (store.deleteVersion name version) (fun _ => []) .removed
  | .deletePackage name => .ofEnd (store.deletePackage name) (fun _ => []) .removed

def performAll (store : Store) (operations : List Operation) : Store :=
  operations.foldl (fun s op => (s.perform op).store) store

/-- The store of a list of packages, a later one taking the place of an earlier one of its name. -/
def ofPackages : List Package → Except Unfit Store :=
  go []
where
  go (store : Store) : List Package → Except Unfit Store
    | [] => .ok store
    | p :: rest =>
      match p.name with
      | .scalar k => go (Table.put k p store) rest
      | _ => .error .kind

end Store

end ExprRegistry
