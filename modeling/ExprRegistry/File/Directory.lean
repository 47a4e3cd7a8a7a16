import ExprRegistry.Data.Table
import ExprRegistry.Text.Blank
import ExprRegistry.Text.Quoted

/-!
The files that are known, by their paths. A path is followed part by part from the working directory, or
from the root when it begins with a slash: an empty part and a point stay where they are, two points go
up, and only a directory leads on. Besides the files there are the null device and the directories that
every system has at its root; every other name is absent.
-/

namespace ExprRegistry

abbrev Files := Table String String

/-- Why a path does not lead to a file. -/
inductive PathError where
  | absent
  | notDirectory
  | isDirectory
  | nameTooLong
  | unusable
  deriving DecidableEq

/-- Why a file is not opened, in words; there are none for a text that is no path. -/
def PathError.message (path : String) : PathError → String
  | absent => "[Errno 2] No such file or directory: " ++ Text.quoted path
  | notDirectory => "[Errno 20] Not a directory: " ++ Text.quoted path
  | isDirectory => "[Errno 21] Is a directory: " ++ Text.quoted path
  | nameTooLong => "[Errno 36] File name too long: " ++ Text.quoted path
  | unusable => ""

def maxNameBytes : Nat := 255

def maxPathBytes : Nat := 4095

def pathParts (path : String) : List String := (Text.pieces '/' path.toList).map String.ofList

def staysPut (part : String) : Bool := part == "" || part == "."

/-- Where a way begins: at the working directory, some levels above it, or at the root. -/
inductive Origin where
  | working
  | above (levels : Nat)
  | root
  deriving DecidableEq

/-- A place: the names that lead to it from where its way begins. -/
structure Place where
  origin : Origin
  way : List String
  deriving DecidableEq

namespace Place

/-- The place one level up; there is none above the root. -/
def up (p : Place) : Place :=
  match p.way, p.origin with
  | _ :: _, _ => { p with way := p.way.dropLast }
  | [], .working => ⟨.above 1, []⟩
  | [], .above levels => ⟨.above (levels + 1), []⟩
  | [], .root => p

def down (p : Place) (name : String) : Place := { p with way := p.way ++ [name] }

def start (path : String) : Place :=
  ⟨if path.toList.head? == some '/' then .root else .working, []⟩

/-- The place that a path writes, without a look at the directories: two points take the part before them
back. -/
def ofPath (path : String) : Place :=
  let step (p : Place) (part : String) : Place :=
    if staysPut part then p else if part == ".." then p.up else p.down part
  (pathParts path).foldl step (start path)

def path (p : Place) : String :=
  let names := "/".intercalate p.way
  match p.origin with
  | .working => names
  | .above levels => String.join (List.replicate levels "../") ++ names
  | .root => "/" ++ names

def leadsTo (p q : Place) : Bool := decide (p.origin = q.origin) && p.way.isPrefixOf q.way

end Place

/-- The names of the directories that every system has at its root. -/
def systemDirectories : List String :=
  ["bin", "dev", "etc", "home", "lib", "mnt", "opt", "proc", "root", "run", "sbin", "srv", "sys", "tmp",
   "usr", "var"]

/-- The place of the device that is always empty and keeps nothing. -/
def nullDevice : Place := ⟨.root, ["dev", "null"]⟩

/-- What is found at a place. -/
inductive Entry where
  | file (text : String)
  | directory
  | device

/-- Whether there is a directory at a place whatever the files are. -/
def Place.isDirectory (p : Place) : Bool :=
  match p.origin, p.way with
  | _, [] => true
  | .root, [name] => systemDirectories.contains name
  | _, _ => false

namespace Files

def at? (files : Files) (p : Place) : Option Entry :=
  let places := files.map fun (path, text) => (Place.ofPath path, text)
  match places.find? fun (q, _) => decide (q = p) with
  | some (_, text) => some (.file text)
  | none =>
    if p.isDirectory || places.any fun (q, _) => p.leadsTo q then some .directory
    else if p = nullDevice then some .device
    else none

def follow (files : Files) : Place → List String → Except PathError Entry
  | _, [] => .ok .directory
  | p, part :: rest =>
    if staysPut part then follow files p rest
    else if part == ".." then follow files p.up rest
    else if maxNameBytes < part.utf8ByteSize then .error .nameTooLong
    else
      match files.at? (p.down part) with
      | none => .error .absent
      | some .directory => follow files (p.down part) rest
      | some e => if rest.isEmpty then .ok e else .error .notDirectory

def locate (files : Files) (path : String) : Except PathError Entry :=
  if path.toList.contains '\x00' then .error .unusable
  else if path.isEmpty then .error .absent
  else if maxPathBytes < path.utf8ByteSize then .error .nameTooLong
  else files.follow (Place.start path) (pathParts path)

end Files

/-- The characters of a file with uniform line ends: all three kinds are read as line feeds. -/
def uniformLines : List Char → List Char
  | [] => []
  | '\r' :: '\n' :: rest => '\n' :: uniformLines rest
  | '\r' :: rest => '\n' :: uniformLines rest
  | c :: rest => c :: uniformLines rest

namespace Files

/-- The text that is read where a path leads to: that of a file, or none at all from the null device. -/
def read (files : Files) (path : String) : Except PathError String :=
  match files.locate path with
  | .error e => .error e
  | .ok .directory => .error .isDirectory
  | .ok .device => .ok ""
  | .ok (.file text) => .ok (String.ofList (uniformLines text.toList))

/-- The text of the file that a path leads to, if it leads to one. -/
def text? (files : Files) (path : String) : Option String :=
  match files.locate path with
  | .ok (.file text) => some (String.ofList (uniformLines text.toList))
  | _ => none

/-- Opens a file for text to be added at its end: the files with this file, which is made if it is absent,
and its path; there is no path for the null device. -/
def openToAppend (files : Files) (path : String) : Except PathError (Files × Option String) :=
  if path.toList.contains '\x00' then .error .unusable
  else
    let place := Place.ofPath path
    match files.follow { place with way := [] } place.way with
    | .ok .directory => .error .isDirectory
    | .ok .device => .ok (files, none)
    | .ok (.file _) => .ok (files, some place.path)
    | .error .absent =>
      match files.at? place.up with
      | some .directory => .ok (files.put place.path "", some place.path)
      | _ => .error .absent
    | .error e => .error e

def append (files : Files) (path text : String) : Files :=
  files.map fun (name, before) =>
    if Place.ofPath name = Place.ofPath path then (name, before ++ text) else (name, before)

end Files

end ExprRegistry
