import TagFormula.Storage.FileFault
import TagFormula.Storage.Path

/-!
A tree of folders and files. It holds what answers depend on: which paths exist, whether
each is a folder or a file, and what is in the files.
-/
namespace TagFormula

inductive Entry where
  | folder
  | file (content : ByteArray)

/-- The entries below the root, by the names on the way to them. -/
structure Disk where
  entries : List (List String × Entry)
  /-- The folder that relative paths start from. -/
  current : List String

namespace Disk

def withFolder (names : List String) : Disk :=
  ⟨(List.range names.length).map fun n => (names.take (n + 1), .folder), names⟩

def entry? (d : Disk) (place : List String) : Option Entry :=
  if place.isEmpty then some .folder else (d.entries.find? (·.1 == place)).map (·.2)

def put (d : Disk) (place : List String) (e : Entry) : Disk :=
  { d with entries := (place, e) :: d.entries.filter (·.1 != place) }

def enter (place : List String) (part : String) : List String :=
  if part == "." then place else if part == ".." then place.dropLast else place ++ [part]

def walk (d : Disk) (place : List String) : List String → Except FileFault (List String)
  | [] => .ok place
  | part :: rest =>
    match d.entry? place with
    | none => .error .notFound
    | some (.file _) => .error .notADirectory
    | some .folder => d.walk (enter place part) rest

def origin (d : Disk) (path : String) : List String :=
  if Path.isAbsolute path then [] else d.current

def locate (d : Disk) (path : String) : Except FileFault (List String) :=
  if path.isEmpty then .error .notFound
  else
    let parts := Path.parts path
    d.walk (d.origin path) (if Path.endsInSlash path then parts ++ ["."] else parts)

def find (d : Disk) (path : String) : Except FileFault Entry := do
  match d.entry? (← d.locate path) with
  | some e => pure e
  | none => throw .notFound

def «exists» (d : Disk) (path : String) : Bool := (d.find path).isOk

def readText (d : Disk) (path : String) : Except FileFault String := do
  match ← d.find path with
  | .folder => throw .isADirectory
  | .file content =>
    match String.fromUTF8? content with
    | some text => pure text
    | none => throw .notText

def write (d : Disk) (path : String) (content : ByteArray) : Except FileFault Disk := do
  let place ← d.walk (d.origin path) (Path.parts path)
  if path.isEmpty then throw .notFound
  match d.entry? place with
  | some .folder => throw .isADirectory
  | _ => if Path.endsInSlash path then throw .isADirectory else pure (d.put place (.file content))

def createParts (d : Disk) (place : List String) : List String → Except FileFault Disk
  | [] => .ok d
  | part :: rest =>
    let place := enter place part
    match d.entry? place with
    | some .folder => d.createParts place rest
    | some (.file _) => .error (if rest.isEmpty then .alreadyThere else .notADirectory)
    | none => (d.put place .folder).createParts place rest

def createFolders (d : Disk) (path : String) : Except FileFault Disk :=
  d.createParts (d.origin path) (Path.parts path)

end Disk

end TagFormula
