import UnitPipeline.Source.File

namespace UnitPipeline

-- Why a path could not be read. A tree of folders knows the first six; any other disk may
-- have more to say.
inductive ReadFault
  | notFound
  | isFolder
  | notFolder
  | nameTooLong
  | nulInName
  | notText
  | other (kind cause : String)
  deriving DecidableEq, Repr

namespace ReadFault

def kind : ReadFault → String
  | notFound => "NotFound"
  | isFolder => "IsADirectory"
  | notFolder => "NotADirectory"
  | nameTooLong => "InvalidFilename"
  | nulInName => "InvalidInput"
  | notText => "InvalidData"
  | other kind _ => kind

def cause : ReadFault → String
  | notFound => "No such file or directory (os error 2)"
  | isFolder => "Is a directory (os error 21)"
  | notFolder => "Not a directory (os error 20)"
  | nameTooLong => "File name too long (os error 36)"
  | nulInName => "file name contained an unexpected NUL byte"
  | notText => "stream did not contain valid UTF-8"
  | other _ cause => cause

end ReadFault

structure SourceError where
  path : String
  fault : ReadFault
  deriving DecidableEq, Repr

def SourceError.message (e : SourceError) : String :=
  "cannot read source " ++ e.path ++ ": " ++ e.fault.cause

structure FileTree where
  files : List (List String × List UInt8) := []
  folders : List (List String) := []

namespace FileTree

def addFile (tree : FileTree) (path : String) (bytes : List UInt8) : FileTree :=
  let place := Path.components path
  { tree with files := (place, bytes) :: tree.files.filter fun f => f.1 ≠ place }

def addFolder (tree : FileTree) (path : String) : FileTree :=
  { tree with folders := Path.components path :: tree.folders }

def bytes? (tree : FileTree) (place : List String) : Option (List UInt8) :=
  (tree.files.find? fun f => f.1 = place).map (·.2)

def hasFolder (tree : FileTree) (place : List String) : Bool :=
  place.isEmpty ||
    tree.folders.any (fun folder => place.isPrefixOf folder) ||
    tree.files.any fun f => place.isPrefixOf f.1 && place.length < f.1.length

inductive Place
  | inside (place : List String)
  | above
  deriving DecidableEq, Repr

def Place.parent : Place → Place
  | inside [] => above
  | inside place => inside place.dropLast
  | above => above

def enter (tree : FileTree) (place : Place) (name : String) : Except ReadFault Place :=
  match place with
  | .above =>
    if name = "" ∨ name = "." ∨ name = ".." then .ok .above
    else if 255 < name.utf8ByteSize then .error .nameTooLong
    else .error .notFound
  | .inside here =>
    if (tree.bytes? here).isSome then .error .notFolder
    else if name = "" ∨ name = "." then .ok place
    else if name = ".." then .ok place.parent
    else if 255 < name.utf8ByteSize then .error .nameTooLong
    else
      let next := here ++ [name]
      if (tree.bytes? next).isSome || tree.hasFolder next then .ok (.inside next)
      else .error .notFound

def walk (tree : FileTree) : Place → List String → Except ReadFault Place
  | place, [] => .ok place
  | place, name :: rest =>
    match tree.enter place name with
    | .ok next => tree.walk next rest
    | .error fault => .error fault

-- A path is refused as a whole before it is walked: one with a NUL, an empty
-- one, and one of 4096 bytes or more.
def find (tree : FileTree) (path : String) : Except ReadFault (List UInt8) :=
  if path.toList.contains '\x00' then .error .nulInName
  else if path = "" then .error .notFound
  else if 4096 ≤ path.utf8ByteSize then .error .nameTooLong
  else
    let start := if path.toList.head? = some '/' then Place.above else Place.inside []
    match tree.walk start (path.splitOn "/") with
    | .error fault => .error fault
    | .ok .above => .error .isFolder
    | .ok (.inside place) =>
      match tree.bytes? place with
      | some bytes => .ok bytes
      | none => .error .isFolder

def read (tree : FileTree) (path : String) : Except ReadFault String :=
  match tree.find path with
  | .error fault => .error fault
  | .ok bytes =>
    match String.fromUTF8? ⟨bytes.toArray⟩ with
    | some text => .ok text
    | none => .error .notText

end FileTree

def SourceFile.readFrom (disk : String → Except ReadFault String) (path : String) :
    Except SourceError SourceFile :=
  match disk path with
  | .ok content => .ok (.persistent path content)
  | .error fault => .error ⟨path, fault⟩

end UnitPipeline
