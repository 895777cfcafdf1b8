import UnitPipeline.Source.File

namespace UnitPipeline

structure DeclId where
  number : UInt32
  deriving DecidableEq, Repr

def DeclId.index (id : DeclId) : Nat := id.number.toNat

def DeclId.ofIndex (index : Nat) : DeclId := ⟨.ofNat index⟩

inductive DeclKind
  | package
  | classType
  | traitType
  | object
  | method
  | value
  | typeAlias
  deriving DecidableEq, Repr

structure Declaration where
  id : DeclId
  name : String
  kind : DeclKind
  source : SourceFile
  deriving DecidableEq, Repr

inductive DeclError
  | duplicate (name : String)
  deriving DecidableEq, Repr

def DeclError.message : DeclError → String
  | duplicate name => "duplicate declaration: " ++ name

-- All declarations of a run. The id of a declaration is its place.
structure DeclTable where
  decls : Array Declaration := #[]
  deriving DecidableEq, Repr

namespace DeclTable

def size (table : DeclTable) : Nat := table.decls.size

def toList (table : DeclTable) : List Declaration := table.decls.toList

def isEmpty (table : DeclTable) : Bool := table.decls.isEmpty

def get? (table : DeclTable) (id : DeclId) : Option Declaration := table.decls[id.index]?

def named? (table : DeclTable) (name : String) : Option Declaration :=
  table.toList.find? fun d => d.name = name

def nameOf? (table : DeclTable) (id : DeclId) : Option String := (table.get? id).map (·.name)

def declare (table : DeclTable) (name : String) (kind : DeclKind) (source : SourceFile) :
    Except DeclError (DeclId × DeclTable) :=
  match table.named? name with
  | some _ => .error (.duplicate name)
  | none =>
    let id := DeclId.ofIndex table.size
    .ok (id, ⟨table.decls.push ⟨id, name, kind, source⟩⟩)

end DeclTable

end UnitPipeline
