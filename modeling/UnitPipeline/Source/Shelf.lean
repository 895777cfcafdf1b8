import UnitPipeline.Source.File

namespace UnitPipeline

-- A handle to a source. Copies of a handle share one buffer; sources opened
-- apart have buffers of their own, whatever they hold.
structure SourceHandle where
  buffer : Nat
  source : SourceFile
  deriving DecidableEq, Repr

def SourceHandle.sameAs (a b : SourceHandle) : Bool :=
  match a.source.isPresent, b.source.isPresent with
  | true, true => a.buffer = b.buffer
  | false, false => true
  | _, _ => false

structure SourceShelf where
  handles : List SourceHandle := []
  nextBuffer : Nat := 0

namespace SourceShelf

def add (shelf : SourceShelf) (source : SourceFile) : SourceShelf :=
  ⟨shelf.handles ++ [⟨shelf.nextBuffer, source⟩], shelf.nextBuffer + 1⟩

def copy (shelf : SourceShelf) (handle : SourceHandle) : SourceShelf :=
  { shelf with handles := shelf.handles ++ [handle] }

def get? (shelf : SourceShelf) (index : Nat) : Option SourceHandle := shelf.handles[index]?

end SourceShelf

end UnitPipeline
