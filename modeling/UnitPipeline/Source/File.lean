import UnitPipeline.Source.Path
import UnitPipeline.Source.Span
import UnitPipeline.Text.Lookup

namespace UnitPipeline

-- The input of a unit: nothing at all, a text with an identity on disk, or a
-- text that lives only in memory (what an expansion or a session produced).
inductive SourceFile
  | absent
  | persistent (path content : String)
  | inMemory (path content : String)
  deriving DecidableEq, Repr

namespace SourceFile

def path? : SourceFile → Option String
  | absent => none
  | persistent path _ | inMemory path _ => some path

def content : SourceFile → String
  | absent => ""
  | persistent _ content | inMemory _ content => content

def isPresent : SourceFile → Bool
  | absent => false
  | _ => true

def isVirtual : SourceFile → Bool
  | inMemory .. => true
  | _ => false

def isPersistent : SourceFile → Bool
  | persistent .. => true
  | _ => false

def isJava (source : SourceFile) : Bool :=
  (source.path?.bind Path.extension?) == some "java"

def display (source : SourceFile) : String := source.path?.getD "<no file>"

def chars (source : SourceFile) : List Char := source.content.toList

def length (source : SourceFile) : Nat := Text.size source.chars

def isEmpty (source : SourceFile) : Bool := source.chars.isEmpty

def lineCount : SourceFile → Nat
  | absent => 0
  | source => (Text.lineStarts source.chars).length

def text (source : SourceFile) (span : Span) : String :=
  if span.isEmpty then ""
  else String.ofList ((Text.slice? span.start.toNat span.stop.toNat source.chars).getD [])

-- The place of an offset. Offsets past the end count as the end, offsets inside
-- a character as its start. There is none if the look-up fails.
def position? (source : SourceFile) (offset : UInt64) : Option Position :=
  match source with
  | absent => some Position.none
  | _ => (Text.lookUp offset.toNat source.chars).map fun place =>
    ⟨.ofNat place.1, .ofNat place.2.1, .ofNat place.2.2⟩

def position (source : SourceFile) (offset : UInt64) : Position :=
  (source.position? offset).getD Position.none

end SourceFile

end UnitPipeline
