import UnitPipeline.Json.Lexeme

namespace UnitPipeline.Json

inductive Width
  | byte
  | word32
  | word64
  deriving DecidableEq, Repr

namespace Width

def Word : Width → Type
  | byte => UInt8
  | word32 => UInt32
  | word64 => UInt64

def size : Width → Nat
  | byte => UInt8.size
  | word32 => UInt32.size
  | word64 => UInt64.size

def name : Width → String
  | byte => "u8"
  | word32 => "u32"
  | word64 => "usize"

def ofNumber : (w : Width) → Nat → w.Word
  | byte, n => UInt8.ofNat n
  | word32, n => UInt32.ofNat n
  | word64, n => UInt64.ofNat n

def number : (w : Width) → w.Word → Nat
  | byte, (n : UInt8) => n.toNat
  | word32, (n : UInt32) => n.toNat
  | word64, (n : UInt64) => n.toNat

end Width

-- The form in which a type is written. A record has named fields in order; an
-- overlay is one whose fields may all be left out, and no others may come. A
-- choice is one of several named variants, some of which have fields. Titles
-- are what messages call a form.
mutual

inductive Shape
  | flag
  | word (width : Width)
  | text
  | list (item : Shape)
  | option (item : Shape)
  | record (title : String) (fields : Fields)
  | overlay (title : String) (fields : Fields)
  | choice (variants : Variants)

inductive Fields
  | nil
  | cons (name : String) (shape : Shape) (rest : Fields)

inductive Variants
  | nil
  | plain (name : String) (rest : Variants)
  | fielded (name title : String) (fields : Fields) (rest : Variants)

end

mutual

def Shape.Value : Shape → Type
  | .flag => Bool
  | .word w => w.Word
  | .text => String
  | .list item => List item.Value
  | .option item => Option item.Value
  | .record _ fields => fields.Value
  | .overlay _ fields => fields.Slots
  | .choice variants => variants.Value

def Fields.Value : Fields → Type
  | .nil => Unit
  | .cons _ shape rest => shape.Value × rest.Value

def Fields.Slots : Fields → Type
  | .nil => Unit
  | .cons _ shape rest => Option shape.Value × rest.Slots

def Variants.Value : Variants → Type
  | .nil => Empty
  | .plain _ rest => Unit ⊕ rest.Value
  | .fielded _ _ fields rest => fields.Value ⊕ rest.Value

end

def Fields.names : Fields → List String
  | .nil => []
  | .cons name _ rest => name :: rest.names

def Fields.count (fields : Fields) : Nat := fields.names.length

def Variants.names : Variants → List String
  | .nil => []
  | .plain name rest => name :: rest.names
  | .fielded name _ _ rest => name :: rest.names

def Fields.unread : (fields : Fields) → fields.Slots
  | .nil => ()
  | .cons _ _ rest => (none, rest.unread)

def Shape.absent? : (shape : Shape) → Option shape.Value
  | .option _ => some none
  | _ => none

end UnitPipeline.Json
