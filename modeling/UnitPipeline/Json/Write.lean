import UnitPipeline.Json.Shape

namespace UnitPipeline.Json

def writeChar (c : Char) : List Char :=
  match c with
  | '"' => ['\\', '"']
  | '\\' => ['\\', '\\']
  | '\x08' => ['\\', 'b']
  | '\x0c' => ['\\', 'f']
  | '\n' => ['\\', 'n']
  | '\r' => ['\\', 'r']
  | '\t' => ['\\', 't']
  | _ =>
    if c.toNat < 0x20 then
      ['\\', 'u', '0', '0', Text.hexDigit (c.toNat / 16), Text.hexDigit (c.toNat % 16)]
    else [c]

def writeText (text : String) : List Char := '"' :: text.toList.flatMap writeChar ++ ['"']

def writeNat (n : Nat) : List Char := Nat.toDigits 10 n

def writeList (item : α → List Char) : List α → List Char
  | [] => []
  | [x] => item x
  | x :: rest => item x ++ ',' :: writeList item rest

def braced (members : List Char) : List Char := '\x7b' :: members ++ ['\x7d']

def writeMember (name : String) (value : List Char) : List Char := writeText name ++ ':' :: value

mutual

def Shape.write : (shape : Shape) → shape.Value → List Char
  | .flag, (b : Bool) => if b then "true".toList else "false".toList
  | .word w, n => writeNat (w.number n)
  | .text, (t : String) => writeText t
  | .list item, (xs : List item.Value) => '[' :: writeList item.write xs ++ [']']
  | .option item, (x : Option item.Value) =>
    match x with
    | some v => item.write v
    | none => "null".toList
  | .record _ fields, v => braced (writeList (fun m => m) (fields.write v))
  | .overlay _ fields, v => braced (writeList (fun m => m) (fields.writeSlots v))
  | .choice variants, v => variants.write v

def Fields.write : (fields : Fields) → fields.Value → List (List Char)
  | .nil, _ => []
  | .cons name shape rest, v => writeMember name (shape.write v.1) :: rest.write v.2

def Fields.writeSlots : (fields : Fields) → fields.Slots → List (List Char)
  | .nil, _ => []
  | .cons name shape rest, v =>
    match v.1 with
    | some x => writeMember name (shape.write x) :: rest.writeSlots v.2
    | none => rest.writeSlots v.2

def Variants.write : (variants : Variants) → variants.Value → List Char
  | .nil, v => nomatch v
  | .plain name rest, v =>
    match v with
    | .inl _ => writeText name
    | .inr later => rest.write later
  | .fielded name _ fields rest, v =>
    match v with
    | .inl values =>
      braced (writeMember name (braced (writeList (fun m => m) (fields.write values))))
    | .inr later => rest.write later

end

end UnitPipeline.Json
