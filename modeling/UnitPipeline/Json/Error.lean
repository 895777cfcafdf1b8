import UnitPipeline.Decimal.Shortest
import UnitPipeline.Text.Quoted

namespace UnitPipeline.Json

inductive Found
  | null
  | flag (value : Bool)
  | integer (value : Int)
  | real (negative : Bool) (size : Binary64)
  | text (value : String)
  | sequence
  | map
  | unitVariant
  deriving DecidableEq, Repr

def Found.describe : Found → String
  | null => "null"
  | flag true => "boolean `true`"
  | flag false => "boolean `false`"
  | integer value => "integer `" ++ toString value ++ "`"
  | real negative size =>
    "floating point `" ++ (if negative then "-" else "") ++ String.ofList (Decimal.text size) ++ "`"
  | text value => "string " ++ Text.quoted value
  | sequence => "sequence"
  | map => "map"
  | unitVariant => "unit variant"

inductive DataError
  | invalidType (found : Found) (expected : String)
  | invalidValue (found : Found) (expected : String)
  | invalidLength (length : Nat) (expected : String)
  | missingField (name : String)
  | duplicateField (name : String)
  | unknownField (name : String) (known : List String)
  | unknownVariant (name : String) (known : List String)
  deriving DecidableEq, Repr

def tick (name : String) : String := "`" ++ name ++ "`"

def oneOf : List String → String
  | [] => ""
  | [a] => tick a
  | [a, b] => tick a ++ " or " ++ tick b
  | names => "one of " ++ String.intercalate ", " (names.map tick)

def DataError.message : DataError → String
  | invalidType found expected =>
    "invalid type: " ++ found.describe ++ ", expected " ++ expected
  | invalidValue found expected =>
    "invalid value: " ++ found.describe ++ ", expected " ++ expected
  | invalidLength length expected =>
    "invalid length " ++ toString length ++ ", expected " ++ expected
  | missingField name => "missing field " ++ tick name
  | duplicateField name => "duplicate field " ++ tick name
  | unknownField name known => "unknown field " ++ tick name ++ ", expected " ++ oneOf known
  | unknownVariant name known => "unknown variant " ++ tick name ++ ", expected " ++ oneOf known

inductive JsonError
  | malformed
  | endedEarly
  | data (cause : DataError)
  deriving DecidableEq, Repr

def JsonError.category : JsonError → String
  | malformed => "syntax"
  | endedEarly => "eof"
  | data _ => "data"

def JsonError.message? : JsonError → Option String
  | data cause => some cause.message
  | _ => none

end UnitPipeline.Json
