import UnitPipeline.Json.Read
import UnitPipeline.Json.Write

namespace UnitPipeline.Json

class Form (α : Type) where
  shape : Shape
  toValue : α → shape.Value
  ofValue : shape.Value → α

def encode [Form α] (a : α) : String :=
  String.ofList ((Form.shape α).write (Form.toValue a))

-- The value a text stands for, or the first error in reading order.
def decode (α : Type) [Form α] (text : String) : Except JsonError α :=
  ((Form.shape α).readWhole text.toList).map Form.ofValue

def reencode (α : Type) [Form α] (text : String) : Except JsonError String :=
  (decode α text).map encode

end UnitPipeline.Json
