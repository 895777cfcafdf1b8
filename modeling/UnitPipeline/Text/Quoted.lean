import UnitPipeline.Text.Hidden

namespace UnitPipeline.Text

def hexDigit (n : Nat) : Char := "0123456789abcdef".toList.getD n '0'

def hexNumeral (n : Nat) : List Char :=
  if n < 16 then [hexDigit n] else hexNumeral (n / 16) ++ [hexDigit (n % 16)]
termination_by n

-- A character of a quoted text: the quote and the backslash are escaped, the
-- usual controls have a letter, and what does not show is written by number.
def quotedChar (c : Char) : List Char :=
  match c with
  | '"' => ['\\', '"']
  | '\\' => ['\\', '\\']
  | '\n' => ['\\', 'n']
  | '\r' => ['\\', 'r']
  | '\t' => ['\\', 't']
  | '\x00' => ['\\', '0']
  | _ => if isHidden c then ['\\', 'u', '\x7b'] ++ hexNumeral c.toNat ++ ['\x7d'] else [c]

def quoted (text : String) : String :=
  String.ofList ('"' :: text.toList.flatMap quotedChar ++ ['"'])

end UnitPipeline.Text
