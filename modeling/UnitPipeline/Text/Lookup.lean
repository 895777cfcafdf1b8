import UnitPipeline.Text.Boundary

namespace UnitPipeline.Text

def bytes (text : List Char) : List UInt8 := text.flatMap String.utf8EncodeChar

def continues (byte : UInt8) : Bool := 0x80 ≤ byte && byte < 0xC0

def isBoundary (encoded : List UInt8) (offset : Nat) : Bool :=
  offset = 0 ||
    match encoded[offset]? with
    | some byte => !continues byte
    | none => offset = encoded.length

def backOff (encoded : List UInt8) : Nat → Option Nat
  | 0 => if isBoundary encoded 0 then some 0 else none
  | offset + 1 =>
    if isBoundary encoded (offset + 1) then some (offset + 1) else backOff encoded offset

-- Halves a range of a sorted table until it finds the key. A key that is not there
-- comes out as the place where it would have to be put in.
def search (table : Array Nat) (key low high : Nat) (within : high ≤ table.size) :
    Except Nat Nat :=
  if filled : low < high then
    let middle := low + (high - low) / 2
    have inside : middle < table.size := by omega
    if table[middle] = key then .ok middle
    else if table[middle] < key then search table key (middle + 1) high within
    else search table key low middle (Nat.le_of_lt inside)
  else .error low
termination_by high - low

def lineAt? (table : Array Nat) (offset : Nat) : Option Nat :=
  match search table offset 0 table.size (Nat.le_refl _) with
  | .ok line => some line
  | .error 0 => none
  | .error (line + 1) => some line

-- The boundary that an offset resolves to, with its line and column counted from one.
-- Nothing comes out if any step on the way has no result.
def lookUp (offset : Nat) (text : List Char) : Option (Nat × Nat × Nat) :=
  let encoded := bytes text
  let table := (lineStarts text).toArray
  (backOff encoded (min offset encoded.length)).bind fun boundary =>
    (lineAt? table boundary).bind fun line =>
      table[line]?.bind fun start =>
        (slice? start boundary text).map fun before => (boundary, line + 1, before.length + 1)

end UnitPipeline.Text
