import UnitPipeline.Decimal.Binary

namespace UnitPipeline

namespace Decimal

def magnitude (num den : Nat) : Int :=
  if den ≤ num then ((Nat.toDigits 10 (num / den)).length : Int) - 1
  else
    match (List.range 400).find? fun j => den ≤ num * Nat.pow 10 j with
    | some j => -(j : Int)
    | none => -400

-- The ends of what rounds to a number, and the number itself, in quarters of
-- its last place. Below a power of two the numbers lie twice as close.
def interval (x : Binary64) : Nat × Nat × Nat :=
  let m := 4 * x.mantissa
  let low := if x.mantissa = 1 <<< 52 ∧ -1074 < x.exponent then m - 1 else m - 2
  (low, m, m + 2)

def onGrid? (x : Binary64) (unit : Int) : Option Nat :=
  let (low, mid, high) := interval x
  let e := x.exponent - 2
  let two := 1 <<< e.toNat
  let half := 1 <<< (-e).toNat
  let ten := Nat.pow 10 unit.toNat * half
  let tenth := Nat.pow 10 (-unit).toNat * two
  let under := mid * tenth / ten
  let inside (c : Nat) : Bool :=
    if x.mantissa % 2 = 0 then low * tenth ≤ c * ten && c * ten ≤ high * tenth
    else low * tenth < c * ten && c * ten < high * tenth
  let below := mid * tenth - under * ten
  let above := (under + 1) * ten - mid * tenth
  if inside under && inside (under + 1) then
    if below < above then some under
    else if above < below then some (under + 1)
    else if under % 2 = 0 then some under else some (under + 1)
  else if inside under then some under
  else if inside (under + 1) then some (under + 1)
  else none

def shortest (x : Binary64) : List Char × Int :=
  let top := magnitude (x.mantissa <<< x.exponent.toNat) (1 <<< (-x.exponent).toNat)
  let found := (List.range 17).findSome? fun (k : Nat) =>
    (onGrid? x (top - (k : Int))).map fun c => (c, top - (k : Int))
  match found with
  | some (c, unit) =>
    let digits := Nat.toDigits 10 c
    let kept := (digits.reverse.dropWhile (· = '0')).reverse
    (kept, unit + ((digits.length : Int) - 1))
  | none => (['0'], 0)

-- Positional from 1e-5 to below 1e16, with at least one place; a power of ten
-- with its sign otherwise.
def text (x : Binary64) : List Char :=
  if x.isZero then "0.0".toList
  else
    let (digits, top) := shortest x
    let count : Int := digits.length
    if -5 ≤ top ∧ top ≤ 15 then
      if count - 1 ≤ top then digits ++ List.replicate (top - (count - 1)).toNat '0' ++ ".0".toList
      else if 0 ≤ top then
        digits.take (top + 1).toNat ++ '.' :: digits.drop (top + 1).toNat
      else "0.".toList ++ List.replicate (-top - 1).toNat '0' ++ digits
    else
      let lead := match digits with
        | [d] => [d]
        | d :: rest => d :: '.' :: rest
        | [] => []
      lead ++ 'e' :: (if top < 0 then '-' else '+') :: Nat.toDigits 10 top.natAbs

end Decimal

end UnitPipeline
