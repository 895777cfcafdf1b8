namespace UnitPipeline

-- A nonnegative number of double precision: `mantissa` times two to the
-- `exponent`, with at most 53 bits and no exponent below -1074.
structure Binary64 where
  mantissa : Nat
  exponent : Int
  deriving DecidableEq, Repr

namespace Binary64

def zero : Binary64 := ⟨0, 0⟩

def isZero (x : Binary64) : Bool := x.mantissa = 0

def roundQuotient (num den : Nat) : Nat :=
  let q := num / den
  let r := num % den
  if 2 * r < den then q
  else if den < 2 * r then q + 1
  else if q % 2 = 0 then q else q + 1

def ofQuotient (num den : Nat) : Option Binary64 :=
  if num = 0 then some zero
  else
    let scale (e : Int) : Nat × Nat := (num <<< (-e).toNat, den <<< e.toNat)
    let guess : Int := (num.log2 : Int) - den.log2 - 52
    let (n, d) := scale guess
    let exact := if d <<< 52 ≤ n then guess else guess - 1
    let e := if exact < -1074 then -1074 else exact
    let (n, d) := scale e
    let m := roundQuotient n d
    let (m, e) := if m = 1 <<< 53 then (1 <<< 52, e + 1) else (m, e)
    if 971 < e then none else some ⟨m, e⟩

def ofNat? (n : Nat) : Option Binary64 := ofQuotient n 1

def mul (x y : Binary64) : Option Binary64 :=
  let e := x.exponent + y.exponent
  ofQuotient ((x.mantissa * y.mantissa) <<< e.toNat) (1 <<< (-e).toNat)

def div (x y : Binary64) : Option Binary64 :=
  let e := x.exponent - y.exponent
  ofQuotient (x.mantissa <<< e.toNat) (y.mantissa <<< (-e).toNat)

-- A significand scaled by a power of ten: the significand is rounded, and then
-- multiplied or divided by the rounded power, so the last bit may be off. Powers
-- past the 308th are taken 308 at a time where the number gets smaller, and are
-- too large otherwise.
def scaled : Nat → Binary64 → Int → Option Binary64
  | 0, _, _ => some zero
  | fuel + 1, x, exponent =>
    if exponent.natAbs ≤ 308 then
      (ofNat? (Nat.pow 10 exponent.natAbs)).bind fun power =>
        if 0 ≤ exponent then x.mul power else x.div power
    else if x.isZero then some zero
    else if 0 ≤ exponent then none
    else
      (ofNat? (Nat.pow 10 308)).bind fun power =>
        (x.div power).bind fun smaller => scaled fuel smaller (exponent + 308)

def ofParts (significand : Nat) (exponent : Int) : Option Binary64 :=
  (ofNat? significand).bind fun x => scaled 4 x exponent

end Binary64

end UnitPipeline
