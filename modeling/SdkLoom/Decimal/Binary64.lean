import SdkLoom.Decimal.Power

/-!
# Double precision numbers

A `Binary64` is a binary floating point number with 53 significant bits, given by its exact value. Every operation
computes the exact quotient of two natural numbers and rounds it once, to nearest with ties to even (`Binary64.ofRatio`).
-/

namespace SdkLoom

/-- A binary number with 53 significant bits: `± mantissa · 2^exponent`, an infinity, or no number. -/
inductive Binary64 where
  | finite (negative : Bool) (mantissa : Nat) (exponent : Int)
  | infinite (negative : Bool)
  | nan
  deriving DecidableEq, Repr, Inhabited

namespace Binary64

/-- The least exponent, that of the subnormal numbers. -/
def minExponent : Int := -1074

/-- The greatest exponent of a finite number. -/
def maxExponent : Int := 971

/-- Zero with a sign. -/
def zero (negative : Bool) : Binary64 := .finite negative 0 minExponent

/-- Packs a rounded mantissa, which is at most `2^53`, with its exponent. -/
def pack (negative : Bool) (mantissa : Nat) (exponent : Int) : Binary64 :=
  let (m, e) := if mantissa = pow2 53 then (pow2 52, exponent + 1) else (mantissa, exponent)
  if e > maxExponent then .infinite negative else .finite negative m e

/-- The quotient rounded to the nearest natural number, a tie to the even one. -/
def roundDiv (num den : Nat) : Nat :=
  let q := num / den
  let r := num % den
  if 2 * r < den then q
  else if 2 * r > den then q + 1
  else if q % 2 = 0 then q else q + 1

/-- The exponent that gives `num / den` a mantissa of 53 bits, or the least exponent if that is greater. -/
def exponentOf (num den : Nat) : Int :=
  let guess : Int := (num.log2 : Int) - (den.log2 : Int) - 52
  let large : Bool :=
    if guess ≥ 0 then num ≥ pow2 52 * (den * pow2 guess.toNat) else num * pow2 (-guess).toNat ≥ pow2 52 * den
  max (if large then guess else guess - 1) minExponent

/-- The number nearest to `± num / den`. -/
def ofRatio (negative : Bool) (num den : Nat) : Binary64 :=
  if num = 0 then zero negative
  else
    let e := exponentOf num den
    let m := if e ≥ 0 then roundDiv num (den * pow2 e.toNat) else roundDiv (num * pow2 (-e).toNat) den
    pack negative m e

/-- The number nearest to a natural number. -/
def ofNat (n : Nat) : Binary64 := ofRatio false n 1

/-- The number nearest to an integer. -/
def ofInt (i : Int) : Binary64 := ofRatio (i < 0) i.natAbs 1

/-- The number nearest to `± significand · 10^exponent`. -/
def ofDecimal (negative : Bool) (significand : Nat) (exponent : Int) : Binary64 :=
  if significand = 0 then zero negative
  -- beyond these exponents every significand of the digits at hand overflows or vanishes
  else if exponent > 400 then .infinite negative
  else if exponent < -((Nat.toDigits 10 significand).length + 400 : Int) then zero negative
  else if exponent ≥ 0 then ofRatio negative (significand * pow10 exponent.toNat) 1
  else ofRatio negative significand (pow10 (-exponent).toNat)

/-- The absolute value of a finite number as a quotient. -/
def ratio (mantissa : Nat) (exponent : Int) : Nat × Nat :=
  if exponent ≥ 0 then (mantissa * pow2 exponent.toNat, 1) else (mantissa, pow2 (-exponent).toNat)

/-- The same number with the opposite sign. -/
def neg : Binary64 → Binary64
  | .finite s m e => .finite (!s) m e
  | .infinite s => .infinite (!s)
  | .nan => .nan

/-- The rounded product of a finite number and another. -/
def mul : Binary64 → Binary64 → Binary64
  | .finite s m e, .finite t n f =>
    let (a, b) := ratio m e
    let (c, d) := ratio n f
    ofRatio (s != t) (a * c) (b * d)
  | .finite s _ _, .infinite t => .infinite (s != t)
  | .infinite s, .finite t _ _ => .infinite (s != t)
  | .infinite s, .infinite t => .infinite (s != t)
  | _, _ => .nan

/-- The rounded quotient of a finite number by a finite number that is not zero. -/
def div : Binary64 → Binary64 → Binary64
  | .finite s m e, .finite t n f =>
    let (a, b) := ratio m e
    let (c, d) := ratio n f
    if c = 0 then .nan else ofRatio (s != t) (a * d) (b * c)
  | _, _ => .nan

/-- Whether the number is zero, of either sign. -/
def isZero : Binary64 → Bool
  | .finite _ m _ => m == 0
  | _ => false

/-- Whether the number is finite. -/
def isFinite : Binary64 → Bool
  | .finite .. => true
  | _ => false

/-- Whether the number has a full mantissa: neither zero nor subnormal nor infinite. -/
def isNormal : Binary64 → Bool
  | .finite _ m _ => m ≥ pow2 52
  | _ => false

/-- The order of two numbers by value; a zero has no sign here, and nothing is ordered with `nan`. -/
def order? : Binary64 → Binary64 → Option Ordering
  | .nan, _ => none
  | _, .nan => none
  | a, b =>
    let key : Binary64 → Int × Nat × Nat
      | .infinite s => (if s then -2 else 2, 0, 1)
      | .finite s m e => (if m == 0 then 0 else if s then -1 else 1, ratio m e)
      | .nan => (0, 0, 1)
    let (s, m, d) := key a
    let (t, n, f) := key b
    if s ≠ t then some (compare s t)
    else if s = 1 then some (compare (m * f) (n * d))
    else if s = -1 then some (compare (n * d) (m * f))
    else some .eq

end Binary64

end SdkLoom
