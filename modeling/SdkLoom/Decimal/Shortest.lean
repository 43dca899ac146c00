import SdkLoom.Decimal.Binary64
import SdkLoom.Decimal.Power

/-!
# Shortest decimal digits

The fewest decimal digits that round to a given double precision number, and the two ways in which they are laid out:
always positional, or positional in a middle range and with an exponent outside of it.
-/

namespace SdkLoom.Decimal

/-- Decimal digits `d₁d₂…dₙ` standing for `0.d₁d₂…dₙ · 10^point`. -/
structure Digits where
  digits : List Char
  point : Int
  deriving Repr, DecidableEq

/-- The interval of reals that round to a number, as quotients over one denominator, with the number itself. -/
structure Interval where
  low : Nat
  value : Nat
  high : Nat
  den : Nat
  closed : Bool

/-- The rounding interval of `mantissa · 2^exponent`; below a power of two the gap is half as wide. -/
def Interval.of (mantissa : Nat) (exponent : Int) : Interval :=
  let narrow := mantissa = pow2 52 ∧ exponent > Binary64.minExponent
  let e := exponent - 2
  let scale := if e ≥ 0 then pow2 e.toNat else 1
  let den := if e ≥ 0 then 1 else pow2 (-e).toNat
  { low := (4 * mantissa - (if narrow then 1 else 2)) * scale
    value := 4 * mantissa * scale
    high := (4 * mantissa + 2) * scale
    den
    closed := mantissa % 2 = 0 }

/-- Whether `c · num / div` lies in the interval. -/
def Interval.holds (iv : Interval) (c num div : Nat) : Bool :=
  let x := c * num * iv.den
  let lo := iv.low * div
  let hi := iv.high * div
  if iv.closed then lo ≤ x && x ≤ hi else lo < x && x < hi

/-- The least `point` with `value < 10^point`, searched upwards from a lower bound. -/
def pointFrom (num den : Nat) : Nat → Int → Int
  | 0, p => p
  | fuel + 1, p =>
    let below := if p ≥ 0 then num < den * pow10 p.toNat else num * pow10 (-p).toNat < den
    if below then p else pointFrom num den fuel (p + 1)

/-- The number of digits before the point: `10^(point - 1) ≤ num / den < 10^point`. -/
def pointOf (num den : Nat) : Int :=
  -- 30103 / 100000 is a little more than log₁₀ 2, so the bound is below for numbers above one and close for others
  let bits : Int := (num.log2 : Int) - (den.log2 : Int)
  let guess : Int := (bits * 30103) / 100000 - 2
  pointFrom num den 8 guess

/-- A decimal of `n` digits in the interval that is nearest to its value, as an integer of `n` digits. -/
def candidate (iv : Interval) (point : Int) (n : Nat) : Option Nat :=
  let e := point - n
  -- the grid has step `num / div`
  let num := if e ≥ 0 then pow10 e.toNat else 1
  let div := if e ≥ 0 then 1 else pow10 (-e).toNat
  let c := iv.value * div / (iv.den * num)
  let rest := iv.value * div % (iv.den * num)
  let below := iv.holds c num div
  let above := iv.holds (c + 1) num div
  if below && above then
    let twice := 2 * rest
    if twice < iv.den * num then some c
    else if twice > iv.den * num then some (c + 1)
    else some (if c % 2 = 0 then c else c + 1)
  else if below then some c
  else if above then some (c + 1)
  else none

/-- Searches the grids of `n`, `n + 1`, … digits for the first with a point in the interval. -/
def search (iv : Interval) (point : Int) : Nat → Nat → Nat × Nat
  | 0, n => (iv.value, n)
  | fuel + 1, n =>
    match candidate iv point n with
    | some c => (c, n)
    | none => search iv point fuel (n + 1)

/-- The fewest digits that round to `mantissa · 2^exponent`, which is not zero. -/
def shortest (mantissa : Nat) (exponent : Int) : Digits :=
  let iv := Interval.of mantissa exponent
  let point := pointOf iv.value iv.den
  let (c, n) := search iv point 17 1
  let ds := Nat.toDigits 10 c
  -- a candidate rounded up to the next power of ten has one digit more
  let point := point + ((ds.length : Int) - n)
  { digits := (ds.reverse.dropWhile (· == '0')).reverse, point }

/-! ## Layout -/

/-- Zeros. -/
def zeros (n : Nat) : List Char := List.replicate n '0'

/-- Digits written with a decimal point and no exponent; `tail` is written after a whole number. -/
def positional (d : Digits) (tail : String) : String :=
  let n := d.digits.length
  if d.point ≤ 0 then String.ofList ('0' :: '.' :: zeros (-d.point).toNat ++ d.digits)
  else if d.point ≥ n then String.ofList (d.digits ++ zeros (d.point.toNat - n)) ++ tail
  else String.ofList (d.digits.take d.point.toNat ++ '.' :: d.digits.drop d.point.toNat)

/-- Digits written as one digit, the others after a point, and an exponent with its sign. -/
def scientific (d : Digits) : String :=
  let e := d.point - 1
  let head := d.digits.take 1
  let rest := d.digits.drop 1
  let mantissa := if rest.isEmpty then head else head ++ '.' :: rest
  String.ofList mantissa ++ (if e < 0 then "e-" else "e+") ++ toString e.natAbs

/-- How numbers are laid out. -/
structure Layout where
  /-- The text after a whole number. -/
  wholeTail : String
  /-- The points for which the positional form is used; none bounds it if absent. -/
  positionalPoints : Option (Int × Int)

/-- The text of a number in a layout. -/
def Layout.text (l : Layout) : Binary64 → String
  | .nan => "NaN"
  | .infinite s => if s then "-inf" else "inf"
  | .finite s m e =>
    let sign := if s then "-" else ""
    if m = 0 then sign ++ "0" ++ l.wholeTail
    else
      let d := shortest m e
      let plain := match l.positionalPoints with
        | none => true
        | some (lo, hi) => lo ≤ d.point && d.point ≤ hi
      sign ++ (if plain then positional d l.wholeTail else scientific d)

end SdkLoom.Decimal
