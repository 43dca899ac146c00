import SdkLoom.Decimal.Power
import SdkLoom.Decimal.Shortest
import SdkLoom.Json.Basic

/-!
# JSON numbers as text

Reading a number literal and writing a number. An integer literal of 64 bits is read exactly. Any other literal is read
by a significand of 64 bits, from which the digits that no longer fit are left out, and one rounded multiplication or
division by a power of ten.
-/

namespace SdkLoom.Json

/-- The greatest significand. -/
def maxSignificand : Nat := pow2 64 - 1

/-- The greatest exponent that is read. -/
def maxExponent : Nat := pow2 31 - 1

/-- A number literal by its parts. -/
structure Literal where
  negative : Bool
  whole : List Char
  fraction : List Char
  /-- Whether a fraction or an exponent is written, so that the literal is no integer. -/
  broken : Bool
  exponentNegative : Bool
  exponent : List Char

namespace Literal

/-- The sign and digits of an exponent. -/
def readExponent : List Char → Option (Bool × List Char)
  | [] => some (false, [])
  | c :: rest =>
    if c = 'e' ∨ c = 'E' then
      let (negative, ds) := match rest with
        | '-' :: ds => (true, ds)
        | '+' :: ds => (false, ds)
        | ds => (false, ds)
      if ds.isEmpty || !ds.all Char.isDigit then none else some (negative, ds)
    else none

/-- The parts of a literal: no leading zeros, and digits on both sides of a point. -/
def read (cs : List Char) : Option Literal :=
  let (negative, cs) := match cs with
    | '-' :: rest => (true, rest)
    | cs => (false, cs)
  let whole := cs.takeWhile Char.isDigit
  let cs := cs.dropWhile Char.isDigit
  if whole.isEmpty || (whole.head? == some '0' && whole.length > 1) then none
  else
    let (pointed, fraction, cs) := match cs with
      | '.' :: rest => (true, rest.takeWhile Char.isDigit, rest.dropWhile Char.isDigit)
      | cs => (false, [], cs)
    if pointed && fraction.isEmpty then none
    else
      (readExponent cs).map fun (exponentNegative, exponent) =>
        { negative, whole, fraction, broken := pointed || !cs.isEmpty, exponentNegative, exponent }

/-- The value of a digit. -/
def digit (c : Char) : Nat := c.toNat - '0'.toNat

/-- The significand of the leading digits that fit, and the number of digits left out after them. -/
def gather : Nat → List Char → Nat × Nat
  | s, [] => (s, 0)
  | s, c :: rest =>
    if s * 10 + digit c > maxSignificand then (s, rest.length + 1) else gather (s * 10 + digit c) rest

/-- The significand after the digits of a fraction that fit, and how many did. -/
def gatherFraction : Nat → List Char → Nat × Nat
  | s, [] => (s, 0)
  | s, c :: rest =>
    if s * 10 + digit c > maxSignificand then (s, 0)
    else
      let (t, n) := gatherFraction (s * 10 + digit c) rest
      (t, n + 1)

/-- The value of exponent digits, unless it is beyond the greatest exponent. -/
def readPower : Nat → List Char → Option Nat
  | e, [] => some e
  | e, c :: rest => if e * 10 + digit c > maxExponent then none else readPower (e * 10 + digit c) rest

/-- The greatest power of ten of double precision. -/
def maxPower : Nat := 308

/-- A power of ten. -/
def power (n : Nat) : Binary64 := .ofNat (pow10 n)

/-- Divides by a power of ten in steps of the greatest one. -/
def scaleDown : Nat → Binary64 → Nat → Binary64
  | 0, x, _ => x
  | fuel + 1, x, n =>
    if n ≤ maxPower then x.div (power n)
    else if x.isZero then x
    else scaleDown fuel (x.div (power maxPower)) (n - maxPower)

/-- The number `significand · 10^exponent`, rounded twice. -/
def scale (significand : Nat) (exponent : Int) : Except Fault Binary64 :=
  let x := Binary64.ofNat significand
  if exponent < 0 then .ok (scaleDown 8 x (-exponent).toNat)
  else if exponent ≤ maxPower then
    let y := x.mul (power exponent.toNat)
    if y.isFinite then .ok y else .error .outOfRange
  else if x.isZero then .ok x
  else .error .outOfRange

/-- A double precision number with the sign of a literal. -/
def signed (l : Literal) (x : Binary64) : Number := .float (if l.negative then x.neg else x)

/-- The number that a literal stands for. -/
def number (l : Literal) : Except Fault Number :=
  let (s, left) := gather 0 l.whole
  if !l.broken && left == 0 then
    if !l.negative then .ok (.int s)
    else if 0 < s ∧ s ≤ pow2 63 then .ok (.int (-s))
    else .ok (l.signed (.ofNat s))
  else
    let (s, n) := gatherFraction s l.fraction
    let start : Int := (left : Int) - n
    match readPower 0 l.exponent with
    | some e => (scale s (if l.exponentNegative then start - e else start + e)).map l.signed
    | none =>
      if s ≠ 0 ∧ !l.exponentNegative then .error .outOfRange else .ok (l.signed (.ofNat 0))

end Literal

/-- Numbers have a decimal point, and an exponent below `10^-5` and from `10^16` on. -/
def numberLayout : Decimal.Layout := { wholeTail := ".0", positionalPoints := some (-4, 16) }

/-- The text of a number. -/
def Number.text : Number → String
  | .int i => toString i
  | .float x => numberLayout.text x

end SdkLoom.Json
