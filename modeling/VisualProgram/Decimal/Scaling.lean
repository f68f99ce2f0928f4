import VisualProgram.Decimal.Reading

/-!
# Floats by scaling

A decimal can be read with float operations alone.  The digits in front, as many as fit into 64
bits, make a whole number (`Mantissa`); the float nearest to it is multiplied or divided by the
float nearest to a power of ten.

Digits below `2 ^ 53` and powers up to `10 ^ 22` are floats themselves, so for them one rounding
remains and the result is the nearest float.  Beyond that it may miss the nearest one in the last
place, which `Numeral.toFloat` never does: the two readers are different functions.
-/

namespace VisualProgram.Decimal

/-! ## the digits that fit -/

/-- a whole number of 64 bits and the power of ten to scale it by -/
structure Mantissa where
  digits : Nat
  power : Int
deriving DecidableEq, Repr

/-- a number with further digits appended as long as it fits, and the digits that are left -/
def fill : Nat → List Char → Nat × List Char
  | m, [] => (m, [])
  | m, c :: cs =>
    if 10 * m + (c.toNat - '0'.toNat) < 0x10000000000000000 then
      fill (10 * m + (c.toNat - '0'.toNat)) cs
    else (m, c :: cs)

/-- a digit before the point that does not fit still counts as a place; one after it that does not
fit is left out -/
def Numeral.mantissa (n : Numeral) : Mantissa :=
  let fraction := n.fraction.getD []
  let whole := fill 0 n.whole
  let both := fill whole.1 fraction
  { digits := both.1
    power := n.exponent.getD 0 + whole.2.length - (fraction.length - both.2.length) }

/-! ## scaling -/

def powerOfTen (n : Nat) : Float := Float.ofScientific 1 false n

/-- the greatest power of ten that is a finite float -/
def greatestPower : Nat := 308

/-- a positive number beyond the range becomes infinite -/
def scaleUp (x : Float) (n : Nat) : Float :=
  if n ≤ greatestPower then x * powerOfTen n else 1.0 / 0.0

/-- a power that is no float is divided by in two steps, which leave nothing of a number of 64 bits
if they do not suffice -/
def scaleDown (x : Float) (n : Nat) : Float :=
  if n ≤ greatestPower then x / powerOfTen n
  else if n ≤ 2 * greatestPower then x / powerOfTen greatestPower / powerOfTen (n - greatestPower)
  else 0

def Mantissa.toFloat (m : Mantissa) : Float :=
  if m.digits = 0 then 0
  else
    match m.power with
    | .ofNat n => scaleUp (Float.ofNat m.digits) n
    | .negSucc n => scaleDown (Float.ofNat m.digits) (n + 1)

/-- the float a decimal is scaled to, infinite beyond the range -/
def Numeral.scaled (n : Numeral) : Float :=
  let size := n.mantissa.toFloat
  if n.sign = .minus then -size else size

end VisualProgram.Decimal
