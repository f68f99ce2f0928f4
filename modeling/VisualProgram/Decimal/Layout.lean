import VisualProgram.Decimal.Shortest

/-!
# Laying a float out as text

A `Layout` holds the decisions that differ between one format of numbers and another: how far the
positional form reaches, how an exponent is written, and what stands for the values that are no
numbers.  `Layout.write` is one function for all of them.
-/

namespace VisualProgram.Decimal

structure Layout where
  /-- exponents of the leading digit from `least` on, and below `bound`, are written positionally -/
  least : Int
  bound : Int
  /-- the sign in front of an exponent that is not negative -/
  plus : String
  tie : Tie
  nan : String
  infinity : String
  negativeInfinity : String

def zeros (n : Nat) : List Char := List.replicate n '0'

/-- the positional form: digits on both sides of the point, at least one on each -/
def Digits.positional (d : Digits) : List Char :=
  if d.point ≤ 0 then '0' :: '.' :: (zeros (-d.point).toNat ++ d.digits)
  else if (d.digits.length : Int) ≤ d.point then
    d.digits ++ zeros (d.point - d.digits.length).toNat ++ ['.', '0']
  else d.digits.take d.point.toNat ++ '.' :: d.digits.drop d.point.toNat

/-- one digit before the point, and no point if there are no more -/
def Digits.significand (d : Digits) : List Char :=
  match d.digits with
  | [] => []
  | [c] => [c]
  | c :: rest => c :: '.' :: rest

def exponentText (plus : String) (e : Int) : String :=
  if e < 0 then "-" ++ toString e.natAbs else plus ++ toString e.natAbs

def Layout.writeDigits (layout : Layout) (d : Digits) : String :=
  if layout.least ≤ d.point - 1 ∧ d.point - 1 < layout.bound then String.ofList d.positional
  else String.ofList d.significand ++ "e" ++ exponentText layout.plus (d.point - 1)

/-- the text of a float; a zero keeps its sign -/
def Layout.write (layout : Layout) (x : Float) : String :=
  let sign := if signBit x.toBits then "-" else ""
  if x.isNaN then layout.nan
  else if x.isInf then (if signBit x.toBits then layout.negativeInfinity else layout.infinity)
  else if x.toBits.toNat % 0x8000000000000000 = 0 then sign ++ "0.0"
  else sign ++ layout.writeDigits (shortest layout.tie x)

end VisualProgram.Decimal
