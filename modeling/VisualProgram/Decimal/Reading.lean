/-!
# Reading numbers from text

* `natural?`, `integer?`  whole numbers of 64 bits, with an optional sign and any leading zeros;
* `Numeral`               the parts of a decimal: sign, digits before and after the point, exponent;
* `float?`                the nearest float, and the words for infinity and for no number.
-/

namespace VisualProgram.Decimal

/-! ## whole numbers -/

/-- one digit or more, and nothing else -/
def digits? (cs : List Char) : Option Nat :=
  if cs ≠ [] ∧ cs.all Char.isDigit then some (Nat.ofDigitChars 10 cs 0) else none

/-- a natural number below `2 ^ 64`, a plus sign allowed -/
def natural? (cs : List Char) : Option Nat :=
  let body := match cs with
    | '+' :: rest => rest
    | _ => cs
  (digits? body).filter (· < 0x10000000000000000)

/-- an integer between `-2 ^ 63` and `2 ^ 63 - 1`, a sign allowed -/
def integer? (cs : List Char) : Option Int :=
  match cs with
  | '-' :: rest => ((digits? rest).filter (· ≤ 0x8000000000000000)).map fun n : Nat => -(n : Int)
  | '+' :: rest => ((digits? rest).filter (· < 0x8000000000000000)).map Int.ofNat
  | _ => ((digits? cs).filter (· < 0x8000000000000000)).map Int.ofNat

/-! ## decimals -/

inductive Sign where
  | absent
  | plus
  | minus
deriving DecidableEq, Repr

/-- a decimal as it is spelled; `fraction` is there if a point is, `exponent` if its mark is -/
structure Numeral where
  sign : Sign
  whole : List Char
  fraction : Option (List Char)
  exponent : Option Int
deriving DecidableEq, Repr

def splitSign : List Char → Sign × List Char
  | '-' :: rest => (.minus, rest)
  | '+' :: rest => (.plus, rest)
  | cs => (.absent, cs)

/-- the exponent and the sign before it -/
def exponent? (cs : List Char) : Option Int :=
  match splitSign cs with
  | (.minus, rest) => (digits? rest).map fun n : Nat => -(n : Int)
  | (_, rest) => (digits? rest).map Int.ofNat

/-- the digits after a point, if the text starts with one, and the rest -/
def splitFraction : List Char → Option (List Char) × List Char
  | '.' :: rest => (some (rest.takeWhile Char.isDigit), rest.dropWhile Char.isDigit)
  | cs => (none, cs)

/-- the parts of a decimal; the digits may be missing on either side of the point -/
def Numeral.scan? (cs : List Char) : Option Numeral :=
  let (sign, unsigned) := splitSign cs
  let whole := unsigned.takeWhile Char.isDigit
  let (fraction, tail) := splitFraction (unsigned.dropWhile Char.isDigit)
  match tail with
  | [] => some ⟨sign, whole, fraction, none⟩
  | mark :: rest =>
    if mark = 'e' ∨ mark = 'E' then
      (exponent? rest).map fun e => ⟨sign, whole, fraction, some e⟩
    else none

/-- the nearest float, infinite beyond the range -/
def Numeral.toFloat (n : Numeral) : Float :=
  let fraction := n.fraction.getD []
  let exponent := n.exponent.getD 0 - fraction.length
  let size := Float.ofScientific (Nat.ofDigitChars 10 (n.whole ++ fraction) 0)
    (exponent < 0) exponent.natAbs
  if n.sign = .minus then -size else size

/-- the words for the values that have no digits, in any case -/
def special? (cs : List Char) : Option Float :=
  let word := String.ofList (cs.map Char.toLower)
  if word = "inf" ∨ word = "infinity" then some (1.0 / 0.0)
  else if word = "nan" then some (0.0 / 0.0)
  else none

/-- the float a text denotes, if it denotes one -/
def float? (cs : List Char) : Option Float :=
  let (sign, unsigned) := splitSign cs
  match special? unsigned with
  | some x => some (if sign = .minus then -x else x)
  | none =>
    (Numeral.scan? cs).bind fun n =>
      if n.whole ++ n.fraction.getD [] = [] then none else some n.toFloat

end VisualProgram.Decimal
