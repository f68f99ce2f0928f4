/-!
# The fewest decimal digits that read back as a float

A finite float other than zero is `mantissa * 2 ^ exponent`.  The reals that round to it form an
interval around it, whose ends belong to it exactly if the mantissa is even (`Span`).  On the grid
of decimals with `n` significant digits the float lies between two neighbours, and if any point of
the grid lies in the interval then one of these two does; so `shortest` tries `n = 1, 2, …, 17` and
takes the first grid with a hit.  Of two hits the nearer one is taken, and `Tie` decides between two
that are equally near.

All of it is exact arithmetic on natural numbers.
-/

namespace VisualProgram.Decimal

/-- which of two equally near decimals is taken -/
inductive Tie where
  | up
  | even
deriving DecidableEq, Repr

/-- a decimal `digits * 10 ^ exponent` -/
structure Scaled where
  digits : Nat
  exponent : Int
deriving DecidableEq, Repr

/-! ## the interval of a float -/

/-- a positive number `value / unit` and the interval from `low / unit` to `high / unit` of the reals
that round to it, with its ends if `closed` -/
structure Span where
  low : Nat
  value : Nat
  high : Nat
  unit : Nat
  closed : Bool
deriving DecidableEq, Repr

def signBit (bits : UInt64) : Bool := 0x8000000000000000 ≤ bits.toNat

/-- the interval of the float with these bits, the sign left aside; the gap below a power of two is
half the gap above it -/
def Span.ofBits (bits : UInt64) : Span :=
  -- 52 bits of fraction, above them 11 of the exponent
  let fraction := bits.toNat % 0x10000000000000
  let biased := bits.toNat / 0x10000000000000 % 0x800
  let mantissa := if biased = 0 then fraction else fraction + 0x10000000000000
  let exponent : Int := if biased = 0 then -1074 else Int.ofNat biased - 1075
  let low := if fraction = 0 ∧ 1 < biased then 4 * mantissa - 1 else 4 * mantissa - 2
  let scale := Nat.pow 2 (exponent - 2).toNat
  { low := low * scale
    value := 4 * mantissa * scale
    high := (4 * mantissa + 2) * scale
    unit := Nat.pow 2 (2 - exponent).toNat
    closed := mantissa % 2 = 0 }

/-- the number of decimal digits, none for zero -/
def digitCount (n : Nat) : Nat := if n = 0 then 0 else (Nat.toDigits 10 n).length

/-- the exponent of the leading decimal digit -/
def Span.magnitude (s : Span) : Int :=
  if s.unit ≤ s.value then (digitCount (s.value / s.unit) : Int) - 1
  else - (digitCount ((s.unit - 1) / s.value) : Int)

/-! ## one grid -/

/-- whether `digits * step` lies in the interval, whose numbers are scaled up by `scale` -/
def Span.admits (s : Span) (scale step digits : Nat) : Bool :=
  if s.closed then s.low * scale ≤ digits * step ∧ digits * step ≤ s.high * scale
  else s.low * scale < digits * step ∧ digits * step < s.high * scale

/-- of two neighbours on a grid the nearer one, `rest` above the lower -/
def Tie.pick (tie : Tie) (below rest step : Nat) : Nat :=
  if 2 * rest < step then below
  else if step < 2 * rest then below + 1
  else match tie with
    | .up => below + 1
    | .even => if below % 2 = 0 then below else below + 1

/-- the point of the grid `10 ^ exponent` that stands for the float, if one reads back as it -/
def Span.onGrid? (s : Span) (tie : Tie) (exponent : Int) : Option Scaled :=
  let scale := Nat.pow 10 (-exponent).toNat
  let step := s.unit * Nat.pow 10 exponent.toNat
  let below := s.value * scale / step
  let rest := s.value * scale % step
  match s.admits scale step below, s.admits scale step (below + 1) with
  | true, true => some ⟨tie.pick below rest step, exponent⟩
  | true, false => some ⟨below, exponent⟩
  | false, true => some ⟨below + 1, exponent⟩
  | false, false => none

/-- seventeen digits tell any two floats apart, so the search does not come up empty -/
def Span.shortest (s : Span) (tie : Tie) : Scaled :=
  ((List.range 17).findSome? fun n => s.onGrid? tie (s.magnitude - Int.ofNat n)).getD ⟨0, 0⟩

/-! ## digits and point -/

/-- a number written `0.d₁d₂… * 10 ^ point`, the last digit not zero -/
structure Digits where
  digits : List Char
  point : Int
deriving DecidableEq, Repr

def Scaled.toDigits (d : Scaled) : Digits :=
  let all := Nat.toDigits 10 d.digits
  { digits := (all.reverse.dropWhile (· = '0')).reverse
    point := all.length + d.exponent }

/-- the shortest digits of a finite float other than zero, the sign left aside -/
def shortest (tie : Tie) (x : Float) : Digits := ((Span.ofBits x.toBits).shortest tie).toDigits

end VisualProgram.Decimal
