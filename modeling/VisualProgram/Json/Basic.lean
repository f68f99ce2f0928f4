import VisualProgram.Assoc
import VisualProgram.Decimal.Scaling

/-!
# JSON values

* `Number`  a whole number from `-2 ^ 63` to `2 ^ 64 - 1`, or a finite float: the kind is part of
            the value, so `2` and `2.0` differ;
* `Json`    the values; the members of an object keep their order.
-/

namespace VisualProgram

/-! ## numbers -/

inductive Number where
  | whole (n : Int) (fits : -0x8000000000000000 ≤ n ∧ n < 0x10000000000000000)
  | float (x : Float) (finite : x.isFinite = true)
deriving DecidableEq

namespace Number

theorem fits_zero : -0x8000000000000000 ≤ (0 : Int) ∧ (0 : Int) < 0x10000000000000000 := by decide

def ofInt? (n : Int) : Option Number :=
  if h : -0x8000000000000000 ≤ n ∧ n < 0x10000000000000000 then some (.whole n h) else none

def ofFloat? (x : Float) : Option Number :=
  if h : x.isFinite = true then some (.float x h) else none

/-- the value as a float, rounded if a whole number has too many bits -/
def toFloat : Number → Float
  | .whole n _ => Float.ofInt n
  | .float x _ => x

/-- the number a numeral denotes: whole if it has neither point nor exponent and fits, otherwise the
float it is scaled to; a negative zero is a float, and nothing beyond the range of floats is a
number -/
def ofNumeral? (n : Decimal.Numeral) : Option Number :=
  let size := Nat.ofDigitChars 10 n.whole 0
  if n.fraction = none ∧ n.exponent = none ∧ ¬ (n.sign = .minus ∧ size = 0) then
    match ofInt? (if n.sign = .minus then -(size : Int) else size) with
    | some number => some number
    | none => ofFloat? n.scaled
  else ofFloat? n.scaled

end Number

/-! ## values -/

inductive Json where
  | null
  | bool (b : Bool)
  | number (n : Number)
  | string (s : String)
  | array (items : List Json)
  | object (members : List (String × Json))

namespace Json

instance : Inhabited Json := ⟨.null⟩

/-- a float as a value; what is no number becomes null -/
def ofFloat (x : Float) : Json :=
  match Number.ofFloat? x with
  | some n => .number n
  | none => .null

def ofNat (n : Nat) : Json :=
  match Number.ofInt? n with
  | some n => .number n
  | none => .ofFloat (Float.ofNat n)

def text? : Json → Option String
  | .string s => some s
  | _ => none

def member? (key : String) : Json → Option Json
  | .object members => Assoc.get? key members
  | _ => none

/-! ## equality -/

mutual
/-- equality of values is decided member by member -/
def decEq : (a b : Json) → Decidable (a = b)
  | .null, .null => isTrue rfl
  | .bool a, .bool b => decidable_of_iff (a = b) (by simp)
  | .number a, .number b => decidable_of_iff (a = b) (by simp)
  | .string a, .string b => decidable_of_iff (a = b) (by simp)
  | .array a, .array b =>
    match decEqItems a b with
    | isTrue h => isTrue (by rw [h])
    | isFalse h => isFalse (by simpa using h)
  | .object a, .object b =>
    match decEqMembers a b with
    | isTrue h => isTrue (by rw [h])
    | isFalse h => isFalse (by simpa using h)
  | .null, .bool _ | .null, .number _ | .null, .string _ | .null, .array _ | .null, .object _
  | .bool _, .null | .bool _, .number _ | .bool _, .string _ | .bool _, .array _
  | .bool _, .object _
  | .number _, .null | .number _, .bool _ | .number _, .string _ | .number _, .array _
  | .number _, .object _
  | .string _, .null | .string _, .bool _ | .string _, .number _ | .string _, .array _
  | .string _, .object _
  | .array _, .null | .array _, .bool _ | .array _, .number _ | .array _, .string _
  | .array _, .object _
  | .object _, .null | .object _, .bool _ | .object _, .number _ | .object _, .string _
  | .object _, .array _ => isFalse (by simp)

def decEqItems : (a b : List Json) → Decidable (a = b)
  | [], [] => isTrue rfl
  | x :: xs, y :: ys =>
    match decEq x y, decEqItems xs ys with
    | isTrue h, isTrue t => isTrue (by rw [h, t])
    | isFalse h, _ => isFalse (by simp [h])
    | _, isFalse t => isFalse (by simp [t])
  | [], _ :: _ | _ :: _, [] => isFalse (by simp)

def decEqMembers : (a b : List (String × Json)) → Decidable (a = b)
  | [], [] => isTrue rfl
  | (k, x) :: xs, (l, y) :: ys =>
    match decEq x y, decEqMembers xs ys with
    | isTrue h, isTrue t => decidable_of_iff (k = l) (by simp [h, t])
    | isFalse h, _ => isFalse (by simp [h])
    | _, isFalse t => isFalse (by simp [t])
  | [], _ :: _ | _ :: _, [] => isFalse (by simp)
end

instance : DecidableEq Json := decEq

end Json

end VisualProgram
