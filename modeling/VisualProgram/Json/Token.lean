import VisualProgram.Json.Basic

/-!
# Tokens of JSON text

A text is scanned character by character (`Scanner.step`); between tokens blanks are skipped, and a
word or a number ends at the first character that cannot extend it.

A number beyond the range of floats and a string with an unpaired surrogate are well spelled but
have no value: their tokens carry `none`.
-/

namespace VisualProgram.Json

inductive Token where
  | openArray
  | closeArray
  | openObject
  | closeObject
  | comma
  | colon
  | null
  | bool (b : Bool)
  | number (n : Option Number)
  | string (s : Option String)
deriving DecidableEq

/-! ## strings -/

/-- what one character or escape of a string stands for -/
inductive CodeUnit where
  | scalar (c : Char)
  | surrogate (n : Nat)
deriving DecidableEq

/-- a code point by number; the two halves of a pair are written as two numbers -/
def CodeUnit.ofNat (n : Nat) : CodeUnit :=
  if 0xd800 ≤ n ∧ n < 0xe000 then .surrogate n else .scalar (Char.ofNat n)

def isHigh (n : Nat) : Bool := 0xd800 ≤ n && n < 0xdc00
def isLow (n : Nat) : Bool := 0xdc00 ≤ n && n < 0xe000

def pairUp (high low : Nat) : Char :=
  Char.ofNat (0x10000 + (high - 0xd800) * 0x400 + (low - 0xdc00))

/-- the characters of a string from its units, the last unit first: each low surrogate must have a
high one right before it, and each high one a low one after it -/
def settle : List CodeUnit → List Char → Option (List Char)
  | [], done => some done
  | .scalar c :: rest, done => settle rest (c :: done)
  | .surrogate low :: .surrogate high :: rest, done =>
    if isHigh high && isLow low then settle rest (pairUp high low :: done) else none
  | .surrogate _ :: _, _ => none

/-- the character a one-letter escape stands for -/
def escaped? : Char → Option Char
  | '"' => some '"'
  | '\\' => some '\\'
  | '/' => some '/'
  | 'b' => some '\x08'
  | 'f' => some '\x0c'
  | 'n' => some '\n'
  | 'r' => some '\r'
  | 't' => some '\t'
  | _ => none

def hexDigit? (c : Char) : Option Nat :=
  if '0' ≤ c ∧ c ≤ '9' then some (c.toNat - '0'.toNat)
  else if 'a' ≤ c ∧ c ≤ 'f' then some (c.toNat - 'a'.toNat + 10)
  else if 'A' ≤ c ∧ c ≤ 'F' then some (c.toNat - 'A'.toNat + 10)
  else none

/-! ## numbers and words -/

/-- the numerals of JSON: no plus sign, no needless leading zero, a digit on each side of a point -/
def numeral? (cs : List Char) : Option Decimal.Numeral :=
  (Decimal.Numeral.scan? cs).filter fun n =>
    n.sign != .plus && n.whole != [] && (n.whole.head? != some '0' || n.whole.length == 1)
      && n.fraction != some []

def extendsNumeral (c : Char) : Bool :=
  c.isDigit || c == '-' || c == '+' || c == '.' || c == 'e' || c == 'E'

def word? (cs : List Char) : Option Token :=
  match String.ofList cs with
  | "null" => some .null
  | "true" => some (.bool true)
  | "false" => some (.bool false)
  | _ => none

/-! ## the scanner -/

/-- where the scanner stands; what was seen of a token is kept last character first -/
inductive Mode where
  | between
  | word (seen : List Char)
  | numeral (seen : List Char)
  | text (seen : List CodeUnit)
  | escape (seen : List CodeUnit)
  | hex (seen : List CodeUnit) (count value : Nat)

/-- the tokens found so far, the last one first, and the mode -/
structure Scanner where
  tokens : List Token
  mode : Mode

def Scanner.push (s : Scanner) (t : Token) : Scanner := ⟨t :: s.tokens, .between⟩

/-- a character between two tokens -/
def Scanner.start (s : Scanner) (c : Char) : Option Scanner :=
  match c with
  | ' ' | '\t' | '\n' | '\r' => some s
  | '[' => some (s.push .openArray)
  | ']' => some (s.push .closeArray)
  | '\x7b' => some (s.push .openObject)
  | '\x7d' => some (s.push .closeObject)
  | ',' => some (s.push .comma)
  | ':' => some (s.push .colon)
  | '"' => some ⟨s.tokens, .text []⟩
  | _ =>
    if c.isDigit || c == '-' then some ⟨s.tokens, .numeral [c]⟩
    else if c.isLower then some ⟨s.tokens, .word [c]⟩
    else none

/-- ends the word or number that is being read -/
def Scanner.close (s : Scanner) : Option Scanner :=
  match s.mode with
  | .between => some s
  | .word seen => (word? seen.reverse).map s.push
  | .numeral seen => (numeral? seen.reverse).map fun n => s.push (.number (Number.ofNumeral? n))
  | _ => none

def Scanner.step (s : Scanner) (c : Char) : Option Scanner :=
  match s.mode with
  | .between => s.start c
  | .word seen =>
    if c.isLower then some ⟨s.tokens, .word (c :: seen)⟩ else s.close.bind (·.start c)
  | .numeral seen =>
    if extendsNumeral c then some ⟨s.tokens, .numeral (c :: seen)⟩ else s.close.bind (·.start c)
  | .text seen =>
    if c = '"' then some (s.push (.string ((settle seen []).map String.ofList)))
    else if c = '\\' then some ⟨s.tokens, .escape seen⟩
    else if c.toNat < 0x20 then none
    else some ⟨s.tokens, .text (.scalar c :: seen)⟩
  | .escape seen =>
    if c = 'u' then some ⟨s.tokens, .hex seen 0 0⟩
    else (escaped? c).map fun d => ⟨s.tokens, .text (.scalar d :: seen)⟩
  | .hex seen count value =>
    (hexDigit? c).map fun d =>
      if count = 3 then ⟨s.tokens, .text (CodeUnit.ofNat (value * 16 + d) :: seen)⟩
      else ⟨s.tokens, .hex seen (count + 1) (value * 16 + d)⟩

/-- the tokens of a text, if all of it is well spelled -/
def scan (cs : List Char) : Option (List Token) :=
  ((cs.foldlM Scanner.step ⟨[], .between⟩).bind Scanner.close).map fun s => s.tokens.reverse

end VisualProgram.Json
