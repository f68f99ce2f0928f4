import VisualProgram.Script
import VisualProgram.Proofs.Literal.Spelling

/-!
# The meaning of a value block

`Block.meaning` is the expression a block stands for, as a syntax tree: what its tag says of the trees
in its sockets.  Nothing here knows of texts, levels or parentheses.

`meanings` has an entry for each tag of a value block:

* a field may select the operator or the function, the first one being the default;
* an empty socket has a tree of its own in each rule;
* a block of any other tag, and so a statement in the place of a value, stands for `None`.

Numbers, truth values and the numbers of sockets are read here in their own way (`wholeNumber?`, `denies`,
`partNumber?`), not as the rules read them.
-/

namespace VisualProgram.Python

/-- what the meaning of a block is made from: its fields, what hangs in its value sockets (a tag and
a tree each), and a reading of the variables -/
structure Situation where
  fields : List (String × Json)
  operands : List (String × String × Tree)
  names : String → String

namespace Situation

/-- the tree in a socket, or what stands for an empty one -/
def operand (s : Situation) (socket : String) (empty : Tree) : Tree :=
  ((Assoc.get? socket s.operands).map Prod.snd).getD empty

/-- the entry that a field selects, the first one if it names none -/
def select {α : Type} (s : Situation) (field : String) (first : String × α)
    (others : List (String × α)) : α :=
  ((Field.text? field s.fields).bind fun name => Assoc.get? name (first :: others)).getD first.2

end Situation

/-! ## readings -/

/-- a text without the sign in front of it -/
def unsigned (cs : List Char) : List Char :=
  if cs.head? = some '-' ∨ cs.head? = some '+' then cs.tail else cs

/-- a whole number: digits with a sign at most, between `-2 ^ 63` and `2 ^ 63 - 1` -/
def wholeNumber? (cs : List Char) : Option Int :=
  let size := Nat.ofDigitChars 10 (unsigned cs) 0
  let n : Int := if cs.head? = some '-' then -size else size
  if unsigned cs ≠ [] ∧ (unsigned cs).all Char.isDigit ∧ -0x8000000000000000 ≤ n ∧ n < 0x8000000000000000 then
    some n
  else none

/-- the number of a socket called `ADD` and a number: digits with a plus sign at most, below `2 ^ 64` -/
def partNumber? (name : String) : Option Nat :=
  let cs := name.toList.drop 3
  let n := Nat.ofDigitChars 10 (unsigned cs) 0
  if name.toList.take 3 = "ADD".toList ∧ cs.head? ≠ some '-' ∧ unsigned cs ≠ []
      ∧ (unsigned cs).all Char.isDigit ∧ n < 0x10000000000000000 then
    some n
  else none

/-- a value that says no: a truth value, or the word in any case -/
def denies : Json → Bool
  | .bool b => !b
  | .string text => text.toList.map Char.toLower == "false".toList
  | _ => false

namespace Situation

/-! ## numbers, truth values and joined text -/

def number (s : Situation) : Tree :=
  match Assoc.get? "NUM" s.fields with
  | some (.number n) => .ofNumber n
  | some (.string text) =>
    match wholeNumber? (Text.trim text.toList), Decimal.float? (Text.trim text.toList) with
    | some n, _ => .ofInt n
    | none, some x => if x.isFinite then .ofFloat x else .int 0
    | none, none => .int 0
  | _ => .int 0

/-- true unless the field says no -/
def truthValue (s : Situation) : Tree := .truth (!(Assoc.get? "BOOL" s.fields).any denies)

/-- the number of joined parts: those asked for and those up to the last one connected, at most eight more
than are connected -/
def partCount (s : Situation) : Nat :=
  let connected := (Assoc.keys s.operands).filterMap partNumber?
  let declared := match Field.float? "ITEMS" s.fields with
    | some x => if 0 < x then x.toUInt64.toNat else 0
    | none => 0
  let pastLast := connected.foldr (fun n past => max (n + 1) past) 0
  min (max declared (min pastLast 0xffffffffffffffff)) (connected.length + 8)

/-- a part of a joined text: text as it is, all else by a call -/
def part (s : Situation) (index : Nat) : Tree :=
  match Assoc.get? ("ADD" ++ toString index) s.operands with
  | none => .text ""
  | some (tag, t) => if tag = "text" then t else .call (.name "str") [t]

/-- the sum of parts, from the left -/
def sumOf : List Tree → Tree
  | [] => .text ""
  | first :: rest => rest.foldl (.binary .add) first

def join (s : Situation) : Tree := sumOf ((List.range s.partCount).map s.part)

end Situation

/-! ## the rules -/

/-- a function of the module `math` -/
def mathCall (name : String) (x : Tree) : Tree := .call (.member (.name "math") name) [x]

def namedCall (name : String) (x : Tree) : Tree := .call (.name name) [x]

def comparison (op : Comparison) (l r : Tree) : Tree := .compare l [(op, r)]

def meanings : List (String × (Situation → Tree)) :=
  [("math_arithmetic", fun s =>
      s.select "OP" ("ADD", Tree.binary .add)
        [("MINUS", Tree.binary .sub), ("MULTIPLY", Tree.binary .mul), ("DIVIDE", Tree.binary .div),
         ("POWER", Tree.power)]
        (s.operand "A" (.int 0)) (s.operand "B" (.int 0))),
   ("logic_compare", fun s =>
      s.select "OP" ("EQ", comparison .eq)
        [("NEQ", comparison .ne), ("LT", comparison .lt), ("LTE", comparison .le),
         ("GT", comparison .gt), ("GTE", comparison .ge)]
        (s.operand "A" (.int 0)) (s.operand "B" (.int 0))),
   ("logic_operation", fun s =>
      s.select "OP" ("AND", Tree.binary .and) [("OR", Tree.binary .or)]
        (s.operand "A" (.truth false)) (s.operand "B" (.truth false))),
   ("math_number", Situation.number),
   ("logic_boolean", Situation.truthValue),
   ("text_join", Situation.join),
   ("math_single", fun s =>
      s.select "OP" ("ROOT", mathCall "sqrt")
        [("ABS", namedCall "abs"), ("NEG", Tree.neg), ("LN", mathCall "log"),
         ("LOG10", mathCall "log10"), ("EXP", mathCall "exp"), ("POW10", Tree.power (.int 10))]
        (s.operand "NUM" (.int 0))),
   ("math_round", fun s =>
      s.select "OP" ("ROUND", namedCall "round")
        [("ROUNDUP", mathCall "ceil"), ("ROUNDDOWN", mathCall "floor")]
        (s.operand "NUM" (.int 0))),
   ("text", fun s => .ofJson ((Assoc.get? "TEXT" s.fields).getD (.string ""))),
   ("logic_null", fun _ => .none),
   ("logic_negate", fun s => .not (s.operand "BOOL" (.truth true))),
   ("logic_ternary", fun s =>
      .cond (s.operand "IF" (.truth false)) (s.operand "THEN" .none) (s.operand "ELSE" .none)),
   ("math_modulo", fun s =>
      .binary .mod (s.operand "DIVIDEND" (.int 0)) (s.operand "DIVISOR" (.int 1))),
   ("variables_get", fun s => .name (s.names ((Field.text? "VAR" s.fields).getD "item"))),
   ("daq_get_input", fun s =>
      namedCall "get_input" (.ofJson ((Assoc.get? "PORT" s.fields).getD (.string "input1")))),
   ("daq_scale", fun s =>
      .binary .add
        (.binary .mul (s.operand "VALUE" (.int 0)) (s.operand "SCALE" (.int 1)))
        (s.operand "OFFSET" (.int 0))),
   ("daq_celsius_to_fahrenheit", fun s =>
      .binary .add (.binary .mul (s.operand "CELSIUS" (.int 0)) (.float "1.8")) (.int 32)),
   ("daq_fahrenheit_to_kelvin", fun s =>
      .binary .add
        (.binary .div (.binary .mul (.binary .sub (s.operand "FAHRENHEIT" (.int 32)) (.int 32))
          (.int 5)) (.int 9))
        (.float "273.15"))]

def meaningOf (tag : String) (s : Situation) : Tree :=
  match Assoc.get? tag meanings with
  | some rule => rule s
  | none => .none

end VisualProgram.Python

/-! ## blocks -/

namespace VisualProgram.Block
open Python

mutual
def meaning (names : String → String) : Block → Tree
  | ⟨_, tag, fields, inputs, _, _⟩ => meaningOf tag ⟨fields, meaningSockets names inputs, names⟩

/-- the tags and the trees in value sockets -/
def meaningSockets (names : String → String) : List (String × Block) → List (String × String × Tree)
  | [] => []
  | (socket, child) :: rest => (socket, child.tag, child.meaning names) :: meaningSockets names rest
end

end VisualProgram.Block
