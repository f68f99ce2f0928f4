import VisualProgram.Rule

/-!
# The standard rules

The operators, functions and statements every toolchain starts from.
-/

namespace VisualProgram.Rule.Standard

def zero : Json := .number (.whole 0 Number.fits_zero)
def one : Json := .number (.whole 1 (by decide))
def ten : Json := .number (.whole 10 (by decide))
def thirtyTwo : Json := .number (.whole 32 (by decide))

/-! ## operators -/

def arithmetic : OperatorTable where
  field := "OP"
  leftSocket := "A"
  rightSocket := "B"
  fallback := .ofJson zero
  operators :=
    [("ADD", ⟨" + ", .sum, .sum, .sum⟩),
     ("MINUS", ⟨" - ", .sum, .sum, .product⟩),
     ("MULTIPLY", ⟨" * ", .product, .product, .sign⟩),
     ("DIVIDE", ⟨" / ", .product, .product, .sign⟩),
     ("POWER", ⟨" ** ", .power, .call, .power⟩)]

def comparison : OperatorTable where
  field := "OP"
  leftSocket := "A"
  rightSocket := "B"
  fallback := .ofJson zero
  operators :=
    [("EQ", ⟨" == ", .comparison, .sum, .sum⟩),
     ("NEQ", ⟨" != ", .comparison, .sum, .sum⟩),
     ("LT", ⟨" < ", .comparison, .sum, .sum⟩),
     ("LTE", ⟨" <= ", .comparison, .sum, .sum⟩),
     ("GT", ⟨" > ", .comparison, .sum, .sum⟩),
     ("GTE", ⟨" >= ", .comparison, .sum, .sum⟩)]

def connective : OperatorTable where
  field := "OP"
  leftSocket := "A"
  rightSocket := "B"
  fallback := .ofJson (.bool false)
  operators :=
    [("AND", ⟨" and ", .conjunction, .conjunction, .conjunction⟩),
     ("OR", ⟨" or ", .disjunction, .disjunction, .disjunction⟩)]

/-! ## functions -/

/-- a call of a function by name -/
def callForm (opening : String) (needs : Option String) : FunctionForm :=
  ⟨opening, ")", .call, .loosest, needs⟩

def single : FunctionTable where
  field := "OP"
  socket := "NUM"
  fallback := .ofJson zero
  forms :=
    [("ROOT", callForm "math.sqrt(" (some "math")),
     ("ABS", callForm "abs(" none),
     ("NEG", ⟨"-", "", .sign, .sign, none⟩),
     ("LN", callForm "math.log(" (some "math")),
     ("LOG10", callForm "math.log10(" (some "math")),
     ("EXP", callForm "math.exp(" (some "math")),
     ("POW10", ⟨"10 ** ", "", .power, .power, none⟩)]

def rounding : FunctionTable where
  field := "OP"
  socket := "NUM"
  fallback := .ofJson zero
  forms :=
    [("ROUND", callForm "round(" none),
     ("ROUNDUP", callForm "math.ceil(" (some "math")),
     ("ROUNDDOWN", callForm "math.floor(" (some "math"))]

/-! ## values -/

def text : Template := ⟨.atomic, [.field "TEXT" (.string "")]⟩

def null : Template := ⟨.atomic, [.text "None"]⟩

def negate : Template :=
  ⟨.negation, [.text "not ", .operand "BOOL" .negation (.ofJson (.bool true))]⟩

def ternary : Template :=
  ⟨.conditional,
    [.operand "THEN" .disjunction .absent, .text " if ",
     .operand "IF" .disjunction (.ofJson (.bool false)), .text " else ",
     .operand "ELSE" .conditional .absent]⟩

def modulo : Template :=
  ⟨.product,
    [.operand "DIVIDEND" .product (.ofJson zero), .text " % ",
     .operand "DIVISOR" .sign (.ofJson one)]⟩

def variableGet : Template := ⟨.atomic, [.variableName "VAR"]⟩

def getInput : Template :=
  ⟨.call, [.text "get_input(", .field "PORT" (.string "input1"), .text ")"]⟩

def scale : Template :=
  ⟨.sum,
    [.operand "VALUE" .product (.ofJson zero), .text " * ", .operand "SCALE" .sign (.ofJson one),
     .text " + ", .operand "OFFSET" .sum (.ofJson zero)]⟩

def celsiusToFahrenheit : List Template :=
  [⟨.product, [.operand "CELSIUS" .product (.ofJson zero), .text " * 1.8"]⟩,
   ⟨.sum, [.previous .sum, .text " + 32"]⟩]

def fahrenheitToKelvin : List Template :=
  [⟨.sum, [.operand "FAHRENHEIT" .sum (.ofJson thirtyTwo), .text " - 32"]⟩,
   ⟨.product, [.previous .product, .text " * 5 / 9"]⟩,
   ⟨.sum, [.previous .sum, .text " + 273.15"]⟩]

/-! ## statements -/

def repeatTimes : List Template.Line :=
  [.code ⟨.loosest,
    [.text "for _ in range(int(", .operand "TIMES" .loosest (.ofJson ten), .text ")):"]⟩,
   .body "DO"]

def variableSet : List Template.Line :=
  [.code ⟨.loosest, [.variableName "VAR", .text " = ", .operand "VALUE" .loosest .absent]⟩]

def print : List Template.Line :=
  [.code ⟨.loosest,
    [.text "print(", .operand "TEXT" .loosest (.ofJson (.string "")), .text ")"]⟩]

def setOutput : List Template.Line :=
  [.code ⟨.loosest,
    [.text "set_output(", .field "PORT" (.string "output1"), .text ", ",
     .operand "VALUE" .loosest .absent, .text ")"]⟩]

def log : List Template.Line :=
  [.code ⟨.loosest,
    [.text "logger.", .identifier "LEVEL" "info", .text "(",
     .operand "MESSAGE" .loosest (.ofJson (.string "")), .text ")"]⟩]

/-! ## the table -/

def table : List (String × Rule) :=
  [("math_arithmetic", .value (.operator arithmetic)),
   ("logic_compare", .value (.operator comparison)),
   ("logic_operation", .value (.operator connective)),
   ("math_number", .value .number),
   ("logic_boolean", .value .truth),
   ("text_join", .value .join),
   ("math_single", .value (.function single)),
   ("math_round", .value (.function rounding)),
   ("text", .value (.template text)),
   ("logic_null", .value (.template null)),
   ("logic_negate", .value (.template negate)),
   ("logic_ternary", .value (.template ternary)),
   ("math_modulo", .value (.template modulo)),
   ("variables_get", .value (.template variableGet)),
   ("daq_get_input", .value (.template getInput)),
   ("daq_scale", .value (.template scale)),
   ("daq_celsius_to_fahrenheit", .value (.staged celsiusToFahrenheit)),
   ("daq_fahrenheit_to_kelvin", .value (.staged fahrenheitToKelvin)),
   ("controls_if", .statement .branches),
   ("controls_whileUntil", .statement .loop),
   ("controls_repeat_ext", .statement (.template repeatTimes)),
   ("variables_set", .statement (.template variableSet)),
   ("text_print", .statement (.template print)),
   ("daq_set_output", .statement (.template setOutput)),
   ("daq_log", .statement (.template log))]

end VisualProgram.Rule.Standard
