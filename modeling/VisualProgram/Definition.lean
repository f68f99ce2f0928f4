import VisualProgram.Field
import VisualProgram.Identifier
import VisualProgram.Json.Text
import VisualProgram.Text.Chars
import VisualProgram.Workspace

/-!
# Block definitions

A definition is itself a block tree: a root, whose `INPUTS` chain lists input descriptors, each with
a `FIELDS` chain of field descriptors.  It compiles to the schema an editor loads and to the stub of
a rule, to be completed by hand.

* `Argument`    what a descriptor contributes to the schema: an input or a field, with its name if it
                has one;
* `Extraction`  what it contributes to the rule: something to be read from a block under that name;
* `Collector`   what is gathered along the chains, side by side: the message, the arguments, the
                extractions, the names in use and the warnings;
* `Schema`      the definition as the editor sees it, `stub` the text of the rule.
-/

namespace VisualProgram.Definition

def rootTag : String := "factory_base"

def placeholder : String := "// No block definition found."

/-! ## arguments -/

inductive Argument where
  | value (name : String) (check : Option String)
  | statement (name : String)
  | dummy
  | text (name text : String)
  | number (name : String) (value : Float)
  | choice (name : String) (options : List (String × String))
  | checkbox (name : String) (checked : Bool)
deriving DecidableEq

namespace Argument

def name? : Argument → Option String
  | .value name _ => some name
  | .statement name => some name
  | .dummy => none
  | .text name _ => some name
  | .number name _ => some name
  | .choice name _ => some name
  | .checkbox name _ => some name

def optionToJson (option : String × String) : Json :=
  .array [.string option.1, .string option.2]

def toJson : Argument → Json
  | .value name check =>
    .object ([("type", .string "input_value"), ("name", .string name)]
      ++ (check.map fun c => ("check", .string c)).toList)
  | .statement name => .object [("type", .string "input_statement"), ("name", .string name)]
  | .dummy => .object [("type", .string "input_dummy")]
  | .text name contents =>
    .object [("type", .string "field_input"), ("name", .string name), ("text", .string contents)]
  | .number name amount =>
    .object [("type", .string "field_number"), ("name", .string name), ("value", .ofFloat amount)]
  | .choice name options =>
    .object [("type", .string "field_dropdown"), ("name", .string name),
      ("options", .array (options.map optionToJson))]
  | .checkbox name checked =>
    .object [("type", .string "field_checkbox"), ("name", .string name), ("checked", .bool checked)]

end Argument

/-! ## extractions -/

/-- what a rule reads from its block -/
inductive Extraction where
  | value (name : String)
  | statement (name : String)
  | text (name : String)
  | number (name : String)
  | choice (name : String)
  | checkbox (name : String)
deriving DecidableEq

/-- the local of the `index`-th extraction -/
def localName (stem name : String) (index : Nat) : String :=
  stem ++ "_" ++ Identifier.ofLabel "item" name (toString index)

/-- binds a local to what is read under a name -/
def bindLine (stem name : String) (index : Nat) (before after : String) : String :=
  "let " ++ localName stem name index ++ " = " ++ before ++ Text.shown name ++ after

/-- the line of the `index`-th extraction -/
def Extraction.line (index : Nat) : Extraction → String
  | .value name =>
    bindLine "value" name index "cx.value(block, " ", Order::None, &Fallback::none());"
  | .statement name => bindLine "statements" name index "cx.statements(block, " ");"
  | .text name => bindLine "text" name index "block.field_str(" ").unwrap_or_default();"
  | .number name => bindLine "number" name index "block.field_f64(" ").unwrap_or_default();"
  | .choice name => bindLine "choice" name index "block.field_str(" ").unwrap_or_default();"
  | .checkbox name => bindLine "checked" name index "block.field_bool(" ").unwrap_or_default();"

/-! ## gathering -/

structure Collector where
  message : List String
  arguments : List Argument
  extractions : List Extraction
  /-- the names in use, each once -/
  names : List String
  warnings : List String
deriving DecidableEq

namespace Collector

def empty : Collector := ⟨[], [], [], [], []⟩

def warn (c : Collector) (text : String) : Collector := { c with warnings := c.warnings ++ [text] }

/-- a name that is already in use is warned about -/
def claim (c : Collector) (name : String) : Collector :=
  if name ∈ c.names then c.warn ("duplicate input or field name '" ++ name ++ "'")
  else { c with names := name :: c.names }

/-- an argument, and its number in the message -/
def push (c : Collector) (a : Argument) : Collector :=
  { c with
    arguments := c.arguments ++ [a]
    message := c.message ++ ["%" ++ toString (c.arguments.length + 1)] }

def extract (c : Collector) (e : Extraction) : Collector :=
  { c with extractions := c.extractions ++ [e] }

end Collector

/-- a percent sign of a label is doubled -/
def escapePercent (text : String) : String :=
  String.ofList (text.toList.flatMap fun c => if c = '%' then ['%', '%'] else [c])

/-- an entry of a list of options: two texts -/
def option? : Json → Option (String × String)
  | .array [.string label, .string value] => some (label, value)
  | _ => none

def optionsOf (field : Block) : List (String × String) :=
  match Assoc.get? "OPTIONS" field.fields with
  | some (.array entries) => entries.filterMap option?
  | _ => []

/-- the options of a choice; without any it gets one, and a warning -/
def addChoice (c : Collector) (field : Block) (name : String) : Collector :=
  match optionsOf field with
  | [] =>
    (c.warn ("dropdown '" ++ field.id ++ "' has no valid options")).push
      (.choice name [("option", "OPTION")])
  | options => c.push (.choice name options)

def addField (c : Collector) (field : Block) : Collector :=
  let name := (Field.text? "FIELDNAME" field.fields).getD "NAME"
  let text := (Field.text? "TEXT" field.fields).getD ""
  match field.tag with
  | "field_static" =>
    if text = "" then c else { c with message := c.message ++ [escapePercent text] }
  | "field_input" => ((c.claim name).push (.text name text)).extract (.text name)
  | "field_number" =>
    ((c.claim name).push (.number name ((Field.float? "VALUE" field.fields).getD 0))).extract
      (.number name)
  | "field_dropdown" => (addChoice (c.claim name) field name).extract (.choice name)
  | "field_checkbox" =>
    ((c.claim name).push (.checkbox name ((Field.flag? "CHECKED" field.fields).getD true))).extract
      (.checkbox name)
  | other => c.warn ("'" ++ other ++ "' (" ++ field.id ++ ") is not a field descriptor")

/-- a text that says something -/
def nonempty? (text : Option String) : Option String := text.filter (· ≠ "")

def addFields (c : Collector) (input : Block) : Collector :=
  (Block.chainOf (input.statement? "FIELDS")).foldl addField c

/-- an input comes after its fields -/
def addInput (c : Collector) (input : Block) : Collector :=
  let name := (Field.text? "INPUTNAME" input.fields).getD "NAME"
  match input.tag with
  | "input_value" =>
    (((addFields c input).claim name).push
      (.value name (nonempty? (Field.text? "CHECK" input.fields)))).extract (.value name)
  | "input_statement" =>
    (((addFields c input).claim name).push (.statement name)).extract (.statement name)
  | "input_dummy" => (addFields c input).push .dummy
  | other => c.warn ("'" ++ other ++ "' (" ++ input.id ++ ") is not an input descriptor")

def collect (root : Block) : Collector :=
  (Block.chainOf (root.statement? "INPUTS")).foldl addInput .empty

/-! ## schemas -/

/-- how a block connects to others: `output` is there for a value -/
structure Connections where
  output : Option Json
  previous : Bool
  next : Bool
deriving DecidableEq

structure Schema where
  type : String
  message : String
  arguments : List Argument
  connections : Connections
  colour : Json
  tooltip : String
  helpUrl : String
deriving DecidableEq

def Schema.toJson (s : Schema) : Json :=
  .object ([("type", .string s.type), ("message0", .string s.message)]
    ++ (if s.arguments = [] then []
        else [("args0", .array (s.arguments.map Argument.toJson))])
    ++ (s.connections.output.map fun v => ("output", v)).toList
    ++ (if s.connections.previous then [("previousStatement", .null)] else [])
    ++ (if s.connections.next then [("nextStatement", .null)] else [])
    ++ [("colour", s.colour), ("tooltip", .string s.tooltip), ("helpUrl", .string s.helpUrl)])

/-- a hue, a colour by `#`, or the standard hue -/
def colour (root : Block) : Json :=
  match Assoc.get? "COLOUR" root.fields with
  | some (.number hue) => .number hue
  | some (.string s) =>
    if s.toList.head? = some '#' then .string s
    else .ofNat ((Decimal.natural? s.toList).getD 230)
  | _ => .ofNat 230

/-- the connections a root asks for, and a warning if it names none of the kinds -/
def connections (root : Block) : Connections × List String :=
  match (Field.text? "CONNECTIONS" root.fields).getD "NONE" with
  | "LEFT" =>
    let check := nonempty? (Field.text? "OUTPUT_CHECK" root.fields)
    (⟨some (check.elim .null Json.string), false, false⟩, [])
  | "TOP" => (⟨none, true, false⟩, [])
  | "BOTTOM" => (⟨none, false, true⟩, [])
  | "BOTH" => (⟨none, true, true⟩, [])
  | "NONE" => (⟨none, false, false⟩, [])
  | other => (⟨none, false, false⟩, ["unknown connection kind '" ++ other ++ "'"])

def schemaOf (root : Block) : Schema :=
  let c := collect root
  { type := Identifier.ofLabel "block" ((Field.text? "NAME" root.fields).getD "") root.id
    message := String.intercalate " " c.message
    arguments := c.arguments
    connections := (connections root).1
    colour := colour root
    tooltip := (Field.text? "TOOLTIP" root.fields).getD ""
    helpUrl := (Field.text? "HELPURL" root.fields).getD "" }

/-! ## stubs -/

/-- the rule for a schema, with a line for each extraction -/
def stub (s : Schema) (extractions : List Extraction) : String :=
  let rule := Identifier.className "Rule" s.type
  let isValue := s.connections.output.isSome
  let register := if isValue then "with_value_rule" else "with_statement_rule"
  let kind := if isValue then "ValueRule" else "StatementRule"
  let result := if isValue then "Expr" else "String"
  let inert := if isValue then "Expr::none_literal()" else "String::new()"
  String.intercalate "\n"
    (["use daqgen::prelude::*;", "",
      "// Register with: Toolchain::builder()." ++ register ++ "(" ++ Text.shown s.type ++ ", "
        ++ rule ++ ")",
      "pub struct " ++ rule ++ ";", "",
      "impl " ++ kind ++ " for " ++ rule ++ " \x7b",
      "    #[allow(unused_variables)]",
      "    fn compile(&self, block: &Block, cx: &mut BlockCompiler<'_>) -> " ++ result ++ " \x7b"]
    ++ extractions.zipIdx.map (fun e => "        " ++ e.1.line e.2)
    ++ ["        // TODO: compose the generated code.", "        " ++ inert, "    \x7d", "\x7d"])
    ++ "\n"

/-! ## the whole -/

structure Output where
  /-- the schema as text, or a placeholder -/
  schema : String
  /-- the stub, or a placeholder -/
  stub : String
  definition : Option Schema
  warnings : List String
deriving DecidableEq

def missing : Output :=
  ⟨placeholder, placeholder, none, ["no '" ++ rootTag ++ "' root block"]⟩

def compileRoot (root : Block) : Output :=
  let schema := schemaOf root
  { schema := schema.toJson.pretty
    stub := stub schema (collect root).extractions
    definition := some schema
    warnings := (collect root).warnings ++ (connections root).2 }

/-- compiles a tree, if its root is the root of a definition -/
def compile (root : Option Block) : Output :=
  match root with
  | some b => if b.tag = rootTag then compileRoot b else missing
  | none => missing

/-- compiles the first chain of a workspace that starts a definition -/
def compileWorkspace (w : Workspace) : Output :=
  compile (w.blocks.find? fun b => b.tag = rootTag)

end VisualProgram.Definition
