import VisualProgram.Fault
import VisualProgram.Json.Text

/-!
# Options of the generated code

Every option has a default, so a configuration names only those it changes.
-/

namespace VisualProgram
open Json

structure Options where
  /-- one level of indentation -/
  indent : String
  /-- the module and the class of the engine that runs a program -/
  engineModule : String
  engineClass : String
  /-- the module of the component classes -/
  componentModule : String
  /-- the ending of a class name made from a type tag -/
  classSuffix : String
  /-- the property of a node that holds the state of its script -/
  scriptStateKey : String
  /-- the property that receives the compiled script -/
  generatedCodeKey : String
  /-- the pause of the main loop -/
  idleSleepSeconds : Float
deriving DecidableEq

namespace Options

def standard : Options where
  indent := "    "
  engineModule := "daq_core.engine"
  engineClass := "DAQEngine"
  componentModule := "daq_core.components"
  classSuffix := "Component"
  scriptStateKey := "blocks"
  generatedCodeKey := "generatedCode"
  idleSleepSeconds := 1.0

def entryNames : List String :=
  ["indent", "engineModule", "engineClass", "componentModule", "classSuffix", "scriptStateKey",
   "generatedCodeKey", "idleSleepSeconds"]

def ofRaw? (raw : Raw) : Option Options := do
  let entries ← raw.record? entryNames
  let text (name default : String) := optional name default Raw.text? entries
  let indent ← text "indent" standard.indent
  let engineModule ← text "engineModule" standard.engineModule
  let engineClass ← text "engineClass" standard.engineClass
  let componentModule ← text "componentModule" standard.componentModule
  let classSuffix ← text "classSuffix" standard.classSuffix
  let scriptStateKey ← text "scriptStateKey" standard.scriptStateKey
  let generatedCodeKey ← text "generatedCodeKey" standard.generatedCodeKey
  let idleSleepSeconds ←
    optional "idleSleepSeconds" standard.idleSleepSeconds Raw.float? entries
  some { indent, engineModule, engineClass, componentModule, classSuffix, scriptStateKey,
         generatedCodeKey, idleSleepSeconds }

def ofText (text : String) : Except LoadError Options :=
  match (Raw.ofText? text).bind ofRaw? with
  | some options => .ok options
  | none => .error .malformed

def toJson (o : Options) : Json :=
  .object
    [("indent", .string o.indent), ("engineModule", .string o.engineModule),
     ("engineClass", .string o.engineClass), ("componentModule", .string o.componentModule),
     ("classSuffix", .string o.classSuffix), ("scriptStateKey", .string o.scriptStateKey),
     ("generatedCodeKey", .string o.generatedCodeKey),
     ("idleSleepSeconds", .ofFloat o.idleSleepSeconds)]

end Options

end VisualProgram
