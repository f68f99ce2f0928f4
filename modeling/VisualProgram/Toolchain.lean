import VisualProgram.Component
import VisualProgram.Identifier
import VisualProgram.Options
import VisualProgram.Rule.Standard

/-!
# Toolchains

A toolchain holds the rules for block tags, the classes for component types and the options.  It is
a value: registering gives a new one, in which a later entry replaces an earlier one of its name.
-/

namespace VisualProgram

structure Toolchain where
  rules : List (String × Rule)
  classes : List (String × ComponentClass)
  options : Options
deriving DecidableEq

/-- the class of a component type, and whether its name had to be made up from the tag -/
structure ResolvedClass where
  name : String
  defaults : Option (List (String × Json))
  derived : Bool
deriving DecidableEq

namespace Toolchain

def empty : Toolchain := ⟨[], [], .standard⟩

def standard : Toolchain := ⟨Rule.Standard.table, Component.table, .standard⟩

def rule? (t : Toolchain) (tag : String) : Option Rule := Assoc.get? tag t.rules

def addRule (t : Toolchain) (tag : String) (rule : Rule) : Toolchain :=
  { t with rules := Assoc.put tag rule t.rules }

/-- lets a tag compile like one that has a rule; without that rule nothing changes -/
def addAlias (t : Toolchain) (tag existing : String) : Toolchain :=
  match t.rule? existing with
  | some rule => t.addRule tag rule
  | none => t

def addClass (t : Toolchain) (type : String) (cls : ComponentClass) : Toolchain :=
  { t with classes := Assoc.put type cls t.classes }

/-- the class of a type, looked up by the whole tag, then by the tag without its namespace -/
def class? (t : Toolchain) (type : String) : Option ComponentClass :=
  (Assoc.get? type t.classes).or (Assoc.get? (Identifier.bareTag type) t.classes)

def resolve (t : Toolchain) (type : String) : ResolvedClass :=
  match t.class? type with
  | some cls => ⟨cls.name, some cls.defaults, false⟩
  | none =>
    ⟨Identifier.className t.options.classSuffix (Identifier.bareTag type), none, true⟩

end Toolchain

end VisualProgram
