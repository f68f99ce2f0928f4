import VisualProgram.Json.Token

/-!
# What a JSON text says

A `Raw` tree holds everything a text says, before it is taken for a value: an object may repeat a
key, and a leaf or key without a value (`none`) is kept, since a reader that skips it never asks.
`Raw.toJson?` takes it for a value: of a repeated key the first place and the last value count.

The tree is built by a machine that takes one token at a time (`Build.step`) and keeps the open
arrays and objects on a stack, so nesting has no limit.
-/

namespace VisualProgram.Json

inductive Raw where
  | null
  | bool (b : Bool)
  | number (n : Option Number)
  | string (s : Option String)
  | array (items : List Raw)
  | object (members : List (Option String × Raw))

/-! ## building the tree -/

/-- an open array or object; what is already in it stands last first -/
inductive Frame where
  | items (done : List Raw)
  | members (done : List (Option String × Raw)) (key : Option String)

inductive Build where
  /-- a value must come -/
  | value (stack : List Frame)
  /-- an array was just opened -/
  | opened (stack : List Frame)
  /-- a key must come, or the end of an object that has no members yet -/
  | entry (done : List (Option String × Raw)) (stack : List Frame)
  /-- the colon after a key must come -/
  | keyed (done : List (Option String × Raw)) (key : Option String) (stack : List Frame)
  /-- a value is complete -/
  | complete (value : Raw) (stack : List Frame)

def Build.startValue (stack : List Frame) : Token → Option Build
  | .null => some (.complete .null stack)
  | .bool b => some (.complete (.bool b) stack)
  | .number n => some (.complete (.number n) stack)
  | .string s => some (.complete (.string s) stack)
  | .openArray => some (.opened stack)
  | .openObject => some (.entry [] stack)
  | _ => none

def Build.step : Build → Token → Option Build
  | .value stack, token => startValue stack token
  | .opened stack, .closeArray => some (.complete (.array []) stack)
  | .opened stack, token => startValue (.items [] :: stack) token
  | .entry [] stack, .closeObject => some (.complete (.object []) stack)
  | .entry done stack, .string key => some (.keyed done key stack)
  | .keyed done key stack, .colon => some (.value (.members done key :: stack))
  | .complete v (.items done :: stack), .comma => some (.value (.items (v :: done) :: stack))
  | .complete v (.items done :: stack), .closeArray =>
    some (.complete (.array (v :: done).reverse) stack)
  | .complete v (.members done key :: stack), .comma => some (.entry ((key, v) :: done) stack)
  | .complete v (.members done key :: stack), .closeObject =>
    some (.complete (.object ((key, v) :: done).reverse) stack)
  | _, _ => none

def Build.finish : Build → Option Raw
  | .complete v [] => some v
  | _ => none

namespace Raw

def ofTokens? (tokens : List Token) : Option Raw :=
  (tokens.foldlM Build.step (.value [])).bind Build.finish

/-- the tree of a text that is one JSON value with blanks around it -/
def ofText? (text : String) : Option Raw := (scan text.toList).bind ofTokens?

/-! ## values -/

mutual
def toJson? : Raw → Option Json
  | .null => some .null
  | .bool b => some (.bool b)
  | .number n => n.map .number
  | .string s => s.map .string
  | .array items => (itemsToJson? items).map .array
  | .object members => (membersToJson? members []).map .object

def itemsToJson? : List Raw → Option (List Json)
  | [] => some []
  | x :: xs => do
    let v ← x.toJson?
    let vs ← itemsToJson? xs
    some (v :: vs)

/-- the members from left to right, each put into those before it -/
def membersToJson? : List (Option String × Raw) → List (String × Json) → Option (List (String × Json))
  | [], done => some done
  | (key, x) :: rest, done => do
    let k ← key
    let v ← x.toJson?
    membersToJson? rest (Assoc.put k v done)
end

mutual
/-- a value as the tree that says just that -/
def ofJson : Json → Raw
  | .null => .null
  | .bool b => .bool b
  | .number n => .number (some n)
  | .string s => .string (some s)
  | .array items => .array (ofItems items)
  | .object members => .object (ofMembers members)

def ofItems : List Json → List Raw
  | [] => []
  | v :: vs => ofJson v :: ofItems vs

def ofMembers : List (String × Json) → List (Option String × Raw)
  | [] => []
  | (k, v) :: rest => (some k, ofJson v) :: ofMembers rest
end

end Raw

/-- the value a text denotes -/
def ofText? (text : String) : Option Json := (Raw.ofText? text).bind Raw.toJson?

end VisualProgram.Json
