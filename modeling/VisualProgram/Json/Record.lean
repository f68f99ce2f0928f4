import VisualProgram.Json.Raw

/-!
# Records read from JSON

A record has named entries in a fixed order.  It is spelled as an object, whose other keys are
skipped and whose own keys come at most once, or as an array of the entries in order, of which the
last ones may be missing.  `record?` finds the entries of either spelling; an entry is then read
with `required` or, if it has a default, with `optional`.  A reader that takes the entries as they
come keeps what it has read of each and goes on with `fill?`.

`record?` works on any payload, so that it serves trees and what has already been read of them.
-/

namespace VisualProgram.Json

variable {α β : Type}

/-- the members of an object under the names of a record -/
def knownMembers? (names : List String) : List (Option String × α) → Option (List (String × α))
  | [] => some []
  | (key, x) :: rest => do
    let name ← key
    let known ← knownMembers? names rest
    if name ∈ names then
      if name ∈ Assoc.keys known then none else some ((name, x) :: known)
    else some known

/-- the elements of an array under the names of a record -/
def knownItems? (names : List String) (items : List α) : Option (List (String × α)) :=
  if items.length ≤ names.length then some (names.zip items) else none

namespace Raw

def record? (names : List String) : Raw → Option (List (String × Raw))
  | .object members => knownMembers? names members
  | .array items => knownItems? names items
  | _ => none

/-! ## kinds of entries -/

def text? : Raw → Option String
  | .string s => s
  | _ => none

/-- any number, as a float -/
def float? : Raw → Option Float
  | .number n => n.map Number.toFloat
  | _ => none

def items? : Raw → Option (List Raw)
  | .array items => some items
  | _ => none

/-- an object with any keys, taken for a map -/
def members? : Raw → Option (List (String × Json))
  | .object members => membersToJson? members []
  | _ => none

end Raw

mutual
/-- a value put together again from its parts; of a repeated key the first place and the last value
count -/
def rebuilt : Json → Json
  | .null => .null
  | .bool b => .bool b
  | .number n => .number n
  | .string s => .string s
  | .array items => .array (rebuiltItems items)
  | .object members => .object (rebuiltMembers members [])

def rebuiltItems : List Json → List Json
  | [] => []
  | v :: vs => v.rebuilt :: rebuiltItems vs

/-- the members from left to right, each put into those before it -/
def rebuiltMembers : List (String × Json) → List (String × Json) → List (String × Json)
  | [], done => done
  | (key, v) :: rest, done => rebuiltMembers rest (Assoc.put key v.rebuilt done)
end

/-- the members of an object, taken for a map -/
def members? : Json → Option (List (String × Json))
  | .object members => some (rebuiltMembers members [])
  | _ => none

/-! ## entries -/

def required (name : String) (read : α → Option β) (entries : List (String × α)) :
    Option β :=
  (Assoc.get? name entries).bind read

/-- an entry that is missing has its default; one that is there must be readable -/
def optional (name : String) (default : β) (read : α → Option β)
    (entries : List (String × α)) : Option β :=
  match Assoc.get? name entries with
  | none => some default
  | some x => read x

/-- an entry that comes, after what was read of it before; one that comes again is refused -/
def fill? (entry : Option β) (read : Option β) : Option (Option β) :=
  match entry with
  | none => read.map some
  | some _ => none

end VisualProgram.Json
