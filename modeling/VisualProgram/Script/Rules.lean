import VisualProgram.Script.Site

/-!
# Running a rule

`ValueRule.run` and `StatementRule.run` give the expression and the code of a block by its rule.  A
field that cannot be interpreted is reported, and its default is taken.
-/

namespace VisualProgram
namespace Site

/-! ## selected operators and functions -/

/-- the entry of a table that a field selects: the first one if the field is missing or, after a
report, if it names none of them -/
def select {α : Type} (site : Site) (field noun : String) (table : List (String × α)) :
    Script (Option α) :=
  match Field.text? field site.fields with
  | none => pure (table.head?.map Prod.snd)
  | some name =>
    match Assoc.get? name table with
    | some entry => pure (some entry)
    | none => do
      site.report .invalidField ("unknown " ++ noun ++ " '" ++ name ++ "'")
      pure (table.head?.map Prod.snd)

def operator (unit : String) (site : Site) (table : OperatorTable) : Script Expr := do
  match ← site.select table.field "operator" table.operators with
  | none => pure .absent
  | some op =>
    let left ← site.operand unit table.leftSocket op.left table.fallback
    let right ← site.operand unit table.rightSocket op.right table.fallback
    pure ⟨left ++ op.symbol ++ right, op.level⟩

def require (needs : Option String) : Script Unit :=
  match needs with
  | none => pure ()
  | some name => modify (Session.require name)

def function (unit : String) (site : Site) (table : FunctionTable) : Script Expr := do
  match ← site.select table.field "function" table.forms with
  | none => pure .absent
  | some form =>
    require form.needs
    let operand ← site.operand unit table.socket form.operand table.fallback
    pure ⟨form.opening ++ operand ++ form.closing, form.level⟩

/-! ## numbers and truth values -/

/-- a number kept as text: a whole number if it is one, else a finite float -/
def numberOfText? (text : String) : Option String :=
  match Decimal.integer? (Text.trim text.toList) with
  | some n => some (toString n)
  | none =>
    match Decimal.float? (Text.trim text.toList) with
    | some x => if x.isFinite then some (Literal.float x) else none
    | none => none

/-- the text of a number has a sign or stands for itself -/
def signed (text : String) : Expr :=
  ⟨text, if text.toList.head? = some '-' then .sign else .atomic⟩

def number (site : Site) : Script Expr :=
  match Assoc.get? "NUM" site.fields with
  | none => pure (signed "0")
  | some (.number n) => pure (signed (Literal.number n))
  | some (.string s) =>
    match numberOfText? s with
    | some text => pure (signed text)
    | none => do
      site.report .invalidField ("'" ++ s ++ "' is not a number")
      pure (signed "0")
  | some v => do
    site.report .invalidField (v.compact ++ " is not a number")
    pure (signed "0")

def truth (site : Site) : Script Expr :=
  match Assoc.get? "BOOL" site.fields with
  | none => pure (.atom (Literal.truth true))
  | some v =>
    match Field.toFlag? v with
    | some b => pure (.atom (Literal.truth b))
    | none => do
      site.report .invalidField (v.compact ++ " is not a boolean")
      pure (.atom (Literal.truth true))

/-! ## numbered sockets -/

/-- counts are kept below this -/
def countLimit : Nat := 0xffffffffffffffff

/-- what follows `head` in a text that starts with it -/
def after? : (head text : List Char) → Option (List Char)
  | [], cs => some cs
  | _ :: _, [] => none
  | p :: ps, c :: cs => if p = c then after? ps cs else none

/-- the number of a socket whose name is `stem` and a number -/
def slotIndex? (stem : String) (socket : String) : Option Nat :=
  (after? stem.toList socket.toList).bind Decimal.natural?

def slotIndices {α : Type} (stem : String) (sockets : List (String × α)) : List Nat :=
  (Assoc.keys sockets).filterMap (slotIndex? stem)

/-- the count a field declares, none if it is not positive -/
def declaredCount (site : Site) (field : String) : Nat :=
  match Field.float? field site.fields with
  | some x => if 0 < x then x.toUInt64.toNat else 0
  | none => 0

/-- the slots compiled beyond those connected -/
def spareSlots : Nat := 8

/-- a number of slots, cut down to those connected and a few more -/
def clampSlots (site : Site) (field : String) (wanted connected : Nat) : Script Nat :=
  let limit := connected + spareSlots
  if wanted ≤ limit then pure wanted
  else do
    site.report .invalidField
      (field ++ " asks for " ++ toString wanted ++ " slots, compiling " ++ toString limit)
    pure limit

/-- one more than the greatest of some numbers -/
def pastGreatest (indices : List Nat) : Nat :=
  match indices.max? with
  | none => 0
  | some n => min (n + 1) countLimit

/-- a numbered socket -/
def slot (stem : String) (index : Nat) : String := stem ++ toString index

/-! ## joined text -/

/-- a part of a joined text: text as it is, all else by a call -/
def joinPart (site : Site) (index : Nat) : Script Expr :=
  match Assoc.get? (slot "ADD" index) site.inputs with
  | none => pure (.atom "\"\"")
  | some child =>
    if child.tag = "text" then child.value .sum
    else do
      let e ← child.value .loosest
      pure ⟨"str(" ++ e.text ++ ")", .call⟩

def joinParts (site : Site) : List Nat → Script (List Expr)
  | [] => pure []
  | index :: rest => do
    let part ← site.joinPart index
    let more ← site.joinParts rest
    pure (part :: more)

def sumOf : List Expr → Expr
  | [] => .atom "\"\""
  | [part] => part
  | parts => ⟨String.intercalate " + " (parts.map Expr.text), .sum⟩

def join (site : Site) : Script Expr := do
  let indices := slotIndices "ADD" site.inputs
  let wanted := max (site.declaredCount "ITEMS") (pastGreatest indices)
  let count ← site.clampSlots "ITEMS" wanted indices.length
  let parts ← site.joinParts (List.range count)
  pure (sumOf parts)

/-! ## branches and loops -/

def never : Fallback := .ofJson (.bool false)

def branch (unit : String) (site : Site) (index : Nat) : Script String := do
  let keyword := if index = 0 then "if" else "elif"
  let condition ← site.operand unit (slot "IF" index) .loosest never
  let body ← site.body unit (slot "DO" index)
  pure (keyword ++ " " ++ condition ++ ":\n" ++ body)

def branchList (unit : String) (site : Site) : List Nat → Script String
  | [] => pure ""
  | index :: rest => do
    let code ← site.branch unit index
    let more ← site.branchList unit rest
    pure (code ++ more)

def otherwise (unit : String) (site : Site) : Script String :=
  if Assoc.contains "ELSE" site.statements ∨ Field.flag? "HAS_ELSE" site.fields = some true then do
    let body ← site.body unit "ELSE"
    pure ("else:\n" ++ body)
  else pure ""

def branches (unit : String) (site : Site) : Script String := do
  let indices := (slotIndices "IF" site.inputs ++ slotIndices "DO" site.statements).eraseDups
  let last := max ((indices.max?).getD 0) (site.declaredCount "ELSEIF")
  let count ← site.clampSlots "ELSEIF" (min (last + 1) countLimit) indices.length
  let code ← site.branchList unit (List.range count)
  let rest ← site.otherwise unit
  pure (code ++ rest)

def loop (unit : String) (site : Site) : Script String := do
  let header ← match Field.text? "MODE" site.fields with
    | some "UNTIL" => do
      let condition ← site.operand unit "BOOL" .negation never
      pure ("while not " ++ condition ++ ":\n")
    | mode => do
      match mode with
      | some name =>
        if name ≠ "WHILE" then
          site.report .invalidField ("unknown loop mode '" ++ name ++ "'")
      | none => pure ()
      let condition ← site.operand unit "BOOL" .loosest never
      pure ("while " ++ condition ++ ":\n")
  let body ← site.body unit "DO"
  pure (header ++ body)

/-! ## blocks without a rule -/

def reportUnknown (site : Site) : Script Unit :=
  site.report .unknownBlockType ("unknown block type '" ++ site.tag ++ "'")

def unknownValue (site : Site) : Script Expr := do
  site.reportUnknown
  pure .absent

/-- the comment left for a block without a rule -/
def unknownComment (site : Site) : String :=
  "# Unknown block type '" ++ Text.commentText site.tag ++ "' (" ++ Text.commentText site.id ++ ")\n"

def unknownStatement (site : Site) : Script String := do
  site.reportUnknown
  pure site.unknownComment

end Site

/-! ## rules -/

def ValueRule.run (unit : String) (site : Site) : ValueRule → Script Expr
  | .operator table => site.operator unit table
  | .function table => site.function unit table
  | .number => site.number
  | .truth => site.truth
  | .join => site.join
  | .template form => site.render unit none form
  | .staged stages => site.renderStages unit none stages
  | .unknown => site.unknownValue

def StatementRule.run (unit : String) (site : Site) : StatementRule → Script String
  | .branches => site.branches unit
  | .loop => site.loop unit
  | .template lines => site.renderLines unit lines
  | .unknown => site.unknownStatement

end VisualProgram
