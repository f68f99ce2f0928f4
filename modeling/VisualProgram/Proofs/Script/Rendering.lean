import VisualProgram.Proofs.Script.Effects
import VisualProgram.Proofs.Script.Reads

/-!
# Statement rules as templates

Branches and loops are templates too: their lines are known from the fields of the block and the names of its
sockets, whatever is in them.  A statement rule makes at most one report (`StatementRule.note`) and then
renders its lines (`StatementRule.lines`); `run_eq` says so, and `effects_eq` and `nodup_reads` say what that
means for its effects and for the sockets it reads.
-/

namespace VisualProgram

/-- a report that may be missing -/
abbrev Note := Option (Diagnostic.Kind × String)

def Note.effects : Note → List Effect
  | none => []
  | some (kind, message) => [.report kind message]

namespace Site

def note (site : Site) : Note → Script Unit
  | none => pure ()
  | some (kind, message) => site.report kind message

/-! ## lines -/

/-- a line with a value between an opening and a colon -/
def headLine (opening socket : String) (required : Precedence) : Template.Line :=
  .code ⟨.loosest, [.text opening, .operand socket required never, .text ":"]⟩

def branchLines (index : Nat) : List Template.Line :=
  [headLine (if index = 0 then "if " else "elif ") (slot "IF" index) .loosest, .body (slot "DO" index)]

def otherwiseLines (site : Site) : List Template.Line :=
  if Assoc.contains "ELSE" site.statements ∨ Field.flag? "HAS_ELSE" site.fields = some true then
    [.code ⟨.loosest, [.text "else:"]⟩, .body "ELSE"]
  else []

def branchesLines (site : Site) : List Template.Line :=
  (List.range (clamped site.wantedBranches site.branchIndices.length)).flatMap branchLines ++ site.otherwiseLines

def loopLines (site : Site) : List Template.Line :=
  [headLine (if Field.text? "MODE" site.fields = some "UNTIL" then "while not " else "while ") "BOOL" site.loopLevel,
    .body "DO"]

/-- the comment that stands for a block without a rule -/
def unknownMark (tag id : String) : String :=
  "# Unknown block type '" ++ Text.commentText tag ++ "' (" ++ Text.commentText id ++ ")"

def unknownLines (site : Site) : List Template.Line := [.code ⟨.loosest, [.text (unknownMark site.tag site.id)]⟩]

/-! ## reports -/

def clampNote (field : String) (wanted connected : Nat) : Note :=
  if wanted ≤ connected + spareSlots then none
  else some (.invalidField, field ++ " asks for " ++ toString wanted ++ " slots, compiling "
    ++ toString (connected + spareSlots))

def modeNote (site : Site) : Note :=
  match Field.text? "MODE" site.fields with
  | none => none
  | some name =>
    if name = "UNTIL" ∨ name = "WHILE" then none
    else some (.invalidField, "unknown loop mode '" ++ name ++ "'")

def unknownNote (site : Site) : Note := some (.unknownBlockType, "unknown block type '" ++ site.tag ++ "'")

end Site

def StatementRule.note (site : Site) : StatementRule → Note
  | .branches => Site.clampNote "ELSEIF" site.wantedBranches site.branchIndices.length
  | .loop => site.modeNote
  | .template _ => none
  | .unknown => site.unknownNote

def StatementRule.lines (site : Site) : StatementRule → List Template.Line
  | .branches => site.branchesLines
  | .loop => site.loopLines
  | .template lines => lines
  | .unknown => site.unknownLines

/-! ## rendering -/

namespace Site
variable (unit : String) (site : Site)

@[simp] theorem renderLines_append (a b : List Template.Line) :
    site.renderLines unit (a ++ b) = (do
      let first ← site.renderLines unit a
      let more ← site.renderLines unit b
      pure (first ++ more)) := by
  induction a with
  | nil => simp only [List.nil_append, renderLines, pure_bind, String.empty_append, bind_pure]
  | cons line rest ih =>
    cases line <;> simp only [List.cons_append, renderLines, ih, bind_assoc, pure_bind, String.append_assoc]

theorem renderLines_headLine (opening socket : String) (required : Precedence) (rest : List Template.Line) :
    site.renderLines unit (headLine opening socket required :: rest) = (do
      let condition ← site.operand unit socket required never
      let more ← site.renderLines unit rest
      pure (opening ++ condition ++ ":\n" ++ more)) := by
  have hcolon : ∀ condition more : String,
      opening ++ (condition ++ (":" ++ "")) ++ "\n" ++ more = opening ++ condition ++ ":\n" ++ more := by
    intro condition more
    simp only [String.append_empty, String.append_assoc]
    rfl
  simp only [headLine, renderLines, render, renderPieces, renderPiece, pure_bind, bind_assoc, hcolon]

theorem renderLines_body (socket : String) :
    site.renderLines unit [.body socket] = site.body unit socket := by
  simp only [renderLines, pure_bind, String.append_empty, bind_pure]

/-! ## rules -/

theorem clampSlots_eq (field : String) (wanted connected : Nat) :
    site.clampSlots field wanted connected = (do
      site.note (clampNote field wanted connected)
      pure (clamped wanted connected)) := by
  by_cases hle : wanted ≤ connected + spareSlots
  · simp only [clampSlots, clampNote, clamped, if_pos hle, Nat.min_eq_left hle]
    rfl
  · simp only [clampSlots, clampNote, clamped, if_neg hle, Nat.min_eq_right (Nat.le_of_not_le hle)]
    rfl

theorem branchList_eq (indices : List Nat) :
    site.branchList unit indices = site.renderLines unit (indices.flatMap branchLines) := by
  induction indices with
  | nil => rfl
  | cons index rest ih =>
    have hkeyword : (if index = 0 then "if" else "elif") ++ " " = if index = 0 then "if " else "elif " := by
      split <;> rfl
    rw [List.flatMap_cons, renderLines_append, ← ih, branchList, branchLines, renderLines_headLine,
      renderLines_body, branch]
    simp only [bind_assoc, pure_bind, hkeyword]

theorem otherwise_eq : site.otherwise unit = site.renderLines unit site.otherwiseLines := by
  unfold Site.otherwise otherwiseLines
  split
  next =>
    have helse : "else:" ++ "\n" = "else:\n" := rfl
    simp only [renderLines, render, renderPieces, renderPiece, pure_bind, bind_assoc, String.append_empty, helse]
  next => rfl

theorem branches_eq :
    site.branches unit = (do
      site.note (clampNote "ELSEIF" site.wantedBranches site.branchIndices.length)
      site.renderLines unit site.branchesLines) := by
  rw [branchesLines, renderLines_append, ← branchList_eq, ← otherwise_eq]
  show (do
    let count ← site.clampSlots "ELSEIF" site.wantedBranches site.branchIndices.length
    let code ← site.branchList unit (List.range count)
    let rest ← site.otherwise unit
    pure (code ++ rest)) = _
  rw [clampSlots_eq]
  simp only [bind_assoc, pure_bind]

theorem loop_eq :
    site.loop unit = (do
      site.note site.modeNote
      site.renderLines unit site.loopLines) := by
  rw [loopLines, renderLines_headLine, renderLines_body]
  cases hmode : Field.text? "MODE" site.fields with
  | none =>
    simp only [Site.loop, modeNote, loopLevel, note, hmode, pure_bind, reduceCtorEq, if_false]
  | some name =>
    by_cases hu : name = "UNTIL"
    · simp only [Site.loop, modeNote, loopLevel, note, hmode, hu, pure_bind, true_or, if_true]
    by_cases hw : name = "WHILE"
    · simp only [Site.loop, modeNote, loopLevel, note, hmode, hw, pure_bind, or_true, if_true]
      rfl
    · simp only [Site.loop, modeNote, loopLevel, note, hmode, Option.some.injEq, hu, hw, or_self, if_false]
      split
      next he => exact absurd (Option.some.inj he) hu
      next =>
        simp only [ne_eq, hw, not_false_eq_true, if_true, pure_bind]

theorem unknownComment_eq : site.unknownComment = unknownMark site.tag site.id ++ "\n" := by
  unfold unknownMark
  rw [String.append_assoc]
  rfl

theorem unknownStatement_eq :
    site.unknownStatement = (do
      site.note site.unknownNote
      site.renderLines unit site.unknownLines) := by
  have hcomment : ∀ comment : String, comment ++ "" ++ "\n" ++ "" = comment ++ "\n" := fun comment => by
    rw [String.append_empty, String.append_empty]
  simp only [unknownLines, renderLines, render, renderPieces, renderPiece, pure_bind, hcomment]
  rw [unknownStatement, unknownComment_eq]
  rfl

end Site

namespace StatementRule
variable (unit : String) (site : Site)

/-- a statement rule makes its report and renders its lines -/
theorem run_eq (rule : StatementRule) :
    rule.run unit site = (do
      site.note (rule.note site)
      site.renderLines unit (rule.lines site)) := by
  cases rule with
  | branches => exact site.branches_eq unit
  | loop => exact site.loop_eq unit
  | template lines => rfl
  | unknown => exact site.unknownStatement_eq unit

theorem effects_eq (rule : StatementRule) :
    rule.effects site = (rule.note site).effects ++ (rule.lines site).flatMap site.lineEffects := by
  cases rule with
  | branches =>
    have hnote : (Site.clampNote "ELSEIF" site.wantedBranches site.branchIndices.length).effects
        = Site.clampEffects "ELSEIF" site.wantedBranches site.branchIndices.length := by
      unfold Site.clampNote Site.clampEffects
      split <;> rfl
    have hotherwise : site.otherwiseLines.flatMap site.lineEffects = site.otherwiseEffects := by
      unfold Site.otherwiseLines Site.otherwiseEffects
      split <;> rfl
    show _ = _ ++ site.branchesLines.flatMap site.lineEffects
    rw [Site.branchesLines, List.flatMap_append, List.flatMap_assoc, hotherwise, note, hnote]
    rfl
  | loop =>
    have hnote : site.modeNote.effects = site.modeEffects := by
      unfold Site.modeNote Site.modeEffects
      cases Field.text? "MODE" site.fields with
      | none => rfl
      | some name => by_cases h : name = "UNTIL" ∨ name = "WHILE" <;> simp only [h, if_true, if_false] <;> rfl
    show _ = site.modeNote.effects ++ _
    rw [hnote]
    rfl
  | template lines => rfl
  | unknown => rfl

/-- a rule that passes the check reads no socket twice -/
theorem nodup_reads {rule : StatementRule} (h : rule.isLinear = true) :
    ((rule.lines site).flatMap Template.Line.reads).Nodup := by
  cases rule with
  | branches =>
    refine (nodup_branchesReads (Site.clamped site.wantedBranches site.branchIndices.length)).sublist ?_
    show (site.branchesLines.flatMap _).Sublist _
    rw [Site.branchesLines, List.flatMap_append, List.flatMap_assoc, branchesReads]
    refine List.Sublist.append (List.Sublist.refl _) ?_
    unfold Site.otherwiseLines
    split
    · exact List.Sublist.refl _
    · exact List.nil_sublist _
  | loop =>
    show [Socket.input "BOOL", .body "DO"].Nodup
    decide
  | template lines => exact of_decide_eq_true h
  | unknown => exact List.nodup_nil

end StatementRule

/-! ## toolchains -/

namespace Toolchain
variable (t : Toolchain) (site : Site)

/-- the statement rule for a tag; a tag without a rule is unknown, and a value has none -/
def statementRule? (tag : String) : Option StatementRule :=
  match t.rule? tag with
  | some (.statement rule) => some rule
  | some (.value _) => none
  | none => some .unknown

/-- the lines of a block as a statement, none if it is a value -/
def lines : List Template.Line := ((t.statementRule? site.tag).map (·.lines site)).getD []

theorem statementOf_eq :
    t.statementOf site = match t.statementRule? site.tag with
      | some rule => rule.run t.options.indent site
      | none => t.valueOf site >>= fun e => pure e.text := by
  unfold statementOf statementRule? valueOf
  cases t.rule? site.tag with
  | none => rfl
  | some rule => cases rule <;> rfl

theorem statementEffects_eq :
    t.statementEffects site = match t.statementRule? site.tag with
      | some rule => rule.effects site
      | none => t.valueEffects site := by
  unfold statementEffects statementRule? valueEffects
  cases t.rule? site.tag with
  | none => rfl
  | some rule => cases rule <;> rfl

end Toolchain

end VisualProgram
