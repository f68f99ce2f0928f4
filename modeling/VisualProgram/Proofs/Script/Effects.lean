import VisualProgram.Script

/-!
# What the rules do, step by step

Whatever session a rule runs from, it takes the same steps: reports, modules it requires, variables it names
and sockets it asks for, all known from the fields of the block and the names of its sockets.  An `Effect` is
one such step, and for every rule its effects are listed in order.  `Noted` is the form of these lists, found by
one case analysis for each kind of rule (`valueRule_noted`, `statementRule_noted`).

`Acts` says that a computation takes the steps of a list and no others; the results are `valueRule_acts`,
`statementRule_acts`, and with them `valueOf_acts` and `statementOf_acts` for a block in either position.
-/

namespace VisualProgram

inductive Effect where
  | report (kind : Diagnostic.Kind) (message : String)
  | require (name : String)
  | identify (name : String)
  /-- a value socket, in a position that asks for `required` -/
  | value (socket : String) (required : Precedence)
  /-- a statement socket -/
  | body (socket : String)
deriving DecidableEq

/-! ## the effects of a rule -/

namespace Site

def selected {α : Type} (site : Site) (field : String) (table : List (String × α)) : Option α :=
  match Field.text? field site.fields with
  | none => table.head?.map Prod.snd
  | some name => (Assoc.get? name table).or (table.head?.map Prod.snd)

def selectEffects {α : Type} (site : Site) (field noun : String) (table : List (String × α)) :
    List Effect :=
  match Field.text? field site.fields with
  | none => []
  | some name =>
    match Assoc.get? name table with
    | some _ => []
    | none => [.report .invalidField ("unknown " ++ noun ++ " '" ++ name ++ "'")]

def operatorEffects (site : Site) (table : OperatorTable) : List Effect :=
  site.selectEffects table.field "operator" table.operators
    ++ match site.selected table.field table.operators with
      | none => []
      | some op => [.value table.leftSocket op.left, .value table.rightSocket op.right]

def functionEffects (site : Site) (table : FunctionTable) : List Effect :=
  site.selectEffects table.field "function" table.forms
    ++ match site.selected table.field table.forms with
      | none => []
      | some form => form.needs.toList.map .require ++ [.value table.socket form.operand]

def numberEffects (site : Site) : List Effect :=
  match Assoc.get? "NUM" site.fields with
  | none => []
  | some (.number _) => []
  | some (.string s) =>
    match numberOfText? s with
    | some _ => []
    | none => [.report .invalidField ("'" ++ s ++ "' is not a number")]
  | some v => [.report .invalidField (v.compact ++ " is not a number")]

def truthEffects (site : Site) : List Effect :=
  match Assoc.get? "BOOL" site.fields with
  | none => []
  | some v =>
    match Field.toFlag? v with
    | some _ => []
    | none => [.report .invalidField (v.compact ++ " is not a boolean")]

/-- the slots that are compiled of those wanted -/
def clamped (wanted connected : Nat) : Nat := min wanted (connected + spareSlots)

def clampEffects (field : String) (wanted connected : Nat) : List Effect :=
  if wanted ≤ connected + spareSlots then []
  else [.report .invalidField (field ++ " asks for " ++ toString wanted ++ " slots, compiling "
    ++ toString (connected + spareSlots))]

/-- what a part of a joined text asks for: text goes in as it is -/
def partLevel (site : Site) (index : Nat) : Precedence :=
  match Assoc.get? (slot "ADD" index) site.inputs with
  | none => .loosest
  | some child => if child.tag = "text" then .sum else .loosest

def wantedParts (site : Site) : Nat :=
  max (site.declaredCount "ITEMS") (pastGreatest (slotIndices "ADD" site.inputs))

def joinEffects (site : Site) : List Effect :=
  clampEffects "ITEMS" site.wantedParts (slotIndices "ADD" site.inputs).length
    ++ (List.range (clamped site.wantedParts (slotIndices "ADD" site.inputs).length)).map fun index =>
      .value (slot "ADD" index) (site.partLevel index)

def pieceEffects (site : Site) : Piece → List Effect
  | .operand socket level _ => [.value socket level]
  | .variableName field => [.identify ((Field.text? field site.fields).getD "item")]
  | _ => []

def lineEffects (site : Site) : Template.Line → List Effect
  | .code template => template.pieces.flatMap site.pieceEffects
  | .body socket => [.body socket]

/-- the numbers of the branches that have something connected -/
def branchIndices (site : Site) : List Nat :=
  (slotIndices "IF" site.inputs ++ slotIndices "DO" site.statements).eraseDups

def wantedBranches (site : Site) : Nat :=
  min (max ((site.branchIndices.max?).getD 0) (site.declaredCount "ELSEIF") + 1) countLimit

def branchEffects (index : Nat) : List Effect := [.value (slot "IF" index) .loosest, .body (slot "DO" index)]

def otherwiseEffects (site : Site) : List Effect :=
  if Assoc.contains "ELSE" site.statements ∨ Field.flag? "HAS_ELSE" site.fields = some true then
    [.body "ELSE"]
  else []

def branchesEffects (site : Site) : List Effect :=
  clampEffects "ELSEIF" site.wantedBranches site.branchIndices.length
    ++ ((List.range (clamped site.wantedBranches site.branchIndices.length)).flatMap branchEffects
      ++ site.otherwiseEffects)

def modeEffects (site : Site) : List Effect :=
  match Field.text? "MODE" site.fields with
  | none => []
  | some name =>
    if name = "UNTIL" ∨ name = "WHILE" then []
    else [.report .invalidField ("unknown loop mode '" ++ name ++ "'")]

/-- what the condition of a loop asks for: one that is negated binds tighter -/
def loopLevel (site : Site) : Precedence :=
  if Field.text? "MODE" site.fields = some "UNTIL" then .negation else .loosest

def loopEffects (site : Site) : List Effect :=
  site.modeEffects ++ [.value "BOOL" site.loopLevel, .body "DO"]

def unknownEffects (site : Site) : List Effect :=
  [.report .unknownBlockType ("unknown block type '" ++ site.tag ++ "'")]

end Site

def ValueRule.effects (site : Site) : ValueRule → List Effect
  | .operator table => site.operatorEffects table
  | .function table => site.functionEffects table
  | .number => site.numberEffects
  | .truth => site.truthEffects
  | .join => site.joinEffects
  | .template form => form.pieces.flatMap site.pieceEffects
  | .staged stages => stages.flatMap fun stage => stage.pieces.flatMap site.pieceEffects
  | .unknown => site.unknownEffects

def StatementRule.effects (site : Site) : StatementRule → List Effect
  | .branches => site.branchesEffects
  | .loop => site.loopEffects
  | .template lines => lines.flatMap site.lineEffects
  | .unknown => site.unknownEffects

namespace Toolchain

def valueEffects (t : Toolchain) (site : Site) : List Effect :=
  match t.rule? site.tag with
  | some (.value rule) => rule.effects site
  | some (.statement _) => [.report .misplacedBlock ("statement block '" ++ site.tag ++ "' used as a value")]
  | none => site.unknownEffects

def statementEffects (t : Toolchain) (site : Site) : List Effect :=
  match t.rule? site.tag with
  | some (.statement rule) => rule.effects site
  | some (.value rule) => rule.effects site
  | none => site.unknownEffects

end Toolchain

/-! ## one report at most -/

/-- at most one report, which tells of the block and comes first; the other effects are as `p` says -/
inductive Noted (p : Effect → Prop) : List Effect → Prop where
  | quiet {steps : List Effect} (h : ∀ e ∈ steps, p e) : Noted p steps
  | report {kind : Diagnostic.Kind} (hnode : kind ≠ .unresolvedComponentType) (hstate : kind ≠ .invalidScriptState)
    (message : String) {steps : List Effect} (h : ∀ e ∈ steps, p e) : Noted p (.report kind message :: steps)

namespace Noted
variable {p : Effect → Prop} {a b : List Effect}

theorem append (ha : Noted p a) (hb : ∀ e ∈ b, p e) : Noted p (a ++ b) := by
  cases ha with
  | quiet h => exact .quiet (List.forall_mem_append.mpr ⟨h, hb⟩)
  | report hnode hstate message h => exact .report hnode hstate message (List.forall_mem_append.mpr ⟨h, hb⟩)

theorem all (h : Noted p a) (hreport : ∀ kind message, kind ≠ .unresolvedComponentType → kind ≠ .invalidScriptState →
    p (.report kind message)) : ∀ e ∈ a, p e := by
  cases h with
  | quiet h => exact h
  | report hnode hstate message h => exact List.forall_mem_cons.mpr ⟨hreport _ message hnode hstate, h⟩

theorem nil : Noted p [] := .quiet (List.forall_mem_nil _)

theorem invalidField (message : String) : Noted p [.report .invalidField message] :=
  .report (by decide) (by decide) message (List.forall_mem_nil _)

end Noted

/-- the templates of a rule; the other rules are made of tables -/
def ValueRule.templates : ValueRule → List Template
  | .template form => [form]
  | .staged stages => stages
  | _ => []

def Template.Line.template? : Template.Line → Option Template
  | .code template => some template
  | .body _ => none

def StatementRule.templates : StatementRule → List Template
  | .template lines => lines.filterMap Template.Line.template?
  | _ => []

/-- what the variables named in a template are to satisfy -/
def Template.Names (p : Effect → Prop) (template : Template) : Prop :=
  ∀ field, .variableName field ∈ template.pieces → ∀ name, p (.identify name)

namespace Site
variable {site : Site} {p : Effect → Prop}

theorem selectEffects_noted {α : Type} (field noun : String) (table : List (String × α)) :
    Noted p (site.selectEffects field noun table) := by
  unfold selectEffects
  split
  · exact .nil
  · split
    · exact .nil
    · exact .invalidField _

theorem clampEffects_noted (field : String) (wanted connected : Nat) :
    Noted p (clampEffects field wanted connected) := by
  unfold clampEffects
  split
  · exact .nil
  · exact .invalidField _

theorem numberEffects_noted : Noted p site.numberEffects := by
  unfold numberEffects
  split
  · exact .nil
  · exact .nil
  · split
    · exact .nil
    · exact .invalidField _
  · exact .invalidField _

theorem truthEffects_noted : Noted p site.truthEffects := by
  unfold truthEffects
  split
  · exact .nil
  · split
    · exact .nil
    · exact .invalidField _

theorem unknownEffects_noted : Noted p site.unknownEffects :=
  .report (by decide) (by decide) _ (List.forall_mem_nil _)

variable (hvalue : ∀ socket level, p (.value socket level))
include hvalue

theorem forall_pieces {template : Template} (hnames : template.Names p) :
    ∀ e ∈ template.pieces.flatMap site.pieceEffects, p e := by
  intro e he
  obtain ⟨piece, hpiece, he⟩ := List.mem_flatMap.mp he
  cases piece with
  | operand socket level fallback =>
    rw [List.mem_singleton.mp he]
    exact hvalue socket level
  | variableName field =>
    rw [List.mem_singleton.mp he]
    exact hnames field hpiece _
  | _ => cases he

/-- the one case analysis of value rules: a report, then modules, sockets and names -/
theorem valueRule_noted (hrequire : ∀ name, p (.require name)) {rule : ValueRule}
    (hnames : ∀ template ∈ rule.templates, template.Names p) : Noted p (rule.effects site) := by
  cases rule with
  | operator table =>
    refine (selectEffects_noted _ _ _).append ?_
    cases site.selected table.field table.operators with
    | none => exact List.forall_mem_nil _
    | some op => exact List.forall_mem_cons.mpr ⟨hvalue _ _, List.forall_mem_singleton.mpr (hvalue _ _)⟩
  | function table =>
    refine (selectEffects_noted _ _ _).append ?_
    cases site.selected table.field table.forms with
    | none => exact List.forall_mem_nil _
    | some form =>
      refine List.forall_mem_append.mpr ⟨?_, List.forall_mem_singleton.mpr (hvalue _ _)⟩
      exact List.forall_mem_map.mpr fun name _ => hrequire name
  | number => exact numberEffects_noted
  | truth => exact truthEffects_noted
  | join => exact (clampEffects_noted _ _ _).append (List.forall_mem_map.mpr fun _ _ => hvalue _ _)
  | template form => exact .quiet (forall_pieces hvalue (hnames form List.mem_cons_self))
  | staged stages =>
    refine .quiet fun e he => ?_
    obtain ⟨stage, hstage, he⟩ := List.mem_flatMap.mp he
    exact forall_pieces hvalue (hnames stage hstage) e he
  | unknown => exact unknownEffects_noted

/-- the same for statement rules, which have bodies -/
theorem statementRule_noted (hbody : ∀ socket, p (.body socket)) {rule : StatementRule}
    (hnames : ∀ template ∈ rule.templates, template.Names p) : Noted p (rule.effects site) := by
  cases rule with
  | branches =>
    refine (clampEffects_noted _ _ _).append (List.forall_mem_append.mpr ⟨?_, ?_⟩)
    · intro e he
      obtain ⟨index, -, he⟩ := List.mem_flatMap.mp he
      exact List.forall_mem_cons.mpr ⟨hvalue _ _, List.forall_mem_singleton.mpr (hbody _)⟩ e he
    · unfold otherwiseEffects
      split
      · exact List.forall_mem_singleton.mpr (hbody _)
      · exact List.forall_mem_nil _
  | loop =>
    have hmode : Noted p site.modeEffects := by
      unfold modeEffects
      split
      · exact .nil
      · split
        · exact .nil
        · exact .invalidField _
    exact hmode.append (List.forall_mem_cons.mpr ⟨hvalue _ _, List.forall_mem_singleton.mpr (hbody _)⟩)
  | template lines =>
    refine .quiet fun e he => ?_
    obtain ⟨line, hline, he⟩ := List.mem_flatMap.mp he
    cases line with
    | code template =>
      exact forall_pieces hvalue (hnames template (List.mem_filterMap.mpr ⟨_, hline, rfl⟩)) e he
    | body socket =>
      rw [List.mem_singleton.mp he]
      exact hbody socket
  | unknown => exact unknownEffects_noted

variable (hrequire : ∀ name, p (.require name)) (hidentify : ∀ name, p (.identify name))
include hrequire hidentify

theorem valueEffects_noted (t : Toolchain) : Noted p (t.valueEffects site) := by
  unfold Toolchain.valueEffects
  split
  · exact valueRule_noted hvalue hrequire fun _ _ _ _ => hidentify
  · exact .report (by decide) (by decide) _ (List.forall_mem_nil _)
  · exact unknownEffects_noted

theorem statementEffects_noted (hbody : ∀ socket, p (.body socket)) (t : Toolchain) :
    Noted p (t.statementEffects site) := by
  unfold Toolchain.statementEffects
  split
  · exact statementRule_noted hvalue hbody fun _ _ _ _ => hidentify
  · exact valueRule_noted hvalue hrequire fun _ _ _ _ => hidentify
  · exact unknownEffects_noted

end Site

/-! ## taking the steps -/

namespace Site

def act (site : Site) (s : Session) : Effect → Session
  | .report kind message => s.report ⟨site.id, kind, message⟩
  | .require name => s.require name
  | .identify name => (s.identify name).2
  | .value socket required =>
    (Assoc.get? socket site.inputs).elim s fun child => ((child.value required).run s).2
  | .body socket => (Assoc.get? socket site.statements).elim s fun child => (child.chain.run s).2

def perform (site : Site) (s : Session) (effects : List Effect) : Session := effects.foldl site.act s

@[simp] theorem perform_append (site : Site) (s : Session) (a b : List Effect) :
    site.perform s (a ++ b) = site.perform (site.perform s a) b := List.foldl_append

/-- from whatever session, the computation takes the steps listed, and its result is as `post` says -/
def Acts {α : Type} (site : Site) (m : Script α) (effects : List Effect) (post : α → Prop) : Prop :=
  ∀ s : Session, (m.run s).2 = site.perform s effects ∧ post (m.run s).1

/-- nothing is said of the result -/
def Any {α : Type} : α → Prop := fun _ => True

namespace Acts
variable {α β : Type} {site : Site} {a b : List Effect} {P : α → Prop} {Q : β → Prop}

theorem pure {x : α} (h : P x) : Acts site (Pure.pure x) [] P := fun _ => ⟨rfl, h⟩

theorem bind {m : Script α} {k : α → Script β} (hm : Acts site m a P)
    (hk : ∀ x, P x → Acts site (k x) b Q) : Acts site (m >>= k) (a ++ b) Q := by
  intro s
  obtain ⟨hs, hp⟩ := hm s
  obtain ⟨hs', hq⟩ := hk _ hp (m.run s).2
  refine ⟨?_, hq⟩
  rw [perform_append, ← hs]
  exact hs'

/-- a last step that only works on the result -/
theorem map {m : Script α} (f : α → β) (hm : Acts site m a P) (h : ∀ x, P x → Q (f x)) :
    Acts site (m >>= fun x => Pure.pure (f x)) a Q :=
  fun s => ⟨(hm s).1, h _ (hm s).2⟩

end Acts

section
variable (site : Site) (unit : String)

theorem report_acts (kind : Diagnostic.Kind) (message : String) :
    Acts site (site.report kind message) [.report kind message] Any := fun _ => ⟨rfl, trivial⟩

/-- a socket that is asked for once, and what stands for it if it is empty -/
theorem asked_acts {α β : Type} {effect : Effect} {held : Option Child} {ask : Child → Script β}
    (hact : ∀ s, site.act s effect = held.elim s fun child => ((ask child).run s).2) (x : α)
    (f : Child → β → α) :
    Acts site (held.elim (Pure.pure x) fun child => ask child >>= fun y => Pure.pure (f child y)) [effect]
      Any := by
  intro s
  refine ⟨?_, trivial⟩
  show _ = site.act s effect
  rw [hact]
  cases held <;> rfl

theorem operand_acts (socket : String) (required : Precedence) (fallback : Fallback) :
    Acts site (site.operand unit socket required fallback) [.value socket required] Any := by
  have hform : site.operand unit socket required fallback = (Assoc.get? socket site.inputs).elim
      (Pure.pure ((fallback.toExpr unit).place required).text)
      fun child => child.value required >>= fun e => Pure.pure e.text := by
    unfold operand
    cases Assoc.get? socket site.inputs <;> rfl
  rw [hform]
  exact site.asked_acts (fun _ => rfl) _ _

theorem body_acts (socket : String) : Acts site (site.body unit socket) [.body socket] Any := by
  have hform : site.body unit socket = (Assoc.get? socket site.statements).elim
      (Pure.pure (asBody unit "")) fun child => child.chain >>= fun code => Pure.pure (asBody unit code) := by
    unfold body
    cases Assoc.get? socket site.statements <;> rfl
  rw [hform]
  exact site.asked_acts (fun _ => rfl) _ _

/-! ## values -/

theorem select_acts {α : Type} (field noun : String) (table : List (String × α)) :
    Acts site (site.select field noun table) (site.selectEffects field noun table)
      (· = site.selected field table) := by
  cases htext : Field.text? field site.fields with
  | none =>
    simp only [select, selectEffects, selected, htext]
    exact .pure rfl
  | some name =>
    cases hget : Assoc.get? name table with
    | some entry =>
      simp only [select, selectEffects, selected, htext, hget]
      exact .pure rfl
    | none =>
      simp only [select, selectEffects, selected, htext, hget]
      exact (site.report_acts _ _).map _ fun _ _ => rfl

theorem operator_acts (table : OperatorTable) :
    Acts site (site.operator unit table) (site.operatorEffects table) Any := by
  refine (site.select_acts table.field "operator" table.operators).bind ?_
  rintro _ rfl
  cases site.selected table.field table.operators with
  | none => exact .pure trivial
  | some op =>
    refine (site.operand_acts unit table.leftSocket op.left table.fallback).bind fun left _ => ?_
    exact (site.operand_acts unit table.rightSocket op.right table.fallback).map _ fun _ _ => trivial

theorem require_acts (needs : Option String) :
    Acts site (Site.require needs) (needs.toList.map .require) Any := by
  cases needs with
  | none => exact .pure trivial
  | some name => exact fun _ => ⟨rfl, trivial⟩

theorem function_acts (table : FunctionTable) :
    Acts site (site.function unit table) (site.functionEffects table) Any := by
  refine (site.select_acts table.field "function" table.forms).bind ?_
  rintro _ rfl
  cases site.selected table.field table.forms with
  | none => exact .pure trivial
  | some form =>
    refine (site.require_acts form.needs).bind fun _ _ => ?_
    exact (site.operand_acts unit table.socket form.operand table.fallback).map _ fun _ _ => trivial

/-- a field that cannot be interpreted is reported, and its default is taken -/
theorem reported_acts {α : Type} (kind : Diagnostic.Kind) (message : String) (x : α) :
    Acts site (site.report kind message >>= fun _ => Pure.pure x) [.report kind message] Any :=
  (site.report_acts kind message).map _ fun _ _ => trivial

theorem number_acts : Acts site site.number site.numberEffects Any := by
  cases hget : Assoc.get? "NUM" site.fields with
  | none =>
    simp only [number, numberEffects, hget]
    exact .pure trivial
  | some v =>
    cases v with
    | number n =>
      simp only [number, numberEffects, hget]
      exact .pure trivial
    | string text =>
      cases hnumber : numberOfText? text with
      | none =>
        simp only [number, numberEffects, hget, hnumber]
        exact site.reported_acts _ _ _
      | some digits =>
        simp only [number, numberEffects, hget, hnumber]
        exact .pure trivial
    | _ =>
      simp only [number, numberEffects, hget]
      exact site.reported_acts _ _ _

theorem truth_acts : Acts site site.truth site.truthEffects Any := by
  cases hget : Assoc.get? "BOOL" site.fields with
  | none =>
    simp only [truth, truthEffects, hget]
    exact .pure trivial
  | some v =>
    cases hflag : Field.toFlag? v with
    | none =>
      simp only [truth, truthEffects, hget, hflag]
      exact site.reported_acts _ _ _
    | some b =>
      simp only [truth, truthEffects, hget, hflag]
      exact .pure trivial

theorem clampSlots_acts (field : String) (wanted connected : Nat) :
    Acts site (site.clampSlots field wanted connected) (clampEffects field wanted connected)
      (· = clamped wanted connected) := by
  by_cases hle : wanted ≤ connected + spareSlots
  · simp only [clampSlots, clampEffects, if_pos hle]
    exact .pure (Nat.min_eq_left hle).symm
  · simp only [clampSlots, clampEffects, if_neg hle]
    exact (site.report_acts _ _).map _ fun _ _ => (Nat.min_eq_right (by omega)).symm

theorem joinPart_acts (index : Nat) :
    Acts site (site.joinPart index) [.value (slot "ADD" index) (site.partLevel index)] Any := by
  have hform : site.joinPart index = (Assoc.get? (slot "ADD" index) site.inputs).elim
      (Pure.pure (.atom "\"\"")) fun child => child.value (site.partLevel index) >>= fun e =>
        Pure.pure (if child.tag = "text" then e else ⟨"str(" ++ e.text ++ ")", .call⟩) := by
    unfold joinPart partLevel
    cases Assoc.get? (slot "ADD" index) site.inputs with
    | none => rfl
    | some child => by_cases htext : child.tag = "text" <;> simp [htext]
  rw [hform]
  exact site.asked_acts (fun _ => rfl) _ _

theorem joinParts_acts (indices : List Nat) :
    Acts site (site.joinParts indices)
      (indices.map fun index => .value (slot "ADD" index) (site.partLevel index)) Any := by
  induction indices with
  | nil => exact .pure trivial
  | cons index rest ih =>
    exact (site.joinPart_acts index).bind fun part _ => ih.map _ fun _ _ => trivial

theorem join_acts : Acts site site.join site.joinEffects Any := by
  refine (site.clampSlots_acts "ITEMS" site.wantedParts _).bind ?_
  rintro _ rfl
  exact (site.joinParts_acts _).map _ fun _ _ => trivial

/-! ## templates -/

theorem renderPiece_acts (previous : Option Expr) (piece : Piece) :
    Acts site (site.renderPiece unit previous piece) (site.pieceEffects piece) Any := by
  cases piece with
  | operand socket level fallback => exact site.operand_acts unit socket level fallback
  | variableName field => exact fun _ => ⟨rfl, trivial⟩
  | previous level => cases previous <;> exact .pure trivial
  | _ => exact .pure trivial

theorem renderPieces_acts (previous : Option Expr) (pieces : List Piece) :
    Acts site (site.renderPieces unit previous pieces) (pieces.flatMap site.pieceEffects) Any := by
  induction pieces with
  | nil => exact .pure trivial
  | cons piece rest ih =>
    exact (site.renderPiece_acts unit previous piece).bind fun _ _ => ih.map _ fun _ _ => trivial

theorem render_acts (previous : Option Expr) (template : Template) :
    Acts site (site.render unit previous template) (template.pieces.flatMap site.pieceEffects) Any :=
  (site.renderPieces_acts unit previous template.pieces).map _ fun _ _ => trivial

theorem renderStages_acts (previous : Option Expr) (stages : List Template) :
    Acts site (site.renderStages unit previous stages)
      (stages.flatMap fun stage => stage.pieces.flatMap site.pieceEffects) Any := by
  induction stages generalizing previous with
  | nil => exact .pure trivial
  | cons stage rest ih => exact (site.render_acts unit previous stage).bind fun e _ => ih (some e)

theorem renderLines_acts (lines : List Template.Line) :
    Acts site (site.renderLines unit lines) (lines.flatMap site.lineEffects) Any := by
  induction lines with
  | nil => exact .pure trivial
  | cons line rest ih =>
    cases line with
    | code template =>
      exact (site.render_acts unit none template).bind fun _ _ => ih.map _ fun _ _ => trivial
    | body socket => exact (site.body_acts unit socket).bind fun _ _ => ih.map _ fun _ _ => trivial

/-! ## statements -/

theorem branch_acts (index : Nat) : Acts site (site.branch unit index) (branchEffects index) Any := by
  refine (site.operand_acts unit (slot "IF" index) .loosest never).bind fun _ _ => ?_
  exact (site.body_acts unit (slot "DO" index)).map _ fun _ _ => trivial

theorem branchList_acts (indices : List Nat) :
    Acts site (site.branchList unit indices) (indices.flatMap branchEffects) Any := by
  induction indices with
  | nil => exact .pure trivial
  | cons index rest ih =>
    exact (site.branch_acts unit index).bind fun _ _ => ih.map _ fun _ _ => trivial

theorem otherwise_acts : Acts site (site.otherwise unit) site.otherwiseEffects Any := by
  by_cases helse : Assoc.contains "ELSE" site.statements ∨ Field.flag? "HAS_ELSE" site.fields = some true
  · simp only [Site.otherwise, otherwiseEffects, if_pos helse]
    exact (site.body_acts unit "ELSE").map _ fun _ _ => trivial
  · simp only [Site.otherwise, otherwiseEffects, if_neg helse]
    exact .pure trivial

theorem branches_acts : Acts site (site.branches unit) site.branchesEffects Any := by
  refine (site.clampSlots_acts "ELSEIF" site.wantedBranches _).bind ?_
  rintro _ rfl
  refine (site.branchList_acts unit _).bind fun _ _ => ?_
  exact (site.otherwise_acts unit).map _ fun _ _ => trivial

theorem loop_acts : Acts site (site.loop unit) site.loopEffects Any := by
  have hwhile : ∀ (level : Precedence) (opening : String), Acts site (do
      let condition ← site.operand unit "BOOL" level never
      let header ← Pure.pure (opening ++ condition ++ ":\n")
      let body ← site.body unit "DO"
      Pure.pure (header ++ body)) [.value "BOOL" level, .body "DO"] Any := fun level opening =>
    (site.operand_acts unit "BOOL" level never).bind fun _ _ =>
      (site.body_acts unit "DO").map _ fun _ _ => trivial
  cases hmode : Field.text? "MODE" site.fields with
  | none =>
    simp only [Site.loop, loopEffects, modeEffects, loopLevel, hmode]
    exact hwhile .loosest "while "
  | some name =>
    by_cases hu : name = "UNTIL"
    · simp only [Site.loop, loopEffects, modeEffects, loopLevel, hmode, hu]
      exact hwhile .negation "while not "
    by_cases hw : name = "WHILE"
    · simp only [Site.loop, loopEffects, modeEffects, loopLevel, hmode, hw]
      exact hwhile .loosest "while "
    simp only [Site.loop, loopEffects, modeEffects, loopLevel, hmode, Option.some.injEq, hu, hw, or_self,
      if_false]
    split
    next he => exact absurd (Option.some.inj he) hu
    next =>
      simp only [ne_eq, hw, not_false_eq_true, if_true]
      exact (site.report_acts _ _).bind fun _ _ => hwhile .loosest "while "

theorem unknownValue_acts : Acts site site.unknownValue site.unknownEffects Any :=
  (site.report_acts _ _).map _ fun _ _ => trivial

theorem unknownStatement_acts : Acts site site.unknownStatement site.unknownEffects Any :=
  (site.report_acts _ _).map _ fun _ _ => trivial

/-! ## rules -/

theorem valueRule_acts (rule : ValueRule) : Acts site (rule.run unit site) (rule.effects site) Any := by
  cases rule with
  | operator table => exact site.operator_acts unit table
  | function table => exact site.function_acts unit table
  | number => exact site.number_acts
  | truth => exact site.truth_acts
  | join => exact site.join_acts
  | template form => exact site.render_acts unit none form
  | staged stages => exact site.renderStages_acts unit none stages
  | unknown => exact site.unknownValue_acts

theorem statementRule_acts (rule : StatementRule) :
    Acts site (rule.run unit site) (rule.effects site) Any := by
  cases rule with
  | branches => exact site.branches_acts unit
  | loop => exact site.loop_acts unit
  | template lines => exact site.renderLines_acts unit lines
  | unknown => exact site.unknownStatement_acts

end

theorem valueOf_acts (t : Toolchain) (site : Site) : Acts site (t.valueOf site) (t.valueEffects site) Any := by
  cases hrule : t.rule? site.tag with
  | none =>
    simp only [Toolchain.valueOf, Toolchain.valueEffects, hrule]
    exact site.unknownValue_acts
  | some rule =>
    cases rule with
    | value rule =>
      simp only [Toolchain.valueOf, Toolchain.valueEffects, hrule]
      exact site.valueRule_acts _ rule
    | statement rule =>
      simp only [Toolchain.valueOf, Toolchain.valueEffects, hrule]
      exact site.reported_acts _ _ _

theorem statementOf_acts (t : Toolchain) (site : Site) :
    Acts site (t.statementOf site) (t.statementEffects site) Any := by
  cases hrule : t.rule? site.tag with
  | none =>
    simp only [Toolchain.statementOf, Toolchain.statementEffects, hrule]
    exact site.unknownStatement_acts
  | some rule =>
    cases rule with
    | value rule =>
      simp only [Toolchain.statementOf, Toolchain.statementEffects, hrule]
      exact (site.valueRule_acts _ rule).map _ fun _ _ => trivial
    | statement rule =>
      simp only [Toolchain.statementOf, Toolchain.statementEffects, hrule]
      exact site.statementRule_acts _ rule

end Site
end VisualProgram
