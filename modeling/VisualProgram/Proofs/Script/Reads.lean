import VisualProgram.Proofs.Identifier.Scopes
import VisualProgram.Proofs.Script.Families
import Mathlib.Data.List.Nodup

/-!
# What the rules read

`Sites` is a family of blocks as their rules see them: one id and one set of fields, with a family of
children in each socket.  For every rule the sockets it reads are listed, and its code `Draws` them
(`valueRule_varies`, `statementRule_varies`).  A rule that passes a check (`isLinear`) reads no socket twice,
which holds of every standard rule.
-/

namespace VisualProgram

/-! ## lists of sockets -/

/-- the sockets a piece reads, if the stage before has read those in `before` -/
def Piece.reads (before : List Socket) : Piece → List Socket
  | .operand socket _ _ => [.input socket]
  | .previous _ => before
  | _ => []

def Template.reads (before : List Socket) (template : Template) : List Socket :=
  template.pieces.flatMap (Piece.reads before)

def Template.stageReads (before : List Socket) : List Template → List Socket
  | [] => before
  | stage :: rest => stageReads (stage.reads before) rest

def Template.Line.reads : Template.Line → List Socket
  | .code template => template.reads []
  | .body socket => [.body socket]

def ValueRule.isLinear : ValueRule → Bool
  | .operator table => table.leftSocket ≠ table.rightSocket
  | .template form => (form.reads []).Nodup
  | .staged stages => (Template.stageReads [] stages).Nodup
  | _ => true

def StatementRule.isLinear : StatementRule → Bool
  | .template lines => (lines.flatMap Template.Line.reads).Nodup
  | _ => true

def Rule.isLinear : Rule → Bool
  | .value rule => rule.isLinear
  | .statement rule => rule.isLinear

theorem standard_linear : Rule.Standard.table.all (fun entry => entry.2.isLinear) = true := by decide

/-! ## numbered sockets -/

theorem slot_injective (stem : String) : Function.Injective (Site.slot stem) :=
  append_toString_injective stem

/-- the sockets of a joined text -/
def joinReads (count : Nat) : List Socket := (List.range count).map fun index => .input (Site.slot "ADD" index)

theorem nodup_joinReads (count : Nat) : (joinReads count).Nodup := by
  refine List.nodup_range.map fun a b h => slot_injective "ADD" ?_
  injection h

def branchReads (index : Nat) : List Socket :=
  [.input (Site.slot "IF" index), .body (Site.slot "DO" index)]

/-- the sockets of branches and of what is done otherwise -/
def branchesReads (count : Nat) : List Socket :=
  (List.range count).flatMap branchReads ++ [.body "ELSE"]

theorem nodup_branchesReads (count : Nat) : (branchesReads count).Nodup := by
  have hother : ∀ index, Site.slot "DO" index ≠ "ELSE" := by
    intro index h
    have hlist := congrArg String.toList h
    rw [Site.slot, String.toList_append] at hlist
    exact absurd (List.cons.inj hlist).1 (by decide)
  refine List.nodup_append.mpr ⟨List.nodup_flatMap.mpr ⟨fun _ _ => by simp [branchReads], ?_⟩,
    List.nodup_singleton _, ?_⟩
  · refine List.nodup_range.imp fun {a b} hab r ha hb => hab ?_
    simp only [branchReads, List.mem_cons, List.not_mem_nil, or_false] at ha hb
    rcases ha with rfl | rfl
    · exact slot_injective "IF" (by simpa using hb)
    · exact slot_injective "DO" (by simpa using hb)
  · rintro r hr s hs rfl
    obtain ⟨index, -, hindex⟩ := List.mem_flatMap.mp hr
    rw [List.mem_singleton.mp hs] at hindex
    simp only [branchReads, List.mem_cons, List.not_mem_nil, or_false, reduceCtorEq, false_or,
      Socket.body.injEq] at hindex
    exact hother index hindex.symm

/-! ## families of sites -/

/-- a family of blocks as their rules see them -/
structure Sites (ι : Type) where
  id : String
  tag : ι → String
  fields : List (String × Json)
  inputs : List (String × (ι → Child))
  statements : List (String × (ι → Child))

namespace Sites
variable {ι κ : Type}

def site (S : Sites ι) (i : ι) : Site :=
  ⟨S.id, S.tag i, S.fields, S.inputs.map fun e => (e.1, e.2 i), S.statements.map fun e => (e.1, e.2 i)⟩

/-- each socket draws what it gives from itself, and tags do not show in what `key` tells -/
structure Coherent (key : Diagnostic → κ) (text : ι → String) (live : Socket → Bool) (S : Sites ι) :
    Prop where
  inputs : ∀ e ∈ S.inputs, ∀ required,
    Varies key (fun i => (e.2 i).value required) (DrawsExpr text live [.input e.1])
  bodies : ∀ e ∈ S.statements, Varies key (fun i => (e.2 i).chain) (Draws text live [.body e.1])
  tags : ∀ (kind : Diagnostic.Kind) (message : String → String) (i j : ι),
    key ⟨S.id, kind, message (S.tag i)⟩ = key ⟨S.id, kind, message (S.tag j)⟩

section
variable {key : Diagnostic → κ} {text : ι → String} {live : Socket → Bool} {S : Sites ι}

/-- what is in a value socket is a text for all indices or for none -/
def TextApart (S : Sites ι) : Prop :=
  ∀ e ∈ S.inputs, (∀ i, (e.2 i).tag = "text") ∨ ∀ i, (e.2 i).tag ≠ "text"

theorem report_varies {kind : Diagnostic.Kind} {message : ι → String}
    (h : ∀ i j, key ⟨S.id, kind, message i⟩ = key ⟨S.id, kind, message j⟩) :
    Varies key (fun i => (S.site i).report kind (message i)) Still :=
  fun _ hσ => ⟨still_const _, fun i j => (hσ i j).report (h i j)⟩

theorem operand_varies (hS : S.Coherent key text live) (unit socket : String) (required : Precedence)
    (fallback : Fallback) :
    Varies key (fun i => (S.site i).operand unit socket required fallback)
      (Draws text live [.input socket]) := by
  have hget : ∀ i, Assoc.get? socket (S.site i).inputs = (Assoc.get? socket S.inputs).map (· i) :=
    fun i => Assoc.get?_map (fun child : ι → Child => child i) socket S.inputs
  simp only [Site.operand, hget]
  cases hsocket : Assoc.get? socket S.inputs with
  | none => exact .pure (draws_const _)
  | some child => exact (hS.inputs _ (Assoc.mem_of_get? hsocket) required).map fun _ he => he.text

theorem body_varies (hS : S.Coherent key text live) (unit socket : String) :
    Varies key (fun i => (S.site i).body unit socket) (Draws text live [.body socket]) := by
  have hget : ∀ i, Assoc.get? socket (S.site i).statements
      = (Assoc.get? socket S.statements).map (· i) :=
    fun i => Assoc.get?_map (fun child : ι → Child => child i) socket S.statements
  simp only [Site.body, hget]
  cases hsocket : Assoc.get? socket S.statements with
  | none => exact .pure (draws_const _)
  | some child =>
    exact (hS.bodies _ (Assoc.mem_of_get? hsocket)).map fun _ hf => hf.through (keeps_asBody unit)

/-! ## operators and functions -/

theorem select_varies {α : Type} (field noun : String) (table : List (String × α)) :
    Varies key (fun i => (S.site i).select field noun table) Still := by
  have hfields : ∀ i, (S.site i).fields = S.fields := fun _ => rfl
  simp only [Site.select, hfields]
  split
  · exact .pure (still_const _)
  · split
    · exact .pure (still_const _)
    · exact (report_varies fun _ _ => rfl).bind_still fun _ => .pure (still_const _)

theorem operator_varies (hS : S.Coherent key text live) (unit : String) (table : OperatorTable) :
    Varies key (fun i => (S.site i).operator unit table)
      (DrawsExpr text live [.input table.leftSocket, .input table.rightSocket]) := by
  refine (select_varies _ _ _).bind_still fun selected => ?_
  cases selected with
  | none => exact .pure (drawsExpr_const _)
  | some op =>
    refine (operand_varies hS _ _ _ _).bind fun left hleft => ?_
    refine (operand_varies hS _ _ _ _).map fun right hright => ⟨still_const _, ?_⟩
    have hsymbol := hleft.surround "" op.symbol
    simp only [String.empty_append] at hsymbol
    exact hsymbol.append hright

theorem function_varies (hS : S.Coherent key text live) (unit : String) (table : FunctionTable) :
    Varies key (fun i => (S.site i).function unit table) (DrawsExpr text live [.input table.socket]) := by
  refine (select_varies _ _ _).bind_still fun selected => ?_
  cases selected with
  | none => exact .pure (drawsExpr_const _)
  | some form =>
    refine (Varies.require form.needs).bind_still fun _ => ?_
    exact (operand_varies hS _ _ _ _).map fun operand h => ⟨still_const _, h.surround _ _⟩

/-! ## numbers and truth values -/

theorem number_varies : Varies key (fun i => (S.site i).number) (DrawsExpr text live []) := by
  have hfields : ∀ i, (S.site i).fields = S.fields := fun _ => rfl
  have hreport : ∀ (message : String), Varies key (fun i => do
      (S.site i).report .invalidField message
      Pure.pure (Site.signed "0")) (DrawsExpr text live []) := fun message =>
    (report_varies fun _ _ => rfl).bind_still fun _ => .pure (drawsExpr_const _)
  simp only [Site.number, hfields]
  split
  · exact .pure (drawsExpr_const _)
  · exact .pure (drawsExpr_const _)
  · split
    · exact .pure (drawsExpr_const _)
    · exact hreport _
  · exact hreport _

theorem truth_varies : Varies key (fun i => (S.site i).truth) (DrawsExpr text live []) := by
  have hfields : ∀ i, (S.site i).fields = S.fields := fun _ => rfl
  simp only [Site.truth, hfields]
  split
  · exact .pure (drawsExpr_const _)
  · split
    · exact .pure (drawsExpr_const _)
    · exact (report_varies fun _ _ => rfl).bind_still fun _ => .pure (drawsExpr_const _)

/-! ## templates -/

section
variable (before : List Socket) (previous : Option (ι → Expr))

theorem renderPiece_varies (hS : S.Coherent key text live) (unit : String)
    (hp : ∀ e, previous = some e → DrawsExpr text live before e) (piece : Piece) :
    Varies key (fun i => (S.site i).renderPiece unit (previous.map (· i)) piece)
      (Draws text live (piece.reads before)) := by
  cases piece with
  | text fixed => exact .pure (draws_const _)
  | operand socket level fallback => exact operand_varies hS unit socket level fallback
  | field name default =>
    exact .pure (draws_of_still ⟨Literal.render unit 0 ((Assoc.get? name S.fields).getD default),
      fun _ => rfl⟩)
  | identifier name default =>
    exact .pure (draws_of_still ⟨Identifier.ofLabel default ((Field.text? name S.fields).getD default) "",
      fun _ => rfl⟩)
  | variableName field =>
    show Varies key (fun _ => modifyGet (Session.identify ((Field.text? field S.fields).getD "item"))) _
    exact (Varies.identify _).imp fun _ h => draws_of_still h
  | previous level =>
    cases previous with
    | none => exact .pure (draws_const _)
    | some e => exact .pure ((hp e rfl).place level).text

theorem renderPieces_varies (hS : S.Coherent key text live) (unit : String)
    (hp : ∀ e, previous = some e → DrawsExpr text live before e) (pieces : List Piece) :
    Varies key (fun i => (S.site i).renderPieces unit (previous.map (· i)) pieces)
      (Draws text live (pieces.flatMap (Piece.reads before))) := by
  induction pieces with
  | nil => exact .pure (draws_const _)
  | cons piece rest ih =>
    refine (renderPiece_varies before previous hS unit hp piece).bind fun first hfirst => ?_
    exact ih.map fun more hmore => hfirst.append hmore

theorem render_varies (hS : S.Coherent key text live) (unit : String)
    (hp : ∀ e, previous = some e → DrawsExpr text live before e) (template : Template) :
    Varies key (fun i => (S.site i).render unit (previous.map (· i)) template)
      (DrawsExpr text live (template.reads before)) :=
  (renderPieces_varies before previous hS unit hp template.pieces).map fun _ h => ⟨still_const _, h⟩

theorem renderStages_varies (hS : S.Coherent key text live) (unit : String)
    (hp : ∀ e, previous = some e → DrawsExpr text live before e) (stages : List Template) :
    Varies key (fun i => (S.site i).renderStages unit (previous.map (· i)) stages)
      (DrawsExpr text live (Template.stageReads before stages)) := by
  induction stages generalizing before previous with
  | nil =>
    cases previous with
    | none => exact .pure (drawsExpr_const _)
    | some e => exact .pure (hp e rfl)
  | cons stage rest ih =>
    refine (render_varies before previous hS unit hp stage).bind fun e he => ?_
    exact ih (stage.reads before) (some e) fun _ h => Option.some.inj h ▸ he

end

theorem renderLines_varies (hS : S.Coherent key text live) (unit : String)
    (lines : List Template.Line) :
    Varies key (fun i => (S.site i).renderLines unit lines)
      (Draws text live (lines.flatMap Template.Line.reads)) := by
  induction lines with
  | nil => exact .pure (draws_const _)
  | cons line rest ih =>
    cases line with
    | code template =>
      refine (render_varies [] none hS unit (by simp) template).bind fun e he => ?_
      refine ih.map fun more hmore => ?_
      have hline := he.text.surround "" "\n"
      simp only [String.empty_append] at hline
      exact hline.append hmore
    | body socket =>
      exact (body_varies hS unit socket).bind fun body hbody => ih.map fun more hmore => hbody.append hmore

/-! ## joined text -/

theorem slotIndices_map {α β : Type} (stem : String) (f : α → β) (sockets : List (String × α)) :
    Site.slotIndices stem (sockets.map fun e => (e.1, f e.2)) = Site.slotIndices stem sockets := by
  rw [Site.slotIndices, Assoc.keys_map]
  rfl

theorem clampSlots_varies (field : String) (wanted connected : Nat) :
    Varies key (fun i => (S.site i).clampSlots field wanted connected) Still := by
  simp only [Site.clampSlots]
  split
  · exact .pure (still_const _)
  · exact (report_varies fun _ _ => rfl).bind_still fun _ => .pure (still_const _)

theorem joinPart_varies (hS : S.Coherent key text live)
    (ht : S.TextApart) (index : Nat) :
    Varies key (fun i => (S.site i).joinPart index)
      (DrawsExpr text live [.input (Site.slot "ADD" index)]) := by
  have hget : ∀ i, Assoc.get? (Site.slot "ADD" index) (S.site i).inputs
      = (Assoc.get? (Site.slot "ADD" index) S.inputs).map (· i) :=
    fun i => Assoc.get?_map (fun child : ι → Child => child i) _ S.inputs
  simp only [Site.joinPart, hget]
  cases hsocket : Assoc.get? (Site.slot "ADD" index) S.inputs with
  | none => exact .pure (drawsExpr_const _)
  | some child =>
    have hvalue := hS.inputs _ (Assoc.mem_of_get? hsocket)
    have htag : (∀ i, (child i).tag = "text") ∨ ∀ i, (child i).tag ≠ "text" :=
      ht _ (Assoc.mem_of_get? hsocket)
    rcases htag with htext | htext
    · simp only [Option.map_some, htext, if_true]
      exact hvalue .sum
    · simp only [Option.map_some, htext, if_false]
      exact (hvalue .loosest).map fun e he => ⟨still_const _, he.text.surround "str(" ")"⟩

theorem joinParts_varies (hS : S.Coherent key text live) (ht : S.TextApart) (indices : List Nat) :
    Varies key (fun i => (S.site i).joinParts indices) fun parts =>
      ∃ families : List (ι → Expr), (∀ i, parts i = families.map (· i))
        ∧ List.Forall₂ (fun index e => DrawsExpr text live [.input (Site.slot "ADD" index)] e)
          indices families := by
  induction indices with
  | nil => exact .pure ⟨[], fun _ => rfl, .nil⟩
  | cons index rest ih =>
    refine (joinPart_varies hS ht index).bind fun e he => ?_
    refine ih.map fun more ⟨families, hmore, hall⟩ => ?_
    exact ⟨e :: families, fun i => congrArg (e i :: ·) (hmore i), .cons he hall⟩

/-- texts with a fixed one between each two -/
theorem draws_intercalate (between : String) {readss : List (List Socket)} {families : List (ι → Expr)}
    (h : List.Forall₂ (DrawsExpr text live) readss families) :
    Draws text live readss.flatten fun i =>
      String.intercalate between ((families.map (· i)).map Expr.text) := by
  induction h with
  | nil => exact draws_const _
  | @cons reads e readss families he hmore ih =>
    cases hmore with
    | nil => simpa using he.text
    | cons hnext hmore =>
      have hfirst := (he.text.surround "" between).append ih
      simpa [String.intercalate_cons_cons] using hfirst

theorem sumOf_draws {readss : List (List Socket)} {families : List (ι → Expr)}
    (h : List.Forall₂ (DrawsExpr text live) readss families) :
    DrawsExpr text live readss.flatten fun i => Site.sumOf (families.map (· i)) := by
  cases h with
  | nil => exact drawsExpr_const _
  | cons he hmore =>
    cases hmore with
    | nil => simpa [Site.sumOf] using he
    | cons hnext hmore =>
      exact ⟨still_const _, draws_intercalate " + " (.cons he (.cons hnext hmore))⟩

theorem join_varies (hS : S.Coherent key text live) (ht : S.TextApart) :
    Varies key (fun i => (S.site i).join) fun e => ∃ count, DrawsExpr text live (joinReads count) e := by
  have hindices : ∀ i, Site.slotIndices "ADD" (S.site i).inputs = Site.slotIndices "ADD" S.inputs :=
    fun i => slotIndices_map "ADD" (fun child : ι → Child => child i) S.inputs
  have hcount : ∀ i, (S.site i).declaredCount "ITEMS" = Site.declaredCount ⟨"", "", S.fields, [], []⟩ "ITEMS" :=
    fun _ => rfl
  simp only [Site.join, hindices, hcount]
  refine (clampSlots_varies _ _ _).bind_still fun count => ?_
  refine (joinParts_varies hS ht _).map fun parts ⟨families, hparts, hall⟩ => ⟨count, ?_⟩
  have hsum : (fun i => Site.sumOf (parts i)) = fun i => Site.sumOf (families.map (· i)) :=
    funext fun i => congrArg Site.sumOf (hparts i)
  have hreads : joinReads count
      = ((List.range count).map fun index => [Socket.input (Site.slot "ADD" index)]).flatten := by
    rw [joinReads, ← List.flatMap_def, List.map_eq_flatMap]
  rw [hsum, hreads]
  exact sumOf_draws (List.forall₂_map_left_iff.mpr hall)

/-! ## branches and loops -/

theorem branch_varies (hS : S.Coherent key text live) (unit : String) (index : Nat) :
    Varies key (fun i => (S.site i).branch unit index) (Draws text live (branchReads index)) := by
  refine (operand_varies hS _ _ _ _).bind fun condition hc => ?_
  refine (body_varies hS _ _).map fun body hbody => ?_
  exact (hc.surround _ ":\n").append hbody

theorem branchList_varies (hS : S.Coherent key text live) (unit : String) (indices : List Nat) :
    Varies key (fun i => (S.site i).branchList unit indices)
      (Draws text live (indices.flatMap branchReads)) := by
  induction indices with
  | nil => exact .pure (draws_const _)
  | cons index rest ih =>
    exact (branch_varies hS unit index).bind fun code hcode => ih.map fun more hmore => hcode.append hmore

theorem otherwise_varies (hS : S.Coherent key text live) (unit : String) :
    Varies key (fun i => (S.site i).otherwise unit) (Draws text live [.body "ELSE"]) := by
  have hcontains : ∀ i, Assoc.contains "ELSE" (S.site i).statements = Assoc.contains "ELSE" S.statements := by
    intro i
    rw [Assoc.contains, Sites.site, Assoc.get?_map (fun child : ι → Child => child i), Option.isSome_map]
    rfl
  have hfields : ∀ i, (S.site i).fields = S.fields := fun _ => rfl
  simp only [Site.otherwise, hcontains, hfields]
  split
  · refine (body_varies hS _ _).map fun body hbody => ?_
    have helse := hbody.surround "else:\n" ""
    simpa using helse
  · exact .pure (draws_const _)

theorem branches_varies (hS : S.Coherent key text live) (unit : String) :
    Varies key (fun i => (S.site i).branches unit) fun f =>
      ∃ count, Draws text live (branchesReads count) f := by
  have hif : ∀ i, Site.slotIndices "IF" (S.site i).inputs = Site.slotIndices "IF" S.inputs :=
    fun i => slotIndices_map "IF" (fun child : ι → Child => child i) S.inputs
  have hdo : ∀ i, Site.slotIndices "DO" (S.site i).statements = Site.slotIndices "DO" S.statements :=
    fun i => slotIndices_map "DO" (fun child : ι → Child => child i) S.statements
  have hcount : ∀ i, (S.site i).declaredCount "ELSEIF"
      = Site.declaredCount ⟨"", "", S.fields, [], []⟩ "ELSEIF" := fun _ => rfl
  simp only [Site.branches, hif, hdo, hcount]
  refine (clampSlots_varies _ _ _).bind_still fun count => ?_
  refine (branchList_varies hS unit _).bind fun code hcode => ?_
  exact (otherwise_varies hS unit).map fun more hmore => ⟨count, hcode.append hmore⟩

theorem loop_varies (hS : S.Coherent key text live) (unit : String) :
    Varies key (fun i => (S.site i).loop unit) (Draws text live [.input "BOOL", .body "DO"]) := by
  have hfields : ∀ i, (S.site i).fields = S.fields := fun _ => rfl
  have hwhile : ∀ (level : Precedence) (opening : String), Varies key (fun i => do
      let condition ← (S.site i).operand unit "BOOL" level Site.never
      let header ← Pure.pure (opening ++ condition ++ ":\n")
      let body ← (S.site i).body unit "DO"
      Pure.pure (header ++ body)) (Draws text live [.input "BOOL", .body "DO"]) := by
    intro level opening
    refine (operand_varies hS _ _ _ _).bind fun condition hc => ?_
    exact (body_varies hS unit "DO").map fun body hbody => (hc.surround opening ":\n").append hbody
  simp only [Site.loop, hfields]
  split
  · exact hwhile .negation "while not "
  · split
    · split
      · exact (report_varies fun _ _ => rfl).bind_still fun _ => hwhile .loosest "while "
      · exact hwhile .loosest "while "
    · exact hwhile .loosest "while "

/-! ## rules -/

/-- the code draws sockets that are all different if the rule is linear -/
def Gathers (text : ι → String) (live : Socket → Bool) (linear : Bool) (f : ι → String) : Prop :=
  ∃ reads : List Socket, (linear = true → reads.Nodup) ∧ Draws text live reads f

def GathersExpr (text : ι → String) (live : Socket → Bool) (linear : Bool) (e : ι → Expr) : Prop :=
  ∃ reads : List Socket, (linear = true → reads.Nodup) ∧ DrawsExpr text live reads e

theorem unknownValue_varies (hS : S.Coherent key text live) :
    Varies key (fun i => (S.site i).unknownValue) (DrawsExpr text live []) := by
  refine Varies.bind_still (report_varies fun i j => ?_) fun _ => .pure (drawsExpr_const _)
  exact hS.tags .unknownBlockType (fun tag => "unknown block type '" ++ tag ++ "'") i j

theorem valueRule_varies (hS : S.Coherent key text live) (unit : String) (rule : ValueRule)
    (ht : rule = .join → S.TextApart) :
    Varies key (fun i => rule.run unit (S.site i)) (GathersExpr text live rule.isLinear) := by
  cases rule with
  | operator table =>
    refine (operator_varies hS unit table).imp fun e he => ⟨_, fun hl => ?_, he⟩
    simpa [ValueRule.isLinear] using hl
  | function table => exact (function_varies hS unit table).imp fun e he => ⟨_, fun _ => by simp, he⟩
  | number => exact number_varies.imp fun e he => ⟨[], fun _ => List.nodup_nil, he⟩
  | truth => exact truth_varies.imp fun e he => ⟨[], fun _ => List.nodup_nil, he⟩
  | join =>
    exact (join_varies hS (ht rfl)).imp fun e ⟨count, he⟩ => ⟨_, fun _ => nodup_joinReads count, he⟩
  | template form =>
    exact (render_varies [] none hS unit (by simp) form).imp fun e he => ⟨_, of_decide_eq_true, he⟩
  | staged stages =>
    exact (renderStages_varies [] none hS unit (by simp) stages).imp fun e he => ⟨_, of_decide_eq_true, he⟩
  | unknown => exact (unknownValue_varies hS).imp fun e he => ⟨[], fun _ => List.nodup_nil, he⟩

theorem unknownStatement_varies (hS : S.Coherent key text live)
    (hc : Still fun i => Text.commentText (S.tag i)) :
    Varies key (fun i => (S.site i).unknownStatement) (Draws text live []) := by
  refine Varies.bind_still (report_varies fun i j => ?_) fun _ => .pure (draws_of_still ?_)
  · exact hS.tags .unknownBlockType (fun tag => "unknown block type '" ++ tag ++ "'") i j
  · exact hc.map fun comment =>
      "# Unknown block type '" ++ comment ++ "' (" ++ Text.commentText S.id ++ ")\n"

theorem statementRule_varies (hS : S.Coherent key text live) (unit : String) (rule : StatementRule)
    (hc : rule = .unknown → Still fun i => Text.commentText (S.tag i)) :
    Varies key (fun i => rule.run unit (S.site i)) (Gathers text live rule.isLinear) := by
  cases rule with
  | branches =>
    exact (branches_varies hS unit).imp fun f ⟨count, hf⟩ => ⟨_, fun _ => nodup_branchesReads count, hf⟩
  | loop => exact (loop_varies hS unit).imp fun f hf => ⟨_, fun _ => by simp, hf⟩
  | template lines => exact (renderLines_varies hS unit lines).imp fun f hf => ⟨_, of_decide_eq_true, hf⟩
  | unknown => exact (unknownStatement_varies hS (hc rfl)).imp fun f hf => ⟨[], fun _ => List.nodup_nil, hf⟩

/-! ## toolchains -/

section
variable {t : Toolchain} {found : Option Rule} {linear : Bool}

theorem valueOf_varies (hS : S.Coherent key text live) (hr : ∀ i, t.rule? (S.tag i) = found)
    (hl : ∀ rule, found = some rule → linear = true → rule.isLinear = true)
    (ht : found = some (.value .join) → S.TextApart) :
    Varies key (fun i => t.valueOf (S.site i)) (GathersExpr text live linear) := by
  have hrule : ∀ i, t.rule? (S.site i).tag = found := hr
  simp only [Toolchain.valueOf, hrule]
  split
  next rule =>
    refine (valueRule_varies hS t.options.indent rule fun h => ht (h ▸ rfl)).imp ?_
    exact fun e ⟨reads, hnodup, he⟩ => ⟨reads, fun h => hnodup (hl _ rfl h), he⟩
  next =>
    refine Varies.bind_still (report_varies fun i j => ?_) fun _ =>
      .pure ⟨[], fun _ => List.nodup_nil, drawsExpr_const _⟩
    exact hS.tags .misplacedBlock (fun tag => "statement block '" ++ tag ++ "' used as a value") i j
  next => exact (unknownValue_varies hS).imp fun e he => ⟨[], fun _ => List.nodup_nil, he⟩

theorem statementOf_varies (hS : S.Coherent key text live) (hr : ∀ i, t.rule? (S.tag i) = found)
    (hl : ∀ rule, found = some rule → linear = true → rule.isLinear = true)
    (ht : found = some (.value .join) → S.TextApart)
    (hc : found = some (.statement .unknown) ∨ found = none → Still fun i => Text.commentText (S.tag i)) :
    Varies key (fun i => t.statementOf (S.site i)) (Gathers text live linear) := by
  have hrule : ∀ i, t.rule? (S.site i).tag = found := hr
  simp only [Toolchain.statementOf, hrule]
  split
  next rule =>
    refine (statementRule_varies hS t.options.indent rule fun h => hc (Or.inl (h ▸ rfl))).imp ?_
    exact fun f ⟨reads, hnodup, hf⟩ => ⟨reads, fun h => hnodup (hl _ rfl h), hf⟩
  next rule =>
    refine (valueRule_varies hS t.options.indent rule fun h => ht (h ▸ rfl)).map ?_
    exact fun e ⟨reads, hnodup, he⟩ => ⟨reads, fun h => hnodup (hl _ rfl h), he.text⟩
  next => exact (unknownStatement_varies hS (hc (Or.inr rfl))).imp fun f hf => ⟨[], fun _ => List.nodup_nil, hf⟩

end

end

end Sites

/-! ## blocks -/

namespace Block

theorem compileSockets_eq_map (t : Toolchain) (sockets : List (String × Block)) :
    compileSockets t sockets = sockets.map fun e => (e.1, e.2.compile t) := by
  induction sockets with
  | nil => rfl
  | cons entry rest ih =>
    obtain ⟨socket, child⟩ := entry
    rw [compileSockets, ih, List.map_cons]

theorem compile_eq (t : Toolchain) (b : Block) :
    b.compile t =
      { tag := b.tag
        value := fun required => t.valueOf (b.site t) >>= fun e => pure (e.place required)
        chain := t.statementOf (b.site t) >>= fun text =>
          compileNext t b.next >>= fun rest => pure (Text.terminated text ++ rest) } := by
  cases b
  rfl

theorem get?_inputs_site (t : Toolchain) (b : Block) (socket : String) :
    Assoc.get? socket (b.site t).inputs = (b.input? socket).map (compile t) := by
  rw [site, compileSockets_eq_map, Assoc.get?_map]
  rfl

theorem get?_statements_site (t : Toolchain) (b : Block) (socket : String) :
    Assoc.get? socket (b.site t).statements = (b.statement? socket).map (compile t) := by
  rw [site, compileSockets_eq_map, compileSockets_eq_map, Assoc.get?_map]
  rfl

end Block

end VisualProgram
