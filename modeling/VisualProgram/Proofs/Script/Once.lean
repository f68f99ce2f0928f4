import VisualProgram.Proofs.Assoc
import VisualProgram.Proofs.Lists
import VisualProgram.Proofs.Script.Rendering
import VisualProgram.Proofs.Script.Reports
import VisualProgram.Proofs.Workspace.Atomic

/-!
# Once per block

A compilation meets every block of a workspace at most once, and reports of it at most once.  There is an
argument for each half:

* `Modest`    a rule makes at most one report of its own, so there are no more reports of a block than times it is
              entered (`reported`); this holds whatever the rules are;
* `asksOnce`  a rule that passes this check asks for no socket twice, so the blocks that are entered are among
              those of the tree, each as often as it is there (`entered_subperm`).  Every standard rule passes it.

Where no id occurs twice, neither does one among the reports (`reported_once`).
-/

namespace VisualProgram

/-! ## one report for each block -/

def Effect.isReport : Effect → Bool
  | .report _ _ => true
  | _ => false

/-- no report among the effects -/
def Quiet (effects : List Effect) : Prop := ∀ e ∈ effects, e.isReport = false

/-- at most one report, which comes first -/
def Modest (effects : List Effect) : Prop := Noted (·.isReport = false) effects

namespace Site
variable (site : Site)

theorem modest_valueEffects (t : Toolchain) : Modest (t.valueEffects site) :=
  valueEffects_noted (fun _ _ => rfl) (fun _ => rfl) (fun _ => rfl) t

theorem modest_statementEffects (t : Toolchain) : Modest (t.statementEffects site) :=
  statementEffects_noted (fun _ _ => rfl) (fun _ => rfl) (fun _ => rfl) (fun _ => rfl) t

end Site

/-! ## entries and reports of a trace -/

def Action.entered? : Action → Option Block
  | .enter b _ => some b
  | _ => none

def Action.subject? (action : Action) : Option String := action.diagnostic?.map Diagnostic.subject

/-- the blocks that are entered, in order -/
def entered (actions : List Action) : List Block := actions.filterMap Action.entered?

/-- the ids that are reported of, in order -/
def subjects (actions : List Action) : List String := actions.filterMap Action.subject?

@[simp]
theorem entered_append (a b : List Action) : entered (a ++ b) = entered a ++ entered b := List.filterMap_append

@[simp] theorem subjects_append (a b : List Action) : subjects (a ++ b) = subjects a ++ subjects b :=
  List.filterMap_append

@[simp] theorem entered_cons (b : Block) (role : Role) (actions : List Action) :
    entered (.enter b role :: actions) = b :: entered actions := rfl

/-- no id is reported of more often than blocks of this id are entered -/
def Reported (actions : List Action) : Prop := (subjects actions).Subperm ((entered actions).map Block.id)

@[simp] theorem reported_nil : Reported [] := List.nil_subperm

theorem Reported.append {a b : List Action} (ha : Reported a) (hb : Reported b) : Reported (a ++ b) := by
  rw [Reported, subjects_append, entered_append, List.map_append]
  exact List.Subperm.append ha hb

theorem reported_flatMap {α : Type} {xs : List α} {f : α → List Action} (h : ∀ x ∈ xs, Reported (f x)) :
    Reported (xs.flatMap f) := by
  induction xs with
  | nil => exact reported_nil
  | cons x xs ih =>
    obtain ⟨hx, hxs⟩ := List.forall_mem_cons.mp h
    rw [List.flatMap_cons]
    exact hx.append (ih hxs)

namespace Block
variable {t : Toolchain} {b : Block}

theorem reported_steps {effects : List Effect} (hquiet : Quiet effects)
    (hi : ∀ e ∈ b.inputs, Reported (e.2.valueTrace t)) (hs : ∀ e ∈ b.statements, Reported (e.2.chainTrace t)) :
    Reported (b.steps t effects) := by
  refine reported_flatMap fun effect heffect => ?_
  cases effect with
  | report kind message => cases hquiet _ heffect
  | require name => exact reported_nil
  | identify name => exact reported_nil
  | value socket required =>
    rw [Effect.expand, valueTraces_eq_map, Assoc.get?_map]
    cases hget : Assoc.get? socket b.inputs with
    | none => exact reported_nil
    | some child => exact hi _ (Assoc.mem_of_get? hget)
  | body socket =>
    rw [Effect.expand, chainTraces_eq_map, Assoc.get?_map]
    cases hget : Assoc.get? socket b.statements with
    | none => exact reported_nil
    | some child => exact hs _ (Assoc.mem_of_get? hget)

/-- the report of a block itself goes with its entry -/
theorem reported_enter {effects : List Effect} (hmodest : Modest effects) (role : Role)
    (hi : ∀ e ∈ b.inputs, Reported (e.2.valueTrace t)) (hs : ∀ e ∈ b.statements, Reported (e.2.chainTrace t)) :
    Reported (.enter b role :: b.steps t effects) := by
  cases hmodest with
  | quiet hquiet => exact (reported_steps hquiet hi hs).cons_right b.id
  | report hnode hstate message hquiet => exact (List.subperm_cons b.id).mpr (reported_steps hquiet hi hs)

mutual
theorem reported (t : Toolchain) : (b : Block) → Reported (b.valueTrace t) ∧ Reported (b.chainTrace t)
  | ⟨id, tag, fields, inputs, statements, next⟩ => by
    have hi := fun e he => (reportedSockets t inputs e he).1
    have hs := fun e he => (reportedSockets t statements e he).2
    have hb : ∀ effects role, Modest effects → Reported (.enter ⟨id, tag, fields, inputs, statements, next⟩ role
        :: steps t ⟨id, tag, fields, inputs, statements, next⟩ effects) :=
      fun _ role hmodest => reported_enter hmodest role hi hs
    rw [valueTrace_eq, chainTrace_eq]
    exact ⟨hb _ _ (Site.modest_valueEffects _ t),
      (hb _ _ (Site.modest_statementEffects _ t)).append (reportedNext t next)⟩

theorem reportedSockets (t : Toolchain) : (sockets : List (String × Block)) →
    ∀ e ∈ sockets, Reported (e.2.valueTrace t) ∧ Reported (e.2.chainTrace t)
  | [] => List.forall_mem_nil _
  | (_, child) :: rest => List.forall_mem_cons.mpr ⟨reported t child, reportedSockets t rest⟩

theorem reportedNext (t : Toolchain) : (next : Option Block) → Reported (nextTrace t next)
  | none => reported_nil
  | some b => (reported t b).2
end

end Block

/-! ## no socket twice -/

def Socket.inputName? : Socket → Option String
  | .input name => some name
  | .body _ => none

def Socket.bodyName? : Socket → Option String
  | .input _ => none
  | .body name => some name

/-- the socket that an effect asks for -/
def Effect.socket? : Effect → Option Socket
  | .value socket _ => some (.input socket)
  | .body socket => some (.body socket)
  | _ => none

/-- a rule that asks for no socket twice, in all of its stages together -/
def ValueRule.asksOnce : ValueRule → Bool
  | .staged stages => (stages.flatMap (Template.reads [])).Nodup
  | rule => rule.isLinear

def Rule.asksOnce : Rule → Bool
  | .value rule => rule.asksOnce
  | .statement rule => rule.isLinear

def Toolchain.AsksOnce (t : Toolchain) : Prop := ∀ tag rule, t.rule? tag = some rule → rule.asksOnce = true

theorem Toolchain.standard_asksOnce : Toolchain.standard.AsksOnce := by
  have hall : Rule.Standard.table.all (fun entry => entry.2.asksOnce) = true := by decide
  exact fun _ _ h => List.all_eq_true.mp hall _ (Assoc.mem_of_get? h)

/-- the sockets that some effects ask for, in order -/
def asked (effects : List Effect) : List Socket := effects.filterMap Effect.socket?

@[simp] theorem asked_append (a b : List Effect) : asked (a ++ b) = asked a ++ asked b := List.filterMap_append

theorem asked_flatMap {α : Type} (xs : List α) (f : α → List Effect) :
    asked (xs.flatMap f) = xs.flatMap fun x => asked (f x) := by
  induction xs with
  | nil => rfl
  | cons x xs ih => simp [ih]

/-- a report asks for nothing -/
theorem asked_of_noted {effects : List Effect} (h : Noted (fun _ => False) effects) : asked effects = [] :=
  List.filterMap_eq_nil_iff.mpr fun _ he => by
    cases h with
    | quiet hnone => exact (hnone _ he).elim
    | report hnode hstate message hnone =>
      rcases List.mem_cons.mp he with rfl | he
      · rfl
      · exact (hnone _ he).elim

namespace Site
variable (site : Site)

theorem asked_note (note : Note) : asked note.effects = [] := by
  cases note <;> rfl

theorem asked_pieces (pieces : List Piece) :
    asked (pieces.flatMap site.pieceEffects) = pieces.flatMap (Piece.reads []) := by
  rw [asked_flatMap]
  refine List.flatMap_congr fun piece _ => ?_
  cases piece <;> rfl

theorem nodup_asked_valueRule {rule : ValueRule} (h : rule.asksOnce = true) :
    (asked (rule.effects site)).Nodup := by
  cases rule with
  | operator table =>
    have hsockets : table.leftSocket ≠ table.rightSocket := of_decide_eq_true h
    show (asked (site.operatorEffects table)).Nodup
    rw [operatorEffects, asked_append, asked_of_noted (selectEffects_noted _ _ _), List.nil_append]
    cases site.selected table.field table.operators with
    | none => exact List.nodup_nil
    | some op => simpa [asked, Effect.socket?] using hsockets
  | function table =>
    show (asked (site.functionEffects table)).Nodup
    rw [functionEffects, asked_append, asked_of_noted (selectEffects_noted _ _ _), List.nil_append]
    cases site.selected table.field table.forms with
    | none => exact List.nodup_nil
    | some form =>
      have hneeds : asked (form.needs.toList.map .require) = [] := by cases form.needs <;> rfl
      show (asked (form.needs.toList.map .require ++ [.value table.socket form.operand])).Nodup
      rw [asked_append, hneeds]
      exact List.nodup_singleton _
  | number => exact asked_of_noted numberEffects_noted ▸ List.nodup_nil
  | truth => exact asked_of_noted truthEffects_noted ▸ List.nodup_nil
  | join =>
    have hparts : ∀ indices : List Nat,
        asked (indices.map fun index => .value (slot "ADD" index) (site.partLevel index))
          = indices.map fun index => .input (slot "ADD" index) := by
      intro indices
      simp [asked, List.filterMap_map, Function.comp_def, Effect.socket?]
    show (asked site.joinEffects).Nodup
    rw [joinEffects, asked_append, asked_of_noted (clampEffects_noted _ _ _), List.nil_append, hparts]
    exact nodup_joinReads _
  | template form =>
    show (asked (form.pieces.flatMap site.pieceEffects)).Nodup
    rw [asked_pieces]
    exact of_decide_eq_true h
  | staged stages =>
    show (asked (stages.flatMap fun stage => stage.pieces.flatMap site.pieceEffects)).Nodup
    rw [asked_flatMap]
    simp only [asked_pieces]
    exact of_decide_eq_true h
  | unknown => exact List.nodup_nil

theorem nodup_asked_statementRule {rule : StatementRule} (h : rule.isLinear = true) :
    (asked (rule.effects site)).Nodup := by
  rw [rule.effects_eq, asked_append, asked_note, List.nil_append, asked_flatMap]
  have hreads : ∀ line : Template.Line, asked (site.lineEffects line) = line.reads := by
    intro line
    cases line with
    | code template => exact site.asked_pieces template.pieces
    | body socket => rfl
  simp only [hreads]
  exact rule.nodup_reads site h

theorem nodup_asked_valueEffects {t : Toolchain} (ht : t.AsksOnce) : (asked (t.valueEffects site)).Nodup := by
  unfold Toolchain.valueEffects
  split
  next rule hrule => exact site.nodup_asked_valueRule (ht _ _ hrule)
  next => exact List.nodup_nil
  next => exact List.nodup_nil

theorem nodup_asked_statementEffects {t : Toolchain} (ht : t.AsksOnce) :
    (asked (t.statementEffects site)).Nodup := by
  unfold Toolchain.statementEffects
  split
  next rule hrule => exact site.nodup_asked_statementRule (ht _ _ hrule)
  next rule hrule => exact site.nodup_asked_valueRule (ht _ _ hrule)
  next => exact List.nodup_nil

end Site

/-! ## the blocks that are entered -/

namespace Block
variable {t : Toolchain} {b : Block}

/-- the blocks entered below the value sockets that are asked for, and below the statement sockets -/
theorem perm_entered_steps (t : Toolchain) (b : Block) (effects : List Effect) :
    (entered (b.steps t effects)).Perm
      (((asked effects).filterMap Socket.inputName?).flatMap (fun socket =>
          ((Assoc.get? socket b.inputs).map fun child => entered (child.valueTrace t)).getD [])
        ++ ((asked effects).filterMap Socket.bodyName?).flatMap fun socket =>
          ((Assoc.get? socket b.statements).map fun child => entered (child.chainTrace t)).getD []) := by
  have hget : ∀ (trace : Block → List Action) (sockets : List (String × Block)) (socket : String),
      entered ((Assoc.get? socket (sockets.map fun e => (e.1, trace e.2))).getD [])
        = ((Assoc.get? socket sockets).map fun child => entered (trace child)).getD [] := by
    intro trace sockets socket
    rw [Assoc.get?_map]
    cases Assoc.get? socket sockets <;> rfl
  induction effects with
  | nil => exact List.Perm.refl _
  | cons effect rest ih =>
    rw [← List.singleton_append, steps_append, entered_append]
    cases effect with
    | value socket required =>
      refine (ih.append_left _).trans (List.Perm.of_eq ?_)
      rw [steps, List.flatMap_singleton, Effect.expand, valueTraces_eq_map, hget]
      exact (List.append_assoc _ _ _).symm
    | body socket =>
      rw [steps, List.flatMap_singleton, Effect.expand, chainTraces_eq_map, hget]
      exact (ih.append_left _).trans (List.perm_append_comm_assoc _ _ _)
    | _ => exact ih

theorem entered_steps_subperm {effects : List Effect} (honce : (asked effects).Nodup)
    (hi : ∀ e ∈ b.inputs, (entered (e.2.valueTrace t)).Subperm e.2.walk)
    (hs : ∀ e ∈ b.statements, (entered (e.2.chainTrace t)).Subperm e.2.walk) :
    (entered (b.steps t effects)).Subperm (walkSockets b.inputs ++ walkSockets b.statements) := by
  have hinputs : ((asked effects).filterMap Socket.inputName?).Nodup := by
    refine honce.filterMap fun a a' name ha ha' => ?_
    cases a <;> cases a' <;> simp_all [Socket.inputName?]
  have hbodies : ((asked effects).filterMap Socket.bodyName?).Nodup := by
    refine honce.filterMap fun a a' name ha ha' => ?_
    cases a <;> cases a' <;> simp_all [Socket.bodyName?]
  rw [walkSockets_eq, walkSockets_eq, List.flatMap_map, List.flatMap_map]
  refine (perm_entered_steps t b effects).subperm.trans (List.Subperm.append ?_ ?_)
  · exact (Assoc.subperm_get? _ hinputs b.inputs).trans (subperm_flatMap hi)
  · exact (Assoc.subperm_get? _ hbodies b.statements).trans (subperm_flatMap hs)

mutual
theorem entered_subperm (ht : t.AsksOnce) : (b : Block) →
    (entered (b.valueTrace t)).Subperm b.walk ∧ (entered (b.chainTrace t)).Subperm b.walk
  | ⟨id, tag, fields, inputs, statements, next⟩ => by
    have hi := fun e he => (enteredSockets_subperm ht inputs e he).1
    have hs := fun e he => (enteredSockets_subperm ht statements e he).2
    have hsteps : ∀ effects, (asked effects).Nodup →
        (entered (steps t ⟨id, tag, fields, inputs, statements, next⟩ effects)).Subperm
          (walkSockets inputs ++ walkSockets statements) :=
      fun _ honce => entered_steps_subperm honce hi hs
    rw [valueTrace_eq, chainTrace_eq, walk, List.cons_append, entered_cons, entered_cons, entered_append]
    refine ⟨(List.subperm_cons _).mpr ?_, (List.subperm_cons _).mpr ?_⟩
    · exact (hsteps _ (Site.nodup_asked_valueEffects _ ht)).trans (List.sublist_append_left _ _).subperm
    · exact (hsteps _ (Site.nodup_asked_statementEffects _ ht)).append (enteredNext_subperm ht next)

theorem enteredSockets_subperm (ht : t.AsksOnce) : (sockets : List (String × Block)) → ∀ e ∈ sockets,
    (entered (e.2.valueTrace t)).Subperm e.2.walk ∧ (entered (e.2.chainTrace t)).Subperm e.2.walk
  | [] => List.forall_mem_nil _
  | (_, child) :: rest => List.forall_mem_cons.mpr ⟨entered_subperm ht child, enteredSockets_subperm ht rest⟩

theorem enteredNext_subperm (ht : t.AsksOnce) : (next : Option Block) →
    (entered (nextTrace t next)).Subperm (walkNext next)
  | none => List.nil_subperm
  | some b => (entered_subperm ht b).2
end

end Block

/-! ## whole workspaces -/

theorem Session.blocks_visits (s : Session) (actions : List Action) :
    (s.visits actions).map Visit.block = entered actions := by
  induction actions generalizing s with
  | nil => rfl
  | cons action rest ih =>
    cases action with
    | enter b role => exact congrArg (List.cons b) (ih s)
    | report d => exact ih _
    | require name => exact ih _
    | identify name => exact ih _

namespace Workspace
open Block
variable {t : Toolchain}

theorem subjects_compile (t : Toolchain) (w : Workspace) :
    (w.compile t).diagnostics.map Diagnostic.subject = subjects (w.trace t) := by
  rw [diagnostics_compile, List.map_filterMap]
  rfl

theorem reported_trace (t : Toolchain) (w : Workspace) : Reported (w.trace t) :=
  reported_flatMap fun b _ => (Block.reported t b).2

theorem entered_trace_subperm (ht : t.AsksOnce) (w : Workspace) : (entered (w.trace t)).Subperm w.walk := by
  have hflat : entered (w.trace t) = w.blocks.flatMap fun b => entered (b.chainTrace t) := List.filterMap_flatMap
  rw [hflat]
  exact subperm_flatMap fun b _ => (Block.entered_subperm ht b).2

/-- no block is compiled twice, and none is reported of more than once: in a workspace that a run leads to, the
blocks that the standard toolchain compiles are different blocks of the workspace.  The ids in the diagnostics are
pairwise different, and each is that of a block that was compiled -/
theorem reported_once (w : Workspace) (hw : w.Reachable) :
    let out := w.compile .standard
    let compiled := (w.visits .standard).map Visit.block
    (out.diagnostics.map Diagnostic.subject).Nodup
    ∧ (∀ d ∈ out.diagnostics, d.subject ∈ w.ids ∧ ∃ b ∈ compiled, b.id = d.subject)
    ∧ (compiled.map Block.id).Nodup
    ∧ ∀ b ∈ compiled, b ∈ w.walk := by
  intro out compiled
  have hcompiled : compiled = entered (w.trace .standard) := Session.blocks_visits _ _
  have hentered := entered_trace_subperm Toolchain.standard_asksOnce w
  have hids : ((entered (w.trace .standard)).map Block.id).Subperm w.ids := by
    rw [ids_eq_walk]
    exact subperm_map _ hentered
  have hsubjects : (out.diagnostics.map Diagnostic.subject).Subperm (compiled.map Block.id) := by
    rw [subjects_compile, hcompiled]
    exact reported_trace .standard w
  rw [← hcompiled] at hids hentered
  have hdistinct : (compiled.map Block.id).Nodup := nodup_of_subperm hids (sound_of_reachable hw).distinct
  refine ⟨nodup_of_subperm hsubjects hdistinct, fun d hd => ?_, hdistinct, fun b hb => hentered.subset hb⟩
  have hmem := hsubjects.subset (List.mem_map_of_mem hd)
  exact ⟨hids.subset hmem, List.mem_map.mp hmem⟩

/-- a loop with a mode, an operator, two values and a statement that cannot be interpreted -/
def complaintRun : List Edit :=
  [.addLeaf "loop" "controls_whileUntil", .addLeaf "sum" "math_arithmetic", .addLeaf "left" "odd",
    .addLeaf "right" "controls_if", .addLeaf "last" "odd",
    .setField "loop" "MODE" (.string "SOMETIMES") (by decide), .setField "sum" "OP" (.string "ODD") (by decide),
    .connectValue "loop" "BOOL" "sum", .connectValue "sum" "A" "left", .connectValue "sum" "B" "right",
    .connectStatement "loop" "DO" "last"]

theorem reported_once_complaintRun :
    let w := empty.run complaintRun
    w.Reachable
    ∧ (w.compile .standard).diagnostics.map Diagnostic.subject = ["loop", "sum", "left", "right", "last"]
    ∧ ((w.compile .standard).diagnostics.map Diagnostic.subject).Nodup
    ∧ ((w.visits .standard).map Visit.block).map Block.id = ["loop", "sum", "left", "right", "last"]
    ∧ (((w.visits .standard).map Visit.block).map Block.id).Nodup := by
  intro w
  have hw : w.Reachable := ⟨empty, complaintRun, .empty, rfl⟩
  obtain ⟨hsubjects, -, hcompiled, -⟩ := reported_once w hw
  exact ⟨hw, by decide, hsubjects, by decide, hcompiled⟩

end Workspace

end VisualProgram
