import VisualProgram.Proofs.Assoc
import VisualProgram.Proofs.Script.Rendering

/-!
# Two compilations side by side

A compilation writes diagnostics and never reads them: from a session with more of them it gives the same
result and adds the same ones.  `SameRun m m'` says so of two compilations at once, so it also compares a block
with one that has something else in a socket.

* `Session.Ahead`        the second session has some diagnostics more, in one place;
* `Site.Resembles`       two blocks as their rules see them, with values in the sockets that run alike;
* `Resembles.valueOf`    then their values run alike, and so do their statements if the bodies do
                         (`Resembles.statementOf`);
* `Block.steady`         every block runs like itself.
-/

namespace VisualProgram

/-! ## sessions -/

/-- the second session has the diagnostics `extra` more, after those in `before`, and is alike in all else -/
structure Session.Ahead (before extra : List Diagnostic) (a b : Session) : Prop where
  imports : a.imports = b.imports
  identifiers : a.identifiers = b.identifiers
  scope : a.scope = b.scope
  diagnostics : ∃ after, a.diagnostics = before ++ after ∧ b.diagnostics = before ++ (extra ++ after)

namespace Session.Ahead
variable {before extra : List Diagnostic} {a b : Session}

theorem refl (s : Session) : Ahead s.diagnostics [] s s :=
  ⟨rfl, rfl, rfl, [], (List.append_nil _).symm, (List.append_nil _).symm⟩

/-- a report puts a session ahead -/
theorem of_report (s : Session) (d : Diagnostic) : Ahead s.diagnostics [d] s (s.report d) :=
  ⟨rfl, rfl, rfl, [], (List.append_nil _).symm, rfl⟩

theorem eq (h : Ahead before [] a b) : a = b := by
  obtain ⟨imports, identifiers, scope, diagnostics⟩ := a
  obtain ⟨imports', identifiers', scope', diagnostics'⟩ := b
  obtain ⟨rfl, rfl, rfl, after, ha, hb⟩ := h
  obtain rfl : diagnostics = diagnostics' := ha.trans hb.symm
  rfl

theorem report (h : Ahead before extra a b) (d : Diagnostic) : Ahead before extra (a.report d) (b.report d) := by
  obtain ⟨after, ha, hb⟩ := h.diagnostics
  refine ⟨h.imports, h.identifiers, h.scope, after ++ [d], ?_, ?_⟩
  · rw [Session.report, ha, List.append_assoc]
  · rw [Session.report, hb, List.append_assoc, List.append_assoc]

theorem require (h : Ahead before extra a b) (name : String) :
    Ahead before extra (a.require name) (b.require name) := by
  unfold Session.require
  rw [h.imports]
  split
  · exact h
  · exact ⟨rfl, h.identifiers, h.scope, h.diagnostics⟩

theorem identify (h : Ahead before extra a b) (v : String) :
    (a.identify v).1 = (b.identify v).1 ∧ Ahead before extra (a.identify v).2 (b.identify v).2 := by
  obtain ⟨imports, identifiers, scope, diagnostics⟩ := a
  obtain ⟨imports', identifiers', scope', diagnostics'⟩ := b
  obtain ⟨rfl, rfl, rfl, hd⟩ := h
  unfold Session.identify
  cases Assoc.get? v identifiers with
  | none => exact ⟨rfl, rfl, rfl, rfl, hd⟩
  | some identifier => exact ⟨rfl, rfl, rfl, rfl, hd⟩

end Session.Ahead

/-! ## compilations -/

/-- the results are the same, and a session that is ahead stays so -/
def SameRun {α : Type} (m m' : Script α) : Prop :=
  ∀ before extra a b, Session.Ahead before extra a b →
    (m.run a).1 = (m'.run b).1 ∧ Session.Ahead before extra (m.run a).2 (m'.run b).2

namespace SameRun
variable {α β : Type} {m m' : Script α}

theorem pure (x : α) : SameRun (Pure.pure x) (Pure.pure x) := fun _ _ _ _ h => ⟨rfl, h⟩

theorem bind {k k' : α → Script β} (hm : SameRun m m') (hk : ∀ x, SameRun (k x) (k' x)) :
    SameRun (m >>= k) (m' >>= k') := by
  intro before extra a b h
  obtain ⟨hresult, hnext⟩ := hm before extra a b h
  have hlast := hk (m.run a).1 before extra _ _ hnext
  rw [show k' (m.run a).1 = k' (m'.run b).1 from congrArg k' hresult] at hlast
  exact hlast

theorem map (hm : SameRun m m') (f : α → β) :
    SameRun (m >>= fun x => Pure.pure (f x)) (m' >>= fun x => Pure.pure (f x)) :=
  hm.bind fun x => .pure (f x)

/-- from one session the two give one result -/
theorem run_eq (h : SameRun m m') (s : Session) : m.run s = m'.run s := by
  obtain ⟨hresult, hsession⟩ := h s.diagnostics [] s s (.refl s)
  exact Prod.ext hresult hsession.eq

theorem identify (v : String) :
    SameRun (modifyGet (Session.identify v)) (modifyGet (Session.identify v)) :=
  fun _ _ _ _ h => h.identify v

theorem require (needs : Option String) : SameRun (Site.require needs) (Site.require needs) := by
  cases needs with
  | none => exact .pure ()
  | some name => exact fun _ _ _ _ h => ⟨rfl, h.require name⟩

end SameRun

/-! ## blocks as their rules see them -/

structure Child.SameValue (c c' : Child) : Prop where
  tag : c.tag = c'.tag
  value : ∀ required, SameRun (c.value required) (c'.value required)

/-- the blocks have the same data and sockets, and what is in their value sockets runs alike -/
structure Site.Resembles (a b : Site) : Prop where
  id : a.id = b.id
  tag : a.tag = b.tag
  fields : a.fields = b.fields
  inputs : List.Forall₂ (fun e f => e.1 = f.1 ∧ Child.SameValue e.2 f.2) a.inputs b.inputs
  statements : Assoc.keys a.statements = Assoc.keys b.statements

/-- a body of what runs alike in both blocks, if there is anything -/
theorem Site.body_sameRun {a b : Site} (unit : String) {socket : String}
    (h : (Assoc.get? socket a.statements = none ∧ Assoc.get? socket b.statements = none)
      ∨ ∃ c c', Assoc.get? socket a.statements = some c ∧ Assoc.get? socket b.statements = some c'
        ∧ SameRun c.chain c'.chain) : SameRun (a.body unit socket) (b.body unit socket) := by
  unfold Site.body
  rcases h with ⟨ha, hb⟩ | ⟨c, c', ha, hb, hchain⟩
  · rw [ha, hb]
    exact .pure _
  · rw [ha, hb]
    exact hchain.map _

namespace Site.Resembles
variable {a b : Site} (h : a.Resembles b)
include h

theorem report (kind : Diagnostic.Kind) (message : String) :
    SameRun (a.report kind message) (b.report kind message) := by
  intro before extra s s' hs
  refine ⟨rfl, ?_⟩
  show Session.Ahead _ _ (s.report ⟨a.id, kind, message⟩) (s'.report ⟨b.id, kind, message⟩)
  rw [h.id]
  exact hs.report _

theorem note (note : Note) : SameRun (a.note note) (b.note note) := by
  cases note with
  | none => exact .pure ()
  | some entry => exact h.report entry.1 entry.2

theorem slotIndices (stem : String) : Site.slotIndices stem a.inputs = Site.slotIndices stem b.inputs := by
  rw [Site.slotIndices, Assoc.keys_forall₂ h.inputs, Site.slotIndices]

theorem slotIndices_statements (stem : String) :
    Site.slotIndices stem a.statements = Site.slotIndices stem b.statements := by
  rw [Site.slotIndices, h.statements, Site.slotIndices]

theorem declaredCount (field : String) : a.declaredCount field = b.declaredCount field := by
  rw [Site.declaredCount, h.fields, Site.declaredCount]

/-! ## values -/

theorem operand (unit socket : String) (required : Precedence) (fallback : Fallback) :
    SameRun (a.operand unit socket required fallback) (b.operand unit socket required fallback) := by
  unfold Site.operand
  rcases Assoc.get?_forall₂ h.inputs socket with ⟨ha, hb⟩ | ⟨c, c', ha, hb, hc⟩
  · rw [ha, hb]
    exact .pure _
  · rw [ha, hb]
    exact (hc.value required).map _

theorem select {α : Type} (field noun : String) (table : List (String × α)) :
    SameRun (a.select field noun table) (b.select field noun table) := by
  unfold Site.select
  rw [h.fields]
  split
  · exact .pure _
  · split
    · exact .pure _
    · exact (h.report _ _).bind fun _ => .pure _

theorem operator (unit : String) (table : OperatorTable) :
    SameRun (a.operator unit table) (b.operator unit table) := by
  refine (h.select _ _ _).bind fun selected => ?_
  cases selected with
  | none => exact .pure _
  | some op => exact (h.operand _ _ _ _).bind fun left => (h.operand _ _ _ _).map _

theorem function (unit : String) (table : FunctionTable) :
    SameRun (a.function unit table) (b.function unit table) := by
  refine (h.select _ _ _).bind fun selected => ?_
  cases selected with
  | none => exact .pure _
  | some form => exact (SameRun.require _).bind fun _ => (h.operand _ _ _ _).map _

theorem number : SameRun a.number b.number := by
  unfold Site.number
  rw [h.fields]
  split
  · exact .pure _
  · exact .pure _
  · split
    · exact .pure _
    · exact (h.report _ _).bind fun _ => .pure _
  · exact (h.report _ _).bind fun _ => .pure _

theorem truth : SameRun a.truth b.truth := by
  unfold Site.truth
  rw [h.fields]
  split
  · exact .pure _
  · split
    · exact .pure _
    · exact (h.report _ _).bind fun _ => .pure _

theorem clampSlots (field : String) (wanted connected : Nat) :
    SameRun (a.clampSlots field wanted connected) (b.clampSlots field wanted connected) := by
  rw [Site.clampSlots_eq, Site.clampSlots_eq]
  exact (h.note _).bind fun _ => .pure _

theorem joinPart (index : Nat) : SameRun (a.joinPart index) (b.joinPart index) := by
  unfold Site.joinPart
  rcases Assoc.get?_forall₂ h.inputs (slot "ADD" index) with ⟨ha, hb⟩ | ⟨c, c', ha, hb, hc⟩
  · rw [ha, hb]
    exact .pure _
  · rw [ha, hb]
    simp only [hc.tag]
    split
    · exact hc.value .sum
    · exact (hc.value .loosest).map _

theorem joinParts (indices : List Nat) : SameRun (a.joinParts indices) (b.joinParts indices) := by
  induction indices with
  | nil => exact .pure _
  | cons index rest ih => exact (h.joinPart index).bind fun part => ih.map _

theorem join : SameRun a.join b.join := by
  unfold Site.join
  rw [h.slotIndices, h.declaredCount]
  exact (h.clampSlots _ _ _).bind fun count => (h.joinParts _).map _

theorem renderPiece (unit : String) (previous : Option Expr) (piece : Piece) :
    SameRun (a.renderPiece unit previous piece) (b.renderPiece unit previous piece) := by
  cases piece with
  | operand socket level fallback => exact h.operand unit socket level fallback
  | field name default =>
    rw [Site.renderPiece, Site.renderPiece, h.fields]
    exact .pure _
  | identifier name default =>
    rw [Site.renderPiece, Site.renderPiece, h.fields]
    exact .pure _
  | variableName field =>
    rw [Site.renderPiece, Site.renderPiece, h.fields]
    exact .identify _
  | text fixed => exact .pure _
  | previous level => cases previous <;> exact .pure _

theorem renderPieces (unit : String) (previous : Option Expr) (pieces : List Piece) :
    SameRun (a.renderPieces unit previous pieces) (b.renderPieces unit previous pieces) := by
  induction pieces with
  | nil => exact .pure _
  | cons piece rest ih => exact (h.renderPiece unit previous piece).bind fun text => ih.map _

theorem render (unit : String) (previous : Option Expr) (template : Template) :
    SameRun (a.render unit previous template) (b.render unit previous template) :=
  (h.renderPieces unit previous template.pieces).map _

theorem renderStages (unit : String) (previous : Option Expr) (stages : List Template) :
    SameRun (a.renderStages unit previous stages) (b.renderStages unit previous stages) := by
  induction stages generalizing previous with
  | nil => exact .pure _
  | cons stage rest ih => exact (h.render unit previous stage).bind fun e => ih (some e)

theorem unknownValue : SameRun a.unknownValue b.unknownValue := by
  unfold Site.unknownValue Site.reportUnknown
  rw [h.tag]
  exact (h.report _ _).bind fun _ => .pure _

theorem valueRule (unit : String) (rule : ValueRule) : SameRun (rule.run unit a) (rule.run unit b) := by
  cases rule with
  | operator table => exact h.operator unit table
  | function table => exact h.function unit table
  | number => exact h.number
  | truth => exact h.truth
  | join => exact h.join
  | template form => exact h.render unit none form
  | staged stages => exact h.renderStages unit none stages
  | unknown => exact h.unknownValue

theorem valueOf (t : Toolchain) : SameRun (t.valueOf a) (t.valueOf b) := by
  unfold Toolchain.valueOf
  rw [h.tag]
  split
  · exact h.valueRule _ _
  · exact (h.report _ _).bind fun _ => .pure _
  · exact h.unknownValue

/-! ## statements -/

theorem note_eq (rule : StatementRule) : rule.note a = rule.note b := by
  cases rule with
  | branches =>
    simp only [StatementRule.note, Site.wantedBranches, Site.branchIndices, h.slotIndices, h.slotIndices_statements,
      h.declaredCount]
  | loop => simp only [StatementRule.note, Site.modeNote, h.fields]
  | template lines => rfl
  | unknown => simp only [StatementRule.note, Site.unknownNote, h.tag]

theorem lines_eq (rule : StatementRule) : rule.lines a = rule.lines b := by
  have hcontains := Assoc.contains_of_keys h.statements "ELSE"
  cases rule with
  | branches =>
    simp only [StatementRule.lines, Site.branchesLines, Site.otherwiseLines, Site.wantedBranches, Site.branchIndices,
      h.slotIndices, h.slotIndices_statements, h.declaredCount, h.fields, hcontains]
  | loop => simp only [StatementRule.lines, Site.loopLines, Site.loopLevel, h.fields]
  | template lines => rfl
  | unknown => simp only [StatementRule.lines, Site.unknownLines, h.tag, h.id]

theorem renderLines (unit : String) {lines : List Template.Line}
    (hbodies : ∀ socket, .body socket ∈ lines → SameRun (a.body unit socket) (b.body unit socket)) :
    SameRun (a.renderLines unit lines) (b.renderLines unit lines) := by
  induction lines with
  | nil => exact .pure _
  | cons line rest ih =>
    have hrest := ih fun socket hs => hbodies socket (List.mem_cons_of_mem _ hs)
    cases line with
    | code template => exact (h.render unit none template).bind fun e => hrest.map _
    | body socket => exact (hbodies socket List.mem_cons_self).bind fun code => hrest.map _

theorem statementOf (t : Toolchain) (hbodies : ∀ socket, .body socket ∈ t.lines a →
      SameRun (a.body t.options.indent socket) (b.body t.options.indent socket)) :
    SameRun (t.statementOf a) (t.statementOf b) := by
  rw [t.statementOf_eq, t.statementOf_eq, ← h.tag]
  cases hrule : t.statementRule? a.tag with
  | none => exact (h.valueOf t).map _
  | some rule =>
    have hlines : t.lines a = rule.lines a := by rw [Toolchain.lines, hrule]; rfl
    rw [hlines] at hbodies
    show SameRun (rule.run _ a) (rule.run _ b)
    rw [rule.run_eq, rule.run_eq, ← h.note_eq, ← h.lines_eq]
    exact (h.note _).bind fun _ => h.renderLines _ hbodies

end Site.Resembles

/-! ## blocks -/

/-- a block in a socket runs like itself, whatever it is compiled as -/
structure Child.Steady (c : Child) : Prop where
  value : ∀ required, SameRun (c.value required) (c.value required)
  chain : SameRun c.chain c.chain

theorem Child.Steady.sameValue {c : Child} (h : c.Steady) : c.SameValue c := ⟨rfl, h.value⟩

namespace Block

theorem compileSockets_same {t : Toolchain} {sockets : List (String × Block)}
    (h : ∀ e ∈ sockets, (e.2.compile t).Steady) :
    List.Forall₂ (fun e f => e.1 = f.1 ∧ Child.SameValue e.2 f.2) (compileSockets t sockets)
      (compileSockets t sockets) := by
  rw [compileSockets_eq_map]
  refine List.forall₂_same.mpr fun e he => ⟨rfl, ?_⟩
  obtain ⟨entry, hentry, rfl⟩ := List.mem_map.mp he
  exact (h entry hentry).sameValue

section
variable {t : Toolchain} {a b : Block} (h : (a.site t).Resembles (b.site t))
include h

theorem sameValue_of_resembles : (a.compile t).SameValue (b.compile t) := by
  rw [compile_eq, compile_eq]
  exact ⟨h.tag, fun required => (h.valueOf t).map _⟩

theorem sameRun_of_resembles (hbodies : ∀ socket, .body socket ∈ t.lines (a.site t) →
      SameRun ((a.site t).body t.options.indent socket) ((b.site t).body t.options.indent socket))
    (hnext : SameRun (compileNext t a.next) (compileNext t b.next)) :
    SameRun (a.compile t).chain (b.compile t).chain := by
  rw [compile_eq, compile_eq]
  exact (h.statementOf t hbodies).bind fun text => hnext.map _

end

theorem steady_of_sockets {t : Toolchain} {b : Block} (hi : ∀ e ∈ b.inputs, (e.2.compile t).Steady)
    (hs : ∀ e ∈ b.statements, (e.2.compile t).Steady)
    (hn : SameRun (compileNext t b.next) (compileNext t b.next)) : (b.compile t).Steady := by
  have hsite : (b.site t).Resembles (b.site t) := ⟨rfl, rfl, rfl, compileSockets_same hi, rfl⟩
  refine ⟨(sameValue_of_resembles hsite).value, sameRun_of_resembles hsite (fun socket _ => ?_) hn⟩
  refine Site.body_sameRun _ ?_
  rw [b.get?_statements_site t]
  cases hget : b.statement? socket with
  | none => exact .inl ⟨rfl, rfl⟩
  | some child => exact .inr ⟨_, _, rfl, rfl, (hs _ (Assoc.mem_of_get? hget)).chain⟩

mutual
/-- every block runs like itself: the diagnostics there are do not show -/
theorem steady (t : Toolchain) : (b : Block) → (b.compile t).Steady
  | ⟨_, _, _, inputs, statements, next⟩ =>
    steady_of_sockets (steadySockets t inputs) (steadySockets t statements) (steadyNext t next)

theorem steadySockets (t : Toolchain) : (sockets : List (String × Block)) → ∀ e ∈ sockets, (e.2.compile t).Steady
  | [] => List.forall_mem_nil _
  | (_, child) :: rest => List.forall_mem_cons.mpr ⟨steady t child, steadySockets t rest⟩

theorem steadyNext (t : Toolchain) : (next : Option Block) → SameRun (compileNext t next) (compileNext t next)
  | none => .pure ""
  | some b => (steady t b).chain
end

end Block

theorem Workspace.compileChains_same (t : Toolchain) (blocks : List Block) :
    SameRun (compileChains t blocks) (compileChains t blocks) := by
  induction blocks with
  | nil => exact .pure _
  | cons b rest ih => exact (b.steady t).chain.bind fun code => ih.map _

end VisualProgram
