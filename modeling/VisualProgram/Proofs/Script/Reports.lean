import VisualProgram.Proofs.Script.Trace

/-!
# What a compilation of blocks reports

Blocks give rise to three kinds of diagnostics: a tag without a rule, a statement in the place of a value, a
field that cannot be interpreted.  The kinds that tell of a node never come out of a script
(`isOfBlock_of_mem_diagnostics`), whatever the rules are.
-/

namespace VisualProgram

/-- the kinds that tell of a block -/
def Diagnostic.Kind.isOfBlock : Diagnostic.Kind → Bool
  | .unknownBlockType | .misplacedBlock | .invalidField => true
  | .unresolvedComponentType | .invalidScriptState => false

/-! ## the reports of a rule -/

def Effect.isOfBlock : Effect → Bool
  | .report kind _ => kind.isOfBlock
  | _ => true

namespace Site
variable (site : Site)

theorem isOfBlock_report (kind : Diagnostic.Kind) (message : String) (hnode : kind ≠ .unresolvedComponentType)
    (hstate : kind ≠ .invalidScriptState) : (Effect.report kind message).isOfBlock = true := by
  cases kind with
  | unresolvedComponentType => exact absurd rfl hnode
  | invalidScriptState => exact absurd rfl hstate
  | _ => rfl

theorem isOfBlock_valueEffects (t : Toolchain) : ∀ e ∈ t.valueEffects site, e.isOfBlock = true :=
  (valueEffects_noted (fun _ _ => rfl) (fun _ => rfl) (fun _ => rfl) t).all isOfBlock_report

theorem isOfBlock_statementEffects (t : Toolchain) : ∀ e ∈ t.statementEffects site, e.isOfBlock = true :=
  (statementEffects_noted (fun _ _ => rfl) (fun _ => rfl) (fun _ => rfl) (fun _ => rfl) t).all isOfBlock_report

end Site

/-! ## the reports of a trace -/

/-- every report among some steps is of a kind that tells of a block -/
def ReportsBlocks (actions : List Action) : Prop := ∀ d, Action.report d ∈ actions → d.kind.isOfBlock = true

theorem ReportsBlocks.append {a b : List Action} (ha : ReportsBlocks a) (hb : ReportsBlocks b) :
    ReportsBlocks (a ++ b) := fun d hd => (List.mem_append.mp hd).elim (ha d) (hb d)

theorem ReportsBlocks.enter {actions : List Action} (h : ReportsBlocks actions) (b : Block) (role : Role) :
    ReportsBlocks (.enter b role :: actions) := by
  intro d hd
  rcases List.mem_cons.mp hd with hd | hd
  · cases hd
  · exact h d hd

namespace Block

/-- the steps of a block report what its rule reports and what is reported below the sockets -/
theorem reportsBlocks_steps {t : Toolchain} {b : Block} {effects : List Effect}
    (h : ∀ e ∈ effects, e.isOfBlock = true) (hi : ∀ e ∈ b.inputs, ReportsBlocks (e.2.valueTrace t))
    (hs : ∀ e ∈ b.statements, ReportsBlocks (e.2.chainTrace t)) : ReportsBlocks (b.steps t effects) := by
  intro d hd
  obtain ⟨effect, heffect, hmem⟩ := List.mem_flatMap.mp hd
  cases effect with
  | report kind message =>
    cases List.mem_singleton.mp hmem
    exact h _ heffect
  | value socket required =>
    rw [Effect.expand, valueTraces_eq_map, Assoc.get?_map] at hmem
    cases hget : Assoc.get? socket b.inputs with
    | none => simp [hget] at hmem
    | some child =>
      rw [hget] at hmem
      exact hi _ (Assoc.mem_of_get? hget) d hmem
  | body socket =>
    rw [Effect.expand, chainTraces_eq_map, Assoc.get?_map] at hmem
    cases hget : Assoc.get? socket b.statements with
    | none => simp [hget] at hmem
    | some child =>
      rw [hget] at hmem
      exact hs _ (Assoc.mem_of_get? hget) d hmem
  | _ => simp [Effect.expand] at hmem

mutual
theorem reportsBlocks (t : Toolchain) :
    (b : Block) → ReportsBlocks (b.valueTrace t) ∧ ReportsBlocks (b.chainTrace t)
  | ⟨id, tag, fields, inputs, statements, next⟩ => by
    have hi := fun e he => (reportsBlocksSockets t inputs e he).1
    have hs := fun e he => (reportsBlocksSockets t statements e he).2
    have hsteps : ∀ effects : List Effect, (∀ e ∈ effects, e.isOfBlock = true) →
        ReportsBlocks (steps t ⟨id, tag, fields, inputs, statements, next⟩ effects) :=
      fun _ h => reportsBlocks_steps h hi hs
    rw [valueTrace_eq, chainTrace_eq]
    constructor
    · exact (hsteps _ (Site.isOfBlock_valueEffects _ t)).enter _ _
    · exact ((hsteps _ (Site.isOfBlock_statementEffects _ t)).enter _ _).append (reportsBlocksNext t next)

theorem reportsBlocksSockets (t : Toolchain) : (sockets : List (String × Block)) →
    ∀ e ∈ sockets, ReportsBlocks (e.2.valueTrace t) ∧ ReportsBlocks (e.2.chainTrace t)
  | [] => List.forall_mem_nil _
  | (_, child) :: rest => List.forall_mem_cons.mpr ⟨reportsBlocks t child, reportsBlocksSockets t rest⟩

theorem reportsBlocksNext (t : Toolchain) : (next : Option Block) → ReportsBlocks (nextTrace t next)
  | none => fun _ h => absurd h List.not_mem_nil
  | some b => (reportsBlocks t b).2
end

end Block

namespace Workspace

theorem diagnostics_compile (t : Toolchain) (w : Workspace) :
    (w.compile t).diagnostics = (w.trace t).filterMap Action.diagnostic? := by
  show ((compileChains t w.blocks).run Session.initial).2.diagnostics = _
  rw [run_compileChains, Session.diagnostics_follow]
  rfl

/-- a script reports of its blocks only -/
theorem isOfBlock_of_mem_diagnostics {t : Toolchain} {w : Workspace} {d : Diagnostic}
    (h : d ∈ (w.compile t).diagnostics) : d.kind.isOfBlock = true := by
  rw [diagnostics_compile] at h
  obtain ⟨action, haction, hd⟩ := List.mem_filterMap.mp h
  obtain ⟨b, -, hb⟩ := List.mem_flatMap.mp haction
  cases action with
  | report _ =>
    cases hd
    exact (Block.reportsBlocks t b).2 _ hb
  | _ => cases hd

end Workspace

end VisualProgram
