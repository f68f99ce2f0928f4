import VisualProgram.Proofs.Block.Context
import VisualProgram.Proofs.Script.Trace

/-!
# The blocks that a compilation enters

A value rule asks for no body, so no block is entered as a statement below a value
(`statement_not_mem_valueTrace`), and every block that is entered as a statement belongs to the tree that is
compiled.  `Spares id` says of some steps that none of them enters a block of the id as a statement.
-/

namespace VisualProgram

/-! ## values ask for no body -/

namespace Site
variable (site : Site) (socket : String)

theorem body_not_mem_pieces (template : Template) :
    Effect.body socket ∉ template.pieces.flatMap site.pieceEffects := by
  intro h
  refine forall_pieces (p := (· ≠ .body socket)) ?_ ?_ _ h rfl
  · intro other level
    exact Effect.noConfusion
  · intro field _ name
    exact Effect.noConfusion

theorem body_not_mem_valueEffects (t : Toolchain) : Effect.body socket ∉ t.valueEffects site := by
  have hnoted : Noted (· ≠ .body socket) (t.valueEffects site) := by
    refine valueEffects_noted ?_ ?_ ?_ t
    all_goals
      intros
      exact Effect.noConfusion
  intro h
  exact hnoted.all (fun kind message _ _ => Effect.noConfusion) _ h rfl

end Site

/-! ## entries of a trace -/

namespace Block
variable {t : Toolchain} {b y : Block} {role : Role} {effects : List Effect}

/-- a block entered by some steps is entered below a socket they ask for -/
theorem enter_mem_steps (h : Action.enter y role ∈ b.steps t effects) :
    (∃ socket required child, Effect.value socket required ∈ effects ∧ b.input? socket = some child
        ∧ Action.enter y role ∈ child.valueTrace t)
      ∨ ∃ socket child, Effect.body socket ∈ effects ∧ b.statement? socket = some child
        ∧ Action.enter y role ∈ child.chainTrace t := by
  obtain ⟨effect, heffect, hmem⟩ := List.mem_flatMap.mp h
  cases effect with
  | value socket required =>
    rw [Effect.expand, valueTraces_eq_map, Assoc.get?_map] at hmem
    cases hget : Assoc.get? socket b.inputs with
    | none => simp [hget] at hmem
    | some child =>
      rw [hget] at hmem
      exact .inl ⟨socket, required, child, heffect, hget, hmem⟩
  | body socket =>
    rw [Effect.expand, chainTraces_eq_map, Assoc.get?_map] at hmem
    cases hget : Assoc.get? socket b.statements with
    | none => simp [hget] at hmem
    | some child =>
      rw [hget] at hmem
      exact .inr ⟨socket, child, heffect, hget, hmem⟩
  | _ => simp [Effect.expand] at hmem

mutual
/-- below a value no block is entered as a statement -/
theorem statement_not_mem_valueTrace (t : Toolchain) (y : Block) :
    (b : Block) → Action.enter y .statement ∉ b.valueTrace t
  | ⟨id, tag, fields, inputs, statements, next⟩ => by
    have hinputs := statement_not_mem_valueTraces t y inputs
    intro h
    rw [valueTrace_eq, List.mem_cons] at h
    rcases h with h | h
    · simp at h
    · rcases enter_mem_steps h with ⟨socket, _, child, -, hget, hmem⟩ | ⟨socket, _, hbody, -⟩
      · exact hinputs _ (Assoc.mem_of_get? hget) hmem
      · exact Site.body_not_mem_valueEffects _ socket t hbody

theorem statement_not_mem_valueTraces (t : Toolchain) (y : Block) :
    (sockets : List (String × Block)) → ∀ e ∈ sockets, Action.enter y .statement ∉ e.2.valueTrace t
  | [] => List.forall_mem_nil _
  | (_, child) :: rest => List.forall_mem_cons.mpr
    ⟨statement_not_mem_valueTrace t y child, statement_not_mem_valueTraces t y rest⟩
end

end Block

/-! ## steps that spare a block -/

/-- no block of the id is entered as a statement -/
def Spares (id : String) (actions : List Action) : Prop := ∀ b, Action.enter b .statement ∈ actions → b.id ≠ id

@[simp] theorem spares_nil (id : String) : Spares id [] := fun _ h => absurd h List.not_mem_nil

@[simp] theorem spares_append {id : String} {a b : List Action} : Spares id (a ++ b) ↔ Spares id a ∧ Spares id b := by
  refine ⟨fun h => ⟨fun y hy => h y (List.mem_append_left _ hy), fun y hy => h y (List.mem_append_right _ hy)⟩, ?_⟩
  rintro ⟨ha, hb⟩ y hy
  exact (List.mem_append.mp hy).elim (ha y) (hb y)

theorem Spares.cons_enter {id : String} {actions : List Action} (h : Spares id actions) {b : Block}
    (hb : b.id ≠ id) (role : Role) : Spares id (.enter b role :: actions) := by
  intro y hy
  rcases List.mem_cons.mp hy with heq | hy
  · injection heq with hyb
    rw [hyb]
    exact hb
  · exact h y hy

namespace Block

theorem steps_body {t : Toolchain} {b child : Block} {socket : String} (h : b.statement? socket = some child) :
    b.steps t [.body socket] = child.chainTrace t := by
  rw [steps, List.flatMap_singleton, Effect.expand, chainTraces_eq_map, Assoc.get?_map,
    show Assoc.get? socket b.statements = some child from h]
  rfl

/-- steps spare a block if the bodies they ask for do -/
theorem spares_steps {t : Toolchain} {b : Block} {effects : List Effect} {id : String}
    (h : ∀ socket child, Effect.body socket ∈ effects → b.statement? socket = some child →
      Spares id (child.chainTrace t)) : Spares id (b.steps t effects) := by
  intro y hy
  rcases enter_mem_steps hy with ⟨_, _, child, -, -, hmem⟩ | ⟨socket, child, hbody, hget, hmem⟩
  · exact absurd hmem (statement_not_mem_valueTrace t y child)
  · exact h socket child hbody hget y hmem

mutual
/-- what is compiled of a tree spares the ids that are not in it -/
theorem spares_chainTrace (t : Toolchain) (wanted : String) :
    (b : Block) → wanted ∉ recordIds b.records → Spares wanted (b.chainTrace t)
  | ⟨id, tag, fields, inputs, statements, next⟩, h => by
    rw [records_mk, mem_recordIds_cons, mem_recordIds_append, mem_recordIds_append, not_or, not_or, not_or] at h
    have hstatements := spares_chainTraces t wanted statements h.2.1.2
    rw [chainTrace_eq]
    refine spares_append.mpr ⟨Spares.cons_enter (spares_steps fun socket child _ hget => ?_) (Ne.symm h.1) _, ?_⟩
    · exact hstatements _ (Assoc.mem_of_get? hget)
    · exact spares_nextTrace t wanted next h.2.2

theorem spares_chainTraces (t : Toolchain) (wanted : String) : (sockets : List (String × Block)) →
    wanted ∉ recordIds (recordsSockets sockets) → ∀ e ∈ sockets, Spares wanted (e.2.chainTrace t)
  | [], _ => List.forall_mem_nil _
  | (socket, child) :: rest, h => by
    rw [recordsSockets_cons, mem_recordIds_append, not_or] at h
    exact List.forall_mem_cons.mpr ⟨spares_chainTrace t wanted child h.1, spares_chainTraces t wanted rest h.2⟩

theorem spares_nextTrace (t : Toolchain) (wanted : String) : (next : Option Block) →
    wanted ∉ recordIds (recordsNext next) → Spares wanted (nextTrace t next)
  | none, _ => spares_nil wanted
  | some b, h => spares_chainTrace t wanted b h
end

end Block

/-! ## visits -/

namespace Session

theorem visits_append (s : Session) (a b : List Action) :
    s.visits (a ++ b) = s.visits a ++ (s.follow a).visits b := by
  induction a generalizing s with
  | nil => rfl
  | cons action rest ih =>
    cases action with
    | enter y role => exact congrArg (List.cons _) (ih s)
    | report d => exact ih _
    | require name => exact ih _
    | identify name => exact ih _

theorem enter_mem_of_visit {s : Session} {actions : List Action} {v : Visit} (h : v ∈ s.visits actions) :
    Action.enter v.block v.role ∈ actions := by
  induction actions generalizing s with
  | nil => cases h
  | cons action rest ih =>
    cases action with
    | enter y role =>
      rcases List.mem_cons.mp h with rfl | h
      · exact List.mem_cons_self
      · exact List.mem_cons_of_mem _ (ih h)
    | report d => exact List.mem_cons_of_mem _ (ih h)
    | require name => exact List.mem_cons_of_mem _ (ih h)
    | identify name => exact List.mem_cons_of_mem _ (ih h)


end Session

end VisualProgram
