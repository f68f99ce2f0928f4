import VisualProgram.Proofs.Script.Effects
import VisualProgram.Proofs.Script.Reads

/-!
# The trace of a compilation

Since the steps of a rule do not hang on the session, those of a whole tree do not either: they are a list
(`valueTrace`, `chainTrace`), in which every block that is compiled is entered in its role.  A compilation
leads where its trace leads (`follows`, `run_compileChains`).

A `Visit` is a block that is entered, with the session in which this happens.  Which blocks of a tree are
compiled, how often, in which order and from which session is read off the trace (`visits`).
-/

namespace VisualProgram

/-- what a block is compiled as -/
inductive Role where
  | value
  | statement
deriving DecidableEq

/-- a step of a compilation -/
inductive Action where
  | enter (b : Block) (role : Role)
  | report (d : Diagnostic)
  | require (name : String)
  | identify (name : String)

namespace Session

def take (s : Session) : Action → Session
  | .enter _ _ => s
  | .report d => s.report d
  | .require name => s.require name
  | .identify name => (s.identify name).2

def follow (s : Session) (actions : List Action) : Session := actions.foldl take s

@[simp] theorem follow_append (s : Session) (a b : List Action) : s.follow (a ++ b) = (s.follow a).follow b :=
  List.foldl_append

theorem follow_enter (s : Session) (b : Block) (role : Role) (rest : List Action) :
    s.follow (.enter b role :: rest) = s.follow rest := rfl

end Session

def Action.diagnostic? : Action → Option Diagnostic
  | .report d => some d
  | _ => none

theorem Session.diagnostics_take (s : Session) (action : Action) :
    (s.take action).diagnostics = s.diagnostics ++ action.diagnostic?.toList := by
  cases action with
  | report d => rfl
  | enter b role => exact (List.append_nil _).symm
  | require name =>
    refine Eq.trans ?_ (List.append_nil _).symm
    rw [take, Session.require]
    split <;> rfl
  | identify name =>
    refine Eq.trans ?_ (List.append_nil _).symm
    rw [take, Session.identify]
    split <;> rfl

/-- diagnostics are only added -/
theorem Session.diagnostics_follow (s : Session) (actions : List Action) :
    (s.follow actions).diagnostics = s.diagnostics ++ actions.filterMap Action.diagnostic? := by
  induction actions generalizing s with
  | nil => exact (List.append_nil _).symm
  | cons action rest ih =>
    rw [follow, List.foldl_cons, ← follow, ih, diagnostics_take, List.append_assoc, ← List.singleton_append,
      List.filterMap_append]
    cases h : action.diagnostic? <;> simp [h]

/-- the steps that an effect stands for, given the traces of the sockets -/
def Effect.expand (id : String) (values chains : List (String × List Action)) : Effect → List Action
  | .report kind message => [.report ⟨id, kind, message⟩]
  | .require name => [.require name]
  | .identify name => [.identify name]
  | .value socket _ => (Assoc.get? socket values).getD []
  | .body socket => (Assoc.get? socket chains).getD []

namespace Block

/-! ## traces of trees -/

mutual
def valueTrace (t : Toolchain) : Block → List Action
  | ⟨id, tag, fields, inputs, statements, next⟩ =>
    let b : Block := ⟨id, tag, fields, inputs, statements, next⟩
    .enter b .value :: (t.valueEffects (b.site t)).flatMap
      (Effect.expand id (valueTraces t inputs) (chainTraces t statements))

def chainTrace (t : Toolchain) : Block → List Action
  | ⟨id, tag, fields, inputs, statements, next⟩ =>
    let b : Block := ⟨id, tag, fields, inputs, statements, next⟩
    .enter b .statement :: (t.statementEffects (b.site t)).flatMap
      (Effect.expand id (valueTraces t inputs) (chainTraces t statements)) ++ nextTrace t next

def valueTraces (t : Toolchain) : List (String × Block) → List (String × List Action)
  | [] => []
  | (socket, child) :: rest => (socket, child.valueTrace t) :: valueTraces t rest

def chainTraces (t : Toolchain) : List (String × Block) → List (String × List Action)
  | [] => []
  | (socket, child) :: rest => (socket, child.chainTrace t) :: chainTraces t rest

def nextTrace (t : Toolchain) : Option Block → List Action
  | none => []
  | some b => b.chainTrace t
end

theorem valueTraces_eq_map (t : Toolchain) (sockets : List (String × Block)) :
    valueTraces t sockets = sockets.map fun e => (e.1, e.2.valueTrace t) := by
  induction sockets with
  | nil => rfl
  | cons entry rest ih =>
    obtain ⟨socket, child⟩ := entry
    rw [valueTraces, ih, List.map_cons]

theorem chainTraces_eq_map (t : Toolchain) (sockets : List (String × Block)) :
    chainTraces t sockets = sockets.map fun e => (e.1, e.2.chainTrace t) := by
  induction sockets with
  | nil => rfl
  | cons entry rest ih =>
    obtain ⟨socket, child⟩ := entry
    rw [chainTraces, ih, List.map_cons]

/-- the steps of a block for some effects of its rule -/
def steps (t : Toolchain) (b : Block) (effects : List Effect) : List Action :=
  effects.flatMap (Effect.expand b.id (valueTraces t b.inputs) (chainTraces t b.statements))

@[simp] theorem steps_append (t : Toolchain) (b : Block) (first more : List Effect) :
    b.steps t (first ++ more) = b.steps t first ++ b.steps t more := List.flatMap_append

theorem valueTrace_eq (t : Toolchain) (b : Block) :
    b.valueTrace t = .enter b .value :: b.steps t (t.valueEffects (b.site t)) := by
  cases b
  rw [valueTrace]
  rfl

theorem chainTrace_eq (t : Toolchain) (b : Block) :
    b.chainTrace t
      = .enter b .statement :: b.steps t (t.statementEffects (b.site t)) ++ nextTrace t b.next := by
  cases b
  rw [chainTrace]
  rfl

/-! ## compilations follow their traces -/

/-- both compilations of a block follow their traces -/
structure Follows (t : Toolchain) (b : Block) : Prop where
  value : ∀ (required : Precedence) (s : Session),
    (((b.compile t).value required).run s).2 = s.follow (b.valueTrace t)
  chain : ∀ s : Session, ((b.compile t).chain.run s).2 = s.follow (b.chainTrace t)

/-- a rule that takes the steps of some effects follows their expansion -/
theorem perform_eq_follow {t : Toolchain} {b : Block} (hi : ∀ e ∈ b.inputs, Follows t e.2)
    (hs : ∀ e ∈ b.statements, Follows t e.2) (effects : List Effect) (s : Session) :
    (b.site t).perform s effects = s.follow (b.steps t effects) := by
  induction effects generalizing s with
  | nil => rfl
  | cons effect rest ih =>
    have hstep : (b.site t).act s effect = s.follow (b.steps t [effect]) := by
      rw [steps, List.flatMap_singleton]
      cases effect with
      | value socket required =>
        rw [Effect.expand, valueTraces_eq_map, Assoc.get?_map, Site.act, site, compileSockets_eq_map,
          Assoc.get?_map]
        cases hget : Assoc.get? socket b.inputs with
        | none => rfl
        | some child => exact (hi _ (Assoc.mem_of_get? hget)).value required s
      | body socket =>
        rw [Effect.expand, chainTraces_eq_map, Assoc.get?_map, Site.act, site, compileSockets_eq_map,
          compileSockets_eq_map, Assoc.get?_map]
        cases hget : Assoc.get? socket b.statements with
        | none => rfl
        | some child => exact (hs _ (Assoc.mem_of_get? hget)).chain s
      | _ => rfl
    have happend : b.steps t (effect :: rest) = b.steps t [effect] ++ b.steps t rest :=
      b.steps_append t [effect] rest
    rw [happend, Session.follow_append, ← hstep, ← ih]
    rfl

mutual
theorem follows (t : Toolchain) : (b : Block) → Follows t b
  | ⟨id, tag, fields, inputs, statements, next⟩ => by
    have hi := followsSockets t inputs
    have hs := followsSockets t statements
    have hn := followsNext t next
    have hperform := perform_eq_follow (b := ⟨id, tag, fields, inputs, statements, next⟩) hi hs
    constructor
    · intro required s
      rw [valueTrace_eq, compile_eq, Session.follow_enter, ← hperform]
      exact (Site.valueOf_acts t _ s).1
    · intro s
      rw [chainTrace_eq, compile_eq, Session.follow_append, Session.follow_enter, ← hperform,
        ← (Site.statementOf_acts t _ s).1]
      exact hn _

theorem followsSockets (t : Toolchain) : (sockets : List (String × Block)) → ∀ e ∈ sockets, Follows t e.2
  | [] => List.forall_mem_nil _
  | (_, child) :: rest => List.forall_mem_cons.mpr ⟨follows t child, followsSockets t rest⟩

theorem followsNext (t : Toolchain) : (next : Option Block) → ∀ s : Session,
    ((compileNext t next).run s).2 = s.follow (nextTrace t next)
  | none, _ => rfl
  | some b, s => (follows t b).chain s
end

end Block

/-! ## whole workspaces -/

def Workspace.trace (t : Toolchain) (w : Workspace) : List Action := w.blocks.flatMap (Block.chainTrace t)

theorem Workspace.run_compileChains (t : Toolchain) (w : Workspace) (s : Session) :
    ((compileChains t w.blocks).run s).2 = s.follow (w.trace t) := by
  obtain ⟨blocks⟩ := w
  induction blocks generalizing s with
  | nil => rfl
  | cons b rest ih =>
    rw [trace, List.flatMap_cons, Session.follow_append, ← (Block.follows t b).chain s]
    exact ih _

/-! ## visits -/

/-- a block that is compiled, in its role and from a session -/
structure Visit where
  block : Block
  role : Role
  session : Session

/-- the code of the block itself, the rest of its chain aside -/
def Visit.text (t : Toolchain) (u : Visit) : String :=
  match u.role with
  | .value => ((t.valueOf (u.block.site t)).run u.session).1.text
  | .statement => ((t.statementOf (u.block.site t)).run u.session).1

namespace Session

def visits (s : Session) : List Action → List Visit
  | [] => []
  | .enter b role :: rest => ⟨b, role, s⟩ :: s.visits rest
  | .report d :: rest => (s.report d).visits rest
  | .require name :: rest => (s.require name).visits rest
  | .identify name :: rest => (s.identify name).2.visits rest

end Session

/-- the visits of a compilation, in order -/
def Workspace.visits (t : Toolchain) (w : Workspace) : List Visit := Session.initial.visits (w.trace t)

end VisualProgram
