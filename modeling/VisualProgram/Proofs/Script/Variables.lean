import VisualProgram.Proofs.Lists
import VisualProgram.Proofs.Script.Session
import VisualProgram.Proofs.Script.Trace

/-!
# How variables are allotted

A variable gets its identifier from the session of its first use, so what two uses far apart are called is
settled by all that is compiled between them.  `Allotted` is what a session keeps through it all: no name and
no identifier twice, every identifier a name that is not reserved.

In a trace under the standard rules each use of a variable is a visit followed by the naming of its variable,
and nothing else names any (`Paired`, `paired_trace`).  Along such a trace a use is called what its variable is
called in the end (`get?_of_use`), and the variables come in the order of their first uses (`keys_follow`).
What the standard rules call is reserved (`reserved_of_mem_calls`), so no variable hides it.
-/

namespace VisualProgram
open Python

namespace Session

/-! ## what a session keeps -/

/-- naming a variable: one that is known keeps its identifier, another one takes a free name -/
theorem identify_cases (s : Session) (v : String) :
    (∃ identifier, Assoc.get? v s.identifiers = some identifier ∧ s.identify v = (identifier, s))
    ∨ ∃ base, Assoc.get? v s.identifiers = none ∧ IsName (s.scope.fresh base)
      ∧ s.identify v = (s.scope.fresh base,
          { s with identifiers := s.identifiers ++ [(v, s.scope.fresh base)]
                   scope := (s.scope.claim base).2 }) := by
  cases hv : Assoc.get? v s.identifiers with
  | some identifier => exact Or.inl ⟨identifier, rfl, by rw [identify, hv]⟩
  | none =>
    refine Or.inr ⟨Identifier.ofLabel "variable" v (toString (s.identifiers.length + 1)), rfl, ?_, ?_⟩
    · exact Identifier.isName_fresh _ (Identifier.isName_ofLabel ⟨by decide, by decide⟩ _ _)
    · rw [identify, hv]
      rfl

structure Allotted (s : Session) : Prop where
  names : (Assoc.keys s.identifiers).Nodup
  identifiers : (s.identifiers.map Prod.snd).Nodup
  sound : ∀ v ∈ s.identifiers, IsName v.2 ∧ v.2 ∉ reservedNames ∧ v.2 ∈ s.scope.taken
  reserved : ∀ name ∈ reservedNames, name ∈ s.scope.taken

theorem allotted_initial : initial.Allotted :=
  ⟨List.nodup_nil, List.nodup_nil, List.forall_mem_nil _, fun _ h => h⟩

theorem Allotted.identify {s : Session} (h : s.Allotted) (v : String) : (s.identify v).2.Allotted := by
  rcases s.identify_cases v with ⟨identifier, -, he⟩ | ⟨base, hv, hname, he⟩
  · rw [he]
    exact h
  rw [he]
  have hfree := s.scope.fresh_not_mem base
  refine ⟨?_, ?_, fun w hw => ?_, fun name hn => List.mem_cons_of_mem _ (h.reserved name hn)⟩
  · rw [Assoc.keys, List.map_append]
    refine List.nodup_append.mpr ⟨h.names, List.nodup_singleton v, ?_⟩
    rintro w hw w' hw' rfl
    rw [List.mem_singleton.mp hw'] at hw
    exact (Assoc.get?_eq_none_iff v s.identifiers).mp hv hw
  · rw [List.map_append]
    refine List.nodup_append.mpr ⟨h.identifiers, List.nodup_singleton _, ?_⟩
    rintro i hi i' hi' rfl
    obtain ⟨w, hw, rfl⟩ := List.mem_map.mp hi
    have hw' : w.2 = s.scope.fresh base := List.mem_singleton.mp hi'
    exact hfree (hw' ▸ (h.sound w hw).2.2)
  · rcases List.mem_append.mp hw with hw | hw
    · obtain ⟨hw₁, hw₂, hw₃⟩ := h.sound w hw
      exact ⟨hw₁, hw₂, List.mem_cons_of_mem _ hw₃⟩
    · rw [List.mem_singleton.mp hw]
      exact ⟨hname, fun hr => hfree (h.reserved _ hr), List.mem_cons_self⟩

theorem Allotted.take {s : Session} (h : s.Allotted) (a : Action) : (s.take a).Allotted := by
  cases a with
  | enter b role => exact h
  | report d => exact ⟨h.names, h.identifiers, h.sound, h.reserved⟩
  | require name =>
    show (s.require name).Allotted
    unfold require
    split
    · exact h
    · exact ⟨h.names, h.identifiers, h.sound, h.reserved⟩
  | identify name => exact h.identify name

theorem Allotted.follow {s : Session} (h : s.Allotted) (actions : List Action) :
    (s.follow actions).Allotted := by
  induction actions generalizing s with
  | nil => exact h
  | cons a rest ih => exact ih (h.take a)

theorem Allotted.valid {s : Session} (h : s.Allotted) : s.Valid :=
  fun _ _ hv => (h.sound _ (Assoc.mem_of_get? hv)).1

theorem identifiers_take {s : Session} {a : Action} (h : ∀ name, a ≠ .identify name) :
    (s.take a).identifiers = s.identifiers := by
  cases a with
  | identify name => exact absurd rfl (h name)
  | require name => exact identifiers_require s name
  | _ => rfl

theorem extends_take {s : Session} (hs : s.Allotted) (a : Action) : s.Extends (s.take a) := by
  cases a with
  | identify name => exact (identify_spec hs.valid name).2.1
  | _ =>
    intro v identifier hv
    rw [identifiers_take (by simp)]
    exact hv

theorem extends_follow {s : Session} (hs : s.Allotted) (actions : List Action) :
    s.Extends (s.follow actions) := by
  induction actions generalizing s with
  | nil => exact .refl s
  | cons a rest ih => exact (extends_take hs a).trans (ih (hs.take a))

theorem keys_identify (s : Session) (v : String) :
    Assoc.keys (s.identify v).2.identifiers
      = Assoc.keys s.identifiers ++ if v ∈ Assoc.keys s.identifiers then [] else [v] := by
  rcases s.identify_cases v with ⟨identifier, hv, he⟩ | ⟨base, hv, -, he⟩
  · have hm : v ∈ Assoc.keys s.identifiers := List.mem_map_of_mem (Assoc.mem_of_get? hv)
    rw [he, if_pos hm, List.append_nil]
  · rw [he, if_neg ((Assoc.get?_eq_none_iff v s.identifiers).mp hv), Assoc.keys, List.map_append]
    rfl

end Session

/-! ## uses -/

/-- the variable a block names; `item` if it has no text for it -/
def Block.variableName (b : Block) : String :=
  match Assoc.get? "VAR" b.fields with
  | some (.string name) => name
  | _ => "item"

/-- a block that gets a variable, in either role, or one that sets it, as a statement -/
def Block.uses (b : Block) (role : Role) : Bool :=
  b.tag = "variables_get" || (b.tag = "variables_set" && role = .statement)

namespace Visit

def isUse (u : Visit) : Bool := u.block.uses u.role

def name (u : Visit) : String := u.block.variableName

/-- what the variable of a use is called in its code -/
def identifier (u : Visit) : String := (u.session.identify u.name).1

end Visit

/-- each use of a variable names it, and nothing else names any -/
inductive Paired : List Action → Prop where
  | nil : Paired []
  | use {b : Block} {role : Role} {rest : List Action} (h : b.uses role = true)
      (hr : Paired rest) : Paired (.enter b role :: .identify b.variableName :: rest)
  | visit {b : Block} {role : Role} {rest : List Action} (h : b.uses role = false)
      (hr : Paired rest) : Paired (.enter b role :: rest)
  | report (d : Diagnostic) {rest : List Action} (hr : Paired rest) : Paired (.report d :: rest)
  | require (name : String) {rest : List Action} (hr : Paired rest) : Paired (.require name :: rest)

theorem Paired.append {a b : List Action} (ha : Paired a) (hb : Paired b) : Paired (a ++ b) := by
  induction ha with
  | nil => exact hb
  | use h _ ih => exact .use h ih
  | visit h _ ih => exact .visit h ih
  | report d _ ih => exact .report d ih
  | require name _ ih => exact .require name ih

namespace Session

/-- the uses among the visits of a trace -/
def usesOf (s : Session) (actions : List Action) : List Visit := (s.visits actions).filter Visit.isUse

theorem usesOf_use {s : Session} {b : Block} {role : Role} {rest : List Action}
    (h : b.uses role = true) :
    s.usesOf (.enter b role :: .identify b.variableName :: rest)
      = ⟨b, role, s⟩ :: (s.identify b.variableName).2.usesOf rest := by
  simp [usesOf, visits, Visit.isUse, h]

theorem usesOf_visit {s : Session} {b : Block} {role : Role} {rest : List Action}
    (h : b.uses role = false) : s.usesOf (.enter b role :: rest) = s.usesOf rest := by
  simp [usesOf, visits, Visit.isUse, h]

/-- a use is called what its variable is called in the end -/
theorem get?_of_use {s : Session} {actions : List Action} (h : Paired actions) (hs : s.Allotted) :
    ∀ u ∈ s.usesOf actions, Assoc.get? u.name (s.follow actions).identifiers = some u.identifier := by
  induction h generalizing s with
  | nil => exact List.forall_mem_nil _
  | @use b role rest h _ ih =>
    rw [usesOf_use h]
    refine List.forall_mem_cons.mpr ⟨?_, ih (hs.identify b.variableName)⟩
    exact extends_follow (hs.identify b.variableName) rest _ _ (identify_spec hs.valid b.variableName).2.2.2
  | visit h _ ih =>
    rw [usesOf_visit h]
    exact ih hs
  | report d _ ih => exact ih (hs.take (.report d))
  | require name _ ih => exact ih (hs.take (.require name))

/-- the variables of a session come in the order of their first uses -/
theorem keys_follow {s : Session} {actions : List Action} (h : Paired actions) (used : List String)
    (hs : Assoc.keys s.identifiers = used.eraseDups) :
    Assoc.keys (s.follow actions).identifiers
      = (used ++ (s.usesOf actions).map Visit.name).eraseDups := by
  induction h generalizing s used with
  | nil =>
    rw [show (s.usesOf []).map Visit.name = [] from rfl, List.append_nil]
    exact hs
  | @use b role rest h _ ih =>
    have hnext : Assoc.keys (s.identify b.variableName).2.identifiers = (used ++ [b.variableName]).eraseDups := by
      rw [keys_identify, hs, eraseDups_concat, if_congr List.mem_eraseDups rfl rfl]
    rw [usesOf_use h, List.map_cons, List.append_cons]
    exact ih _ hnext
  | visit h _ ih =>
    rw [usesOf_visit h]
    exact ih used hs
  | report d _ ih => exact ih used hs
  | require name _ ih => exact ih used ((congrArg Assoc.keys (identifiers_require s name)).trans hs)

end Session

/-! ## rules that name no variable -/

def Effect.IsQuiet : Effect → Prop
  | .identify _ => False
  | _ => True

def Piece.isNaming : Piece → Bool
  | .variableName _ => true
  | _ => false

def Template.isNaming (template : Template) : Bool := template.pieces.any Piece.isNaming

def Template.Line.isNaming : Template.Line → Bool
  | .code template => template.isNaming
  | .body _ => false

def Rule.isNaming : Rule → Bool
  | .value (.template form) => form.isNaming
  | .value (.staged stages) => stages.any Template.isNaming
  | .statement (.template lines) => lines.any Template.Line.isNaming
  | _ => false

theorem standard_naming : Rule.Standard.table.all (fun entry =>
    entry.1 = "variables_get" || entry.1 = "variables_set" || !entry.2.isNaming) = true := by decide

namespace Site
variable (site : Site)

theorem names_of_not_naming {template : Template} (h : template.isNaming = false) : template.Names Effect.IsQuiet :=
  fun _ hfield => absurd rfl (List.any_eq_false.mp h _ hfield)

theorem quiet_valueRule {rule : ValueRule} (h : (Rule.value rule).isNaming = false) :
    ∀ e ∈ rule.effects site, e.IsQuiet := by
  refine (valueRule_noted (fun _ _ => trivial) (fun _ => trivial) fun template htemplate => ?_).all
    fun _ _ _ _ => trivial
  refine names_of_not_naming ?_
  cases rule with
  | template form =>
    rw [List.mem_singleton.mp htemplate]
    exact h
  | staged stages => exact Bool.eq_false_iff.mpr (List.any_eq_false.mp h template htemplate)
  | _ => cases htemplate

theorem quiet_statementRule {rule : StatementRule} (h : (Rule.statement rule).isNaming = false) :
    ∀ e ∈ rule.effects site, e.IsQuiet := by
  refine (statementRule_noted (fun _ _ => trivial) (fun _ => trivial) fun template htemplate => ?_).all
    fun _ _ _ _ => trivial
  refine names_of_not_naming ?_
  cases rule with
  | template lines =>
    obtain ⟨line, hline, hcode⟩ := List.mem_filterMap.mp htemplate
    have hquiet := List.any_eq_false.mp h line hline
    cases line with
    | code form =>
      cases hcode
      exact Bool.eq_false_iff.mpr hquiet
    | body socket => cases hcode
  | _ => cases htemplate

end Site

/-! ## what the code calls -/

/-- the words of a text that stand before a bracket or a dot, unless they follow a dot themselves -/
def calledIn (word : List Char) (dotted : Bool) : List Char → List String
  | [] => []
  | c :: cs =>
    if isWordChar c then calledIn (word ++ [c]) dotted cs
    else (if (c = '(' ∨ c = '.') ∧ isWord word ∧ !dotted then [String.ofList word] else [])
      ++ calledIn [] (c = '.') cs

def Piece.texts : Piece → List String
  | .text fixed => [fixed]
  | _ => []

def Template.texts (template : Template) : List String := template.pieces.flatMap Piece.texts

def Template.Line.texts : Template.Line → List String
  | .code template => template.texts
  | .body _ => []

/-- the texts a rule puts into the code, keywords of branches and loops aside -/
def Rule.texts : Rule → List String
  | .value (.operator table) => table.operators.map fun entry => entry.2.symbol
  | .value (.function table) => table.forms.map fun entry => entry.2.opening
  | .value .join => ["str("]
  | .value (.template form) => form.texts
  | .value (.staged stages) => stages.flatMap Template.texts
  | .statement (.template lines) => lines.flatMap Template.Line.texts
  | _ => []

/-- the functions and modules that code made by the standard rules calls -/
def Rule.Standard.calls : List String :=
  table.flatMap fun entry => entry.2.texts.flatMap fun text => calledIn [] false text.toList

theorem Rule.Standard.eraseDups_calls : calls.eraseDups
    = ["str", "math", "abs", "round", "get_input", "range", "int", "print", "set_output", "logger"] := by
  decide

theorem Rule.Standard.reserved_of_mem_calls : ∀ name ∈ calls, name ∈ Session.reservedNames := by
  intro name hname
  rw [← List.mem_eraseDups, eraseDups_calls] at hname
  revert name
  decide

/-! ## the standard rules -/

def Role.effects (t : Toolchain) (site : Site) : Role → List Effect
  | .value => t.valueEffects site
  | .statement => t.statementEffects site

theorem isNaming_of_rule? {tag : String} {rule : Rule} (h : Toolchain.standard.rule? tag = some rule)
    (hget : tag ≠ "variables_get") (hset : tag ≠ "variables_set") : rule.isNaming = false := by
  have hentry := List.all_eq_true.mp standard_naming _ (Assoc.mem_of_get? h)
  simpa [hget, hset] using hentry

theorem variableName_site (t : Toolchain) (b : Block) :
    (Field.text? "VAR" (b.site t).fields).getD "item" = b.variableName := by
  unfold Field.text? Block.variableName
  show ((Assoc.get? "VAR" b.fields).bind Json.text?).getD "item" = _
  cases Assoc.get? "VAR" b.fields with
  | none => rfl
  | some v => cases v <;> rfl

theorem rule?_get : Toolchain.standard.rule? "variables_get"
    = some (.value (.template Rule.Standard.variableGet)) := by decide

theorem rule?_set : Toolchain.standard.rule? "variables_set"
    = some (.statement (.template Rule.Standard.variableSet)) := by decide

/-- a use starts by naming its variable -/
theorem effects_of_use {b : Block} {role : Role} (h : b.uses role = true) :
    ∃ rest, role.effects .standard (b.site .standard) = .identify b.variableName :: rest
      ∧ ∀ e ∈ rest, e.IsQuiet := by
  have hsite : (b.site .standard).tag = b.tag := rfl
  by_cases hget : b.tag = "variables_get"
  · refine ⟨[], ?_, List.forall_mem_nil _⟩
    rw [← variableName_site .standard b]
    cases role with
    | value => simp only [Role.effects, Toolchain.valueEffects, hsite, hget, rule?_get]; rfl
    | statement => simp only [Role.effects, Toolchain.statementEffects, hsite, hget, rule?_get]; rfl
  · have hset : b.tag = "variables_set" ∧ role = .statement := by simpa [Block.uses, hget] using h
    obtain ⟨htag, rfl⟩ := hset
    refine ⟨[.value "VALUE" .loosest], ?_, by simp [Effect.IsQuiet]⟩
    rw [← variableName_site .standard b]
    simp only [Role.effects, Toolchain.statementEffects, hsite, htag, rule?_set]
    rfl

theorem quiet_of_not_use {b : Block} {role : Role} (h : b.uses role = false) :
    ∀ e ∈ role.effects .standard (b.site .standard), e.IsQuiet := by
  have hsite : (b.site .standard).tag = b.tag := rfl
  have hget : b.tag ≠ "variables_get" := by
    intro hget
    simp [Block.uses, hget] at h
  cases role with
  | value =>
    simp only [Role.effects, Toolchain.valueEffects, hsite]
    split
    next rule hrule =>
      by_cases hset : b.tag = "variables_set"
      · rw [hset, rule?_set] at hrule
        cases hrule
      · exact Site.quiet_valueRule _ (isNaming_of_rule? hrule hget hset)
    next => simp [Effect.IsQuiet]
    next => simp [Site.unknownEffects, Effect.IsQuiet]
  | statement =>
    have hset : b.tag ≠ "variables_set" := by
      intro hset
      simp [Block.uses, hset] at h
    simp only [Role.effects, Toolchain.statementEffects, hsite]
    split
    next rule hrule => exact Site.quiet_statementRule _ (isNaming_of_rule? hrule hget hset)
    next rule hrule => exact Site.quiet_valueRule _ (isNaming_of_rule? hrule hget hset)
    next => simp [Site.unknownEffects, Effect.IsQuiet]

namespace Block

structure Pairs (b : Block) : Prop where
  value : Paired (b.valueTrace .standard)
  chain : Paired (b.chainTrace .standard)

theorem paired_steps {b : Block} (hi : ∀ e ∈ b.inputs, Pairs e.2) (hs : ∀ e ∈ b.statements, Pairs e.2)
    {effects : List Effect} (h : ∀ e ∈ effects, e.IsQuiet) : Paired (b.steps .standard effects) := by
  induction effects with
  | nil => exact .nil
  | cons effect rest ih =>
    obtain ⟨hquiet, hrest⟩ := List.forall_mem_cons.mp h
    refine Paired.append ?_ (ih hrest)
    cases effect with
    | report kind message => exact .report _ .nil
    | require name => exact .require name .nil
    | identify name => exact hquiet.elim
    | value socket required =>
      rw [Effect.expand, valueTraces_eq_map, Assoc.get?_map]
      cases hget : Assoc.get? socket b.inputs with
      | none => exact .nil
      | some child => exact (hi _ (Assoc.mem_of_get? hget)).value
    | body socket =>
      rw [Effect.expand, chainTraces_eq_map, Assoc.get?_map]
      cases hget : Assoc.get? socket b.statements with
      | none => exact .nil
      | some child => exact (hs _ (Assoc.mem_of_get? hget)).chain

theorem paired_entry {b : Block} (hi : ∀ e ∈ b.inputs, Pairs e.2) (hs : ∀ e ∈ b.statements, Pairs e.2)
    (role : Role) :
    Paired (.enter b role :: b.steps .standard (role.effects .standard (b.site .standard))) := by
  cases h : b.uses role with
  | true =>
    obtain ⟨rest, he, hrest⟩ := effects_of_use h
    rw [he]
    exact .use h (paired_steps hi hs hrest)
  | false => exact .visit h (paired_steps hi hs (quiet_of_not_use h))

mutual
theorem pairs : (b : Block) → Pairs b
  | ⟨id, tag, fields, inputs, statements, next⟩ => by
    have hentry := paired_entry (b := ⟨id, tag, fields, inputs, statements, next⟩) (pairsSockets inputs)
      (pairsSockets statements)
    constructor
    · rw [valueTrace_eq]
      exact hentry .value
    · rw [chainTrace_eq]
      exact (hentry .statement).append (pairsNext next)

theorem pairsSockets : (sockets : List (String × Block)) → ∀ e ∈ sockets, Pairs e.2
  | [] => List.forall_mem_nil _
  | (_, child) :: rest => List.forall_mem_cons.mpr ⟨pairs child, pairsSockets rest⟩

theorem pairsNext : (next : Option Block) → Paired (nextTrace .standard next)
  | none => .nil
  | some b => (pairs b).chain
end

end Block

namespace Workspace

theorem paired_trace (w : Workspace) : Paired (w.trace .standard) := by
  obtain ⟨blocks⟩ := w
  induction blocks with
  | nil => exact .nil
  | cons b rest ih => exact (Block.pairs b).chain.append ih

/-- the uses of variables in a compilation, in order -/
def uses (w : Workspace) : List Visit := (w.visits .standard).filter Visit.isUse

/-! ## the last session -/

section
variable (w : Workspace)

/-- the session that a compilation leads to -/
def session : Session := Session.initial.follow (w.trace .standard)

theorem allotted_session : w.session.Allotted := Session.allotted_initial.follow _

theorem get?_use {u : Visit} (hu : u ∈ w.uses) :
    Assoc.get? u.name w.session.identifiers = some u.identifier :=
  Session.get?_of_use w.paired_trace Session.allotted_initial u hu

theorem mem_identifiers_of_use {u : Visit} (hu : u ∈ w.uses) :
    (u.name, u.identifier) ∈ w.session.identifiers := Assoc.mem_of_get? (w.get?_use hu)

theorem identifier_eq_iff {u v : Visit} (hu : u ∈ w.uses) (hv : v ∈ w.uses) :
    u.identifier = v.identifier ↔ u.name = v.name := by
  constructor
  · intro he
    exact congrArg Prod.fst (List.inj_on_of_nodup_map w.allotted_session.identifiers
      (w.mem_identifiers_of_use hu) (w.mem_identifiers_of_use hv) he)
  · intro he
    have hget := w.get?_use hu
    rw [he, w.get?_use hv] at hget
    exact (Option.some.inj hget).symm

/-- the identifiers are declared in the order of first use -/
theorem map_snd_identifiers :
    w.session.identifiers.map Prod.snd = (w.uses.map Visit.identifier).eraseDups := by
  have hkeys : Assoc.keys w.session.identifiers = (w.uses.map Visit.name).eraseDups :=
    Session.keys_follow w.paired_trace [] rfl
  have hname : ∀ u ∈ w.uses, w.session.nameOf u.name = u.identifier := by
    intro u hu
    rw [Session.nameOf, w.get?_use hu, Option.getD_some]
  have hinj : ∀ a ∈ w.uses.map Visit.name, ∀ b ∈ w.uses.map Visit.name,
      w.session.nameOf a = w.session.nameOf b → a = b := by
    intro a ha b hb he
    obtain ⟨u, hu, rfl⟩ := List.mem_map.mp ha
    obtain ⟨v, hv, rfl⟩ := List.mem_map.mp hb
    rw [hname u hu, hname v hv] at he
    exact (w.identifier_eq_iff hu hv).mp he
  calc w.session.identifiers.map Prod.snd
      = (Assoc.keys w.session.identifiers).map w.session.nameOf := by
        rw [Assoc.keys, List.map_map]
        refine List.map_congr_left fun v hv => ?_
        rw [Function.comp_apply, Session.nameOf, Assoc.get?_of_nodup w.allotted_session.names hv,
          Option.getD_some]
    _ = ((w.uses.map Visit.name).map w.session.nameOf).eraseDups := by rw [hkeys, eraseDups_map hinj]
    _ = (w.uses.map Visit.identifier).eraseDups := by
        rw [List.map_map]
        exact congrArg List.eraseDups (List.map_congr_left hname)

end

/-! ## what a use looks like -/

theorem text_of_get {u : Visit} (h : u.block.tag = "variables_get") :
    u.text .standard = u.identifier := by
  obtain ⟨b, role, s⟩ := u
  have hsite : (b.site .standard).tag = "variables_get" := h
  have hrun : ((Site.render Options.standard.indent (b.site .standard) none
      Rule.Standard.variableGet).run s).1.text = (s.identify b.variableName).1 ++ "" := by
    rw [← variableName_site .standard b]
    rfl
  rw [String.append_empty] at hrun
  cases role with
  | value =>
    simp only [Visit.text, Toolchain.valueOf, hsite, rule?_get]
    exact hrun
  | statement =>
    simp only [Visit.text, Toolchain.statementOf, hsite, rule?_get]
    exact hrun

theorem text_of_set {u : Visit} (h : u.block.tag = "variables_set") (hp : u.role = .statement) :
    ∃ value, u.text .standard = u.identifier ++ " = " ++ value ++ "\n" := by
  obtain ⟨b, role, s⟩ := u
  obtain rfl : role = .statement := hp
  have hsite : (b.site .standard).tag = "variables_set" := h
  have hrun : ∃ value, ((Site.renderLines Options.standard.indent (b.site .standard)
      Rule.Standard.variableSet).run s).1
        = (s.identify b.variableName).1 ++ (" = " ++ (value ++ "")) ++ "\n" ++ "" := by
    rw [← variableName_site .standard b]
    exact ⟨_, rfl⟩
  obtain ⟨value, hvalue⟩ := hrun
  refine ⟨value, ?_⟩
  simp only [Visit.text, Toolchain.statementOf, hsite, rule?_set]
  rw [String.append_empty, String.append_empty, ← String.append_assoc] at hvalue
  exact hvalue

/-! ## the variables of a script -/

/-- two uses of variables have the same identifier exactly if they have the same name.  Every identifier is a
name that hides nothing the code calls, and it is what stands in the code of its use.  The script declares
each of them once, in the order of first use, after the imports and before the chains -/
theorem variables_allotted (w : Workspace) :
    (∀ u ∈ w.uses, ∀ v ∈ w.uses, u.identifier = v.identifier ↔ u.name = v.name)
    ∧ (∀ u ∈ w.uses, IsName u.identifier ∧ u.identifier ∉ Session.reservedNames
      ∧ u.identifier ∉ Rule.Standard.calls
      ∧ (u.block.tag = "variables_get" ∧ u.text .standard = u.identifier
        ∨ u.block.tag = "variables_set"
          ∧ ∃ value, u.text .standard = u.identifier ++ " = " ++ value ++ "\n"))
    ∧ let run := (compileChains .standard w.blocks).run .initial
      let declarations := (w.uses.map Visit.identifier).eraseDups.map (· ++ " = None\n")
      run.2 = Session.initial.follow (w.trace .standard)
      ∧ (w.compile .standard).code = String.intercalate "\n"
        (([run.2.importSection, String.join declarations] ++ run.1).filter (· ≠ "")) := by
  refine ⟨fun u hu v hv => w.identifier_eq_iff hu hv, fun u hu => ?_, ?_⟩
  · obtain ⟨hname, hfree, -⟩ := w.allotted_session.sound _ (w.mem_identifiers_of_use hu)
    refine ⟨hname, hfree, fun hcall => hfree (Rule.Standard.reserved_of_mem_calls _ hcall), ?_⟩
    have huse : u.isUse = true := (List.mem_filter.mp hu).2
    by_cases hget : u.block.tag = "variables_get"
    · exact Or.inl ⟨hget, text_of_get hget⟩
    · have hset : u.block.tag = "variables_set" ∧ u.role = .statement := by
        simpa [Visit.isUse, Block.uses, hget] using huse
      exact Or.inr ⟨hset.1, text_of_set hset.1 hset.2⟩
  · intro run declarations
    have hsession : run.2 = w.session := w.run_compileChains .standard .initial
    refine ⟨hsession, ?_⟩
    have hsection : String.join declarations = run.2.variableSection := by
      rw [hsession, Session.variableSection]
      simp only [declarations]
      rw [← w.map_snd_identifiers, List.map_map]
      rfl
    rw [hsection]
    rfl

/-- names that come to the same word, a keyword, a reserved name and no word at all, and no name -/
def sampleVariables : Workspace :=
  ⟨[("a", "Foo"), ("b", "foo"), ("c", "class"), ("d", "Print"), ("e", "é"), ("f", "foo")].map fun e =>
    ⟨e.1, "variables_set", [("VAR", .string e.2)],
      [("VALUE", ⟨e.1 ++ e.1, "variables_get", [("VAR", .null)], [], [], none⟩)], [], none⟩⟩

theorem variables_allotted_sampleVariables :
    (sampleVariables.uses.map fun u => (u.name, u.identifier)).eraseDups
      = [("Foo", "foo"), ("item", "item"), ("foo", "foo_2"), ("class", "class_"), ("Print", "print_2"),
         ("é", "variable_6")]
    ∧ ∀ u ∈ sampleVariables.uses, ∀ v ∈ sampleVariables.uses, u.identifier = v.identifier ↔ u.name = v.name :=
  ⟨by decide, (variables_allotted sampleVariables).1⟩

end Workspace
end VisualProgram
