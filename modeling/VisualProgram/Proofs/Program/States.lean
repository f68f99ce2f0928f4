import VisualProgram.Proofs.Program.Configurations
import VisualProgram.Proofs.Program.Faithful
import VisualProgram.Proofs.Workspace.Reachable
import Mathlib.Data.List.Forall2

/-!
# Script states, embedded or as text

The state of a script is kept in a property of its node, as a value or as a string that holds the text of the
value.  The two are read on different ways: a text is taken for a workspace before it has become a value, from all
that it says (`ofText`), and a value is read member by member (`ofJson`).  The text of a value says what the value
says (`ofText?_compact`, `ofText?_pretty`), and the two readers agree on that (`Block.ofJson?_eq`, `ofJson_eq`).  So
they accept the same states, records spelled as arrays, nulls, missing and unknown keys included, and refuse the
others for the same cause (`ofState_string`).

What a program says of a node comes from the configuration of this node alone (`lines_plan`).  Hence the
spelling of a state does not show in the program, and the code of a script is that of its workspace whatever
other nodes there are.
-/

namespace VisualProgram
open Json
open Python (floats)

theorem Workspace.ofState_string {v : Json} (hv : v.text? = none) {text : String}
    (ht : Raw.ofText? text = some (Raw.ofJson v)) : ofState (.string text) = ofState v := by
  have hvalue : ofState v = ofJson v := by
    cases v with
    | string s => cases hv
    | _ => rfl
  show ofText text = ofState v
  rw [hvalue, ofJson_eq, ofText, ht, Option.bind_some]

/-- the node with another value for one of its properties -/
def Node.withProperty (key : String) (value : Json) (n : Node) : Node :=
  { n with properties := Assoc.put key value n.properties }

namespace Program

/-! ## the configuration of a node -/

section
variable {t : Toolchain} {n : Node} {state : Json}

theorem nodeScript_eq (h : Assoc.get? t.options.scriptStateKey n.properties = some state) :
    nodeScript t n = some ((Workspace.ofState state).map (Workspace.compile t)) := by
  rw [nodeScript, h]
  rfl

/-- states that load alike give the same configuration -/
theorem nodeConfig_withProperty {other : Json}
    (h : Assoc.get? t.options.scriptStateKey n.properties = some state)
    (hload : Workspace.ofState other = Workspace.ofState state) :
    nodeConfig t (n.withProperty t.options.scriptStateKey other) = nodeConfig t n := by
  have hget : Assoc.get? t.options.scriptStateKey
      (n.withProperty t.options.scriptStateKey other).properties = some other := by
    rw [Node.withProperty, Assoc.get?_put, if_pos rfl]
  have hscript : nodeScript t (n.withProperty t.options.scriptStateKey other) = nodeScript t n := by
    rw [nodeScript_eq hget, nodeScript_eq h, hload]
  have hown := Assoc.filter_put t.options.scriptStateKey other n.properties
  unfold nodeConfig
  rw [hscript]
  simp only [Node.withProperty, hown]

theorem generatedCode_nodeConfig {w : Workspace}
    (h : Assoc.get? t.options.scriptStateKey n.properties = some state)
    (hload : Workspace.ofState state = .ok w) :
    Assoc.get? t.options.generatedCodeKey (nodeConfig t n) = some (.string (w.compile t).code) := by
  have hloaded : loaded? t n = some w := by
    rw [loaded?, h, Option.bind_some, hload]
    rfl
  rw [get?_nodeConfig, if_pos rfl, hloaded]
  rfl

end

/-! ## the text of a program -/

/-- two nodes that differ in nothing the program says of them -/
structure SaidAlike (t : Toolchain) (a b : Node) : Prop where
  id : a.id = b.id
  type : a.type = b.type
  label : a.label = b.label
  config : nodeConfig t a = nodeConfig t b

theorem SaidAlike.refl (t : Toolchain) (n : Node) : SaidAlike t n n := ⟨rfl, rfl, rfl, rfl⟩

section
variable {t : Toolchain} {nodes others : List Node}

theorem classNames_alike (h : List.Forall₂ (SaidAlike t) nodes others) :
    classNames t nodes = classNames t others := by
  have hnames : nodes.map (className t) = others.map (className t) := by
    induction h with
    | nil => rfl
    | cons hn _ ih => rw [List.map_cons, List.map_cons, ih, className, className, hn.type]
  rw [classNames, classNames, hnames]

/-- the lines of an instance are told by the id, the type and the configuration of its node, and by the names
that were given before -/
theorem lines_plan (unit : String) (h : List.Forall₂ (SaidAlike t) nodes others) (scope : Scope) :
    (plan t scope nodes).flatMap (instanceLines unit)
      = (plan t scope others).flatMap (instanceLines unit) := by
  induction h generalizing scope with
  | nil => rfl
  | @cons a b nodes others hn _ ih =>
    have hname : nodeIdentifier a = nodeIdentifier b := by
      rw [nodeIdentifier, nodeIdentifier, hn.id, hn.label]
    have hclass : className t a = className t b := by rw [className, className, hn.type]
    have hlines : ∀ name, instanceLines unit ⟨a, name, className t a, nodeConfig t a⟩
        = instanceLines unit ⟨b, name, className t b, nodeConfig t b⟩ := by
      intro name
      unfold instanceLines
      rw [hn.id, hn.type, hn.config, hclass]
    rw [plan_cons, plan_cons, List.flatMap_cons, List.flatMap_cons, ih, hname, hlines]

theorem source_alike (h : List.Forall₂ (SaidAlike t) nodes others) (info : Meta) (wires : List Wire) :
    (compile t ⟨info, nodes, wires⟩).source = (compile t ⟨info, others, wires⟩).source := by
  have hlines := lines_plan t.options.indent h (.reserving scaffoldNames)
  rw [source_compile, source_compile, createEngine, createEngine, classNames_alike h, hlines]

end

/-! ## either spelling -/

/-- a state that is no string and the string that holds its text, with blanks or without, are loaded with the same
result: the same workspace, or the same cause for which it is refused; so a script node may have either of them,
and the program is the same; if the state loads, the code in the configuration of the node is that of the
workspace on its own -/
theorem state_embedded_or_text (v : Json) (hv : v.text? = none) (hnumbers : ∀ x ∈ floats v, ReadsBack x)
    (text : String) (htext : text = v.compact ∨ text = v.pretty) :
    Workspace.ofState (.string text) = Workspace.ofState v
    ∧ ∀ (t : Toolchain) (n : Node), Assoc.get? t.options.scriptStateKey n.properties = some v →
      nodeConfig t (n.withProperty t.options.scriptStateKey (.string text)) = nodeConfig t n
      ∧ (∀ (info : Meta) (before after : List Node) (wires : List Wire),
        (compile t
            ⟨info, before ++ n.withProperty t.options.scriptStateKey (.string text) :: after, wires⟩).source
          = (compile t ⟨info, before ++ n :: after, wires⟩).source)
      ∧ (∀ w : Workspace, Workspace.ofState v = .ok w →
        Assoc.get? t.options.generatedCodeKey (nodeConfig t n) = some (.string (w.compile t).code))
      ∧ ∀ g : Graph, n ∈ g.nodes →
        ∃ i ∈ plan t (.reserving scaffoldNames) g.nodes, i.node = n ∧ i.config = nodeConfig t n := by
  have hread : Raw.ofText? text = some (Raw.ofJson v) := by
    rcases htext with rfl | rfl
    · exact ofText?_compact hnumbers
    · exact ofText?_pretty hnumbers
  have hload := Workspace.ofState_string hv hread
  refine ⟨hload, fun t n hn => ⟨nodeConfig_withProperty hn hload, fun info before after wires => ?_,
    fun w hw => generatedCode_nodeConfig hn hw, fun g hg => exists_instance _ hg⟩⟩
  have hnode : SaidAlike t (n.withProperty t.options.scriptStateKey (.string text)) n :=
    ⟨rfl, rfl, rfl, nodeConfig_withProperty hn hload⟩
  have hothers : ∀ nodes : List Node, List.Forall₂ (SaidAlike t) nodes nodes :=
    fun _ => List.forall₂_same.mpr fun m _ => .refl t m
  exact source_alike (List.rel_append (hothers before) (.cons hnode (hothers after))) info wires

/-- a state and one of its blocks spelled as arrays, and a block with an unknown key and no `next` -/
def sampleScript : Json :=
  .array [.array [.array [.string "a", .string "text_print", .object [("AT", .ofFloat 0.1)]],
    .object [("type", .string "math_number"), ("extra", .bool true), ("id", .string "b"), ("next", .null)]]]

/-- an id twice -/
def sampleRepeat : Json :=
  .object [("blocks", .array [.array [.string "a", .string "text"], .array [.string "a", .string "text"]])]

def sampleScripted : Node := ⟨"s", "script", "Script", .origin, [("rate", .ofNat 2), ("blocks", sampleScript)]⟩

theorem state_embedded_or_text_sampleScript :
    (∃ w, Workspace.ofState sampleScript = .ok w ∧ w.ids = ["a", "b"]
      ∧ Workspace.ofState (.string sampleScript.compact) = .ok w
      ∧ Assoc.get? "generatedCode" (nodeConfig .standard sampleScripted)
        = some (.string (w.compile .standard).code))
    ∧ (compile .standard
          ⟨.standard, [sampleScripted.withProperty "blocks" (.string sampleScript.compact)], []⟩).source
      = (compile .standard ⟨.standard, [sampleScripted], []⟩).source
    ∧ Workspace.ofState (.string sampleRepeat.pretty) = .error (.invalid (.duplicateBlock "a")) := by
  obtain ⟨w, hw, hids⟩ : ∃ w, Workspace.ofState sampleScript = .ok w ∧ w.ids = ["a", "b"] :=
    ⟨_, rfl, by decide⟩
  obtain ⟨hload, hnode⟩ := state_embedded_or_text sampleScript rfl (by decide) _ (.inl rfl)
  obtain ⟨-, hsource, hcode, -⟩ := hnode .standard sampleScripted rfl
  obtain ⟨hrepeat, -⟩ := state_embedded_or_text sampleRepeat rfl (by decide) _ (.inr rfl)
  exact ⟨⟨w, hw, hids, hload.trans hw, hcode w hw⟩, hsource .standard [] [] [], hrepeat⟩

end Program
end VisualProgram
