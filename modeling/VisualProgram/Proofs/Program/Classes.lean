import VisualProgram.Program
import VisualProgram.Proofs.Assoc
import VisualProgram.Proofs.Lists
import VisualProgram.Proofs.Script.Reports

/-!
# The classes of a program

The classes are resolved in one pass over the nodes, type by type, and two things are made on the way: the list
of class names for the imports and the table from which every instance takes its class.  Several types may have
the same class, so a type that is new need not bring a new name.

`ClassTable.Covers` is what the pass keeps up: the names are those of the nodes so far, each once and in order
of first use, every type met has the name of its class, and every type without a class has been reported at its
first node.  A node is met before its instance is planned, so its class is always in the table
(`nameFor_ofNodes`).
-/

namespace VisualProgram

/-! ## tags and their classes -/

theorem Identifier.bareTag_of_plain {tag : String} (h : ':' ∉ tag.toList) : bareTag tag = tag := by
  have htake : tag.toList.reverse.takeWhile (· != ':') = tag.toList.reverse := by
    refine List.takeWhile_eq_self_iff.mpr fun c hc => bne_iff_ne.mpr ?_
    rintro rfl
    exact h (List.mem_reverse.mp hc)
  rw [bareTag, htake, List.reverse_reverse, String.ofList_toList]

/-- of the colons of a tag the last one ends its namespace -/
theorem Identifier.bareTag_namespaced (space : String) {name : String} (h : ':' ∉ name.toList) :
    bareTag (space ++ ":" ++ name) = name := by
  have htake : (name.toList.reverse ++ ':' :: space.toList.reverse).takeWhile (· != ':') = name.toList.reverse := by
    refine (List.takeWhile_append_of_pos fun c hc => bne_iff_ne.mpr ?_).trans (List.append_nil _)
    rintro rfl
    exact h (List.mem_reverse.mp hc)
  have hreverse : (space ++ ":" ++ name).toList.reverse = name.toList.reverse ++ ':' :: space.toList.reverse := by
    rw [String.toList_append, String.toList_append, List.reverse_append, List.reverse_append]
    rfl
  rw [bareTag, hreverse, htake, List.reverse_reverse, String.ofList_toList]

namespace Toolchain
variable (t : Toolchain) (type : String)

/-- a class is found under the whole tag, or else under the tag without its namespace -/
theorem class?_eq_some_iff (cls : ComponentClass) :
    t.class? type = some cls ↔ Assoc.get? type t.classes = some cls
      ∨ type ∉ Assoc.keys t.classes ∧ Assoc.get? (Identifier.bareTag type) t.classes = some cls := by
  rw [class?, Option.or_eq_some_iff, Assoc.get?_eq_none_iff]

theorem derived_resolve : (t.resolve type).derived = true ↔ t.class? type = none := by
  unfold resolve
  cases t.class? type <;> simp

/-- the name of the class that is found, or one made from the tag without its namespace -/
theorem name_resolve :
    (t.resolve type).name = ((t.class? type).map ComponentClass.name).getD
      (Identifier.className t.options.classSuffix (Identifier.bareTag type)) := by
  unfold resolve
  cases t.class? type <;> rfl

end Toolchain

namespace Program

/-- the class names of some nodes, each once, in order of first use -/
def classNames (t : Toolchain) (nodes : List Node) : List String :=
  (nodes.map (className t)).eraseDups

/-- the types of some nodes that have no class, each once, in order of first use -/
def unregistered (t : Toolchain) (nodes : List Node) : List String :=
  (nodes.map Node.type).eraseDups.filter fun type => t.class? type = none

/-- a report of a type at the first node that has it -/
def ReportsFirst (t : Toolchain) (nodes : List Node) (type : String) (d : Diagnostic) : Prop :=
  ∃ n, nodes.find? (·.type = type) = some n ∧ d = unresolvedAt t n

theorem ReportsFirst.append {t : Toolchain} {nodes : List Node} {type : String} {d : Diagnostic}
    (h : ReportsFirst t nodes type d) (more : List Node) : ReportsFirst t (nodes ++ more) type d := by
  obtain ⟨n, hfind, hd⟩ := h
  refine ⟨n, ?_, hd⟩
  rw [List.find?_append, hfind, Option.some_or]

/-! ## one more node -/

section
variable {t : Toolchain} {nodes : List Node} {n : Node}

theorem classNames_concat (t : Toolchain) (nodes : List Node) (n : Node) :
    classNames t (nodes ++ [n])
      = classNames t nodes ++ if className t n ∈ classNames t nodes then [] else [className t n] := by
  rw [classNames, List.map_append, List.map_singleton, eraseDups_concat, classNames,
    if_congr List.mem_eraseDups rfl rfl]

theorem unregistered_concat (t : Toolchain) (nodes : List Node) (n : Node) :
    unregistered t (nodes ++ [n]) = unregistered t nodes
      ++ if n.type ∉ nodes.map Node.type ∧ t.class? n.type = none then [n.type] else [] := by
  rw [unregistered, List.map_append, List.map_singleton, eraseDups_concat, List.filter_append, unregistered]
  by_cases hmet : n.type ∈ nodes.map Node.type
  · rw [if_pos hmet, if_neg fun h => h.1 hmet, List.filter_nil]
  · rw [if_neg hmet]
    by_cases hclass : t.class? n.type = none
    · rw [if_pos ⟨hmet, hclass⟩, List.filter_cons_of_pos (by simp [hclass]), List.filter_nil]
    · rw [if_neg fun h => hclass h.2, List.filter_cons_of_neg (by simp [hclass]), List.filter_nil]

/-- nodes of one type have one class -/
theorem className_mem_of_met (h : n.type ∈ nodes.map Node.type) : className t n ∈ classNames t nodes := by
  obtain ⟨m, hm, htype⟩ := List.mem_map.mp h
  refine List.mem_eraseDups.mpr (List.mem_map.mpr ⟨m, hm, ?_⟩)
  rw [className, className, htype]

theorem find?_concat_of_new (h : n.type ∉ nodes.map Node.type) :
    (nodes ++ [n]).find? (·.type = n.type) = some n := by
  have hnone : nodes.find? (·.type = n.type) = none := by
    refine List.find?_eq_none.mpr fun m hm htype => h ?_
    exact List.mem_map.mpr ⟨m, hm, of_decide_eq_true htype⟩
  have hn : decide (n.type = n.type) = true := decide_eq_true rfl
  rw [List.find?_append, hnone, Option.none_or, List.find?_cons, hn]

end

/-! ## the table -/

namespace ClassTable

structure Covers (t : Toolchain) (nodes : List Node) (table : ClassTable) : Prop where
  names : table.names = classNames t nodes
  ofType : ∀ type, Assoc.get? type table.ofType
    = if type ∈ nodes.map Node.type then some (t.resolve type).name else none
  reports : List.Forall₂ (ReportsFirst t nodes) (unregistered t nodes) table.diagnostics

section
variable {t : Toolchain} {nodes : List Node} {table : ClassTable}

theorem Covers.contains_iff (h : Covers t nodes table) (type : String) :
    Assoc.contains type table.ofType = true ↔ type ∈ nodes.map Node.type := by
  rw [Assoc.contains, h.ofType]
  split <;> simp [*]

/-- a type that was met before changes nothing -/
theorem Covers.again (h : Covers t nodes table) {n : Node} (hmet : n.type ∈ nodes.map Node.type) :
    Covers t (nodes ++ [n]) table := by
  refine ⟨?_, fun type => ?_, ?_⟩
  · rw [classNames_concat, if_pos (className_mem_of_met hmet), List.append_nil, h.names]
  · have hsame : type ∈ (nodes ++ [n]).map Node.type ↔ type ∈ nodes.map Node.type := by
      rw [List.map_append, List.map_singleton, List.mem_append, List.mem_singleton]
      exact or_iff_left_of_imp fun htype => htype ▸ hmet
    rw [h.ofType, if_congr hsame rfl rfl]
  · rw [unregistered_concat, if_neg fun hnew => hnew.1 hmet, List.append_nil]
    exact h.reports.imp fun _ _ hd => hd.append [n]

/-- the first node of a type: its class is entered, and its name listed unless another type has it -/
theorem Covers.first (h : Covers t nodes table) {n : Node} (hnew : n.type ∉ nodes.map Node.type) :
    Covers t (nodes ++ [n])
      { names := if className t n ∈ table.names then table.names else table.names ++ [className t n]
        ofType := Assoc.put n.type (className t n) table.ofType
        diagnostics :=
          if (t.resolve n.type).derived then table.diagnostics ++ [unresolvedAt t n]
          else table.diagnostics } := by
  refine ⟨?_, fun type => ?_, ?_⟩
  · rw [classNames_concat, h.names]
    split
    next => rw [List.append_nil]
    next => rfl
  · rw [Assoc.get?_put, h.ofType, List.map_append, List.map_singleton]
    by_cases htype : n.type = type
    · subst htype
      rw [if_pos rfl, if_pos (List.mem_append_right _ (List.mem_singleton_self _)), className]
    · have hsame : type ∈ nodes.map Node.type ++ [n.type] ↔ type ∈ nodes.map Node.type := by
        rw [List.mem_append, List.mem_singleton]
        exact or_iff_left_of_imp fun he => absurd he.symm htype
      rw [if_neg htype, if_congr hsame rfl rfl]
  · have hbefore := h.reports.imp fun _ _ hd => hd.append [n]
    rw [unregistered_concat]
    by_cases hclass : t.class? n.type = none
    · rw [if_pos ⟨hnew, hclass⟩, if_pos ((t.derived_resolve _).mpr hclass)]
      exact List.rel_append hbefore (.cons ⟨n, find?_concat_of_new hnew, rfl⟩ .nil)
    · rw [if_neg fun hn => hclass hn.2, if_neg fun hd => hclass ((t.derived_resolve _).mp hd),
        List.append_nil]
      exact hbefore

theorem Covers.meet (h : Covers t nodes table) (n : Node) : Covers t (nodes ++ [n]) (table.meet t n) := by
  unfold ClassTable.meet
  split
  next hmet => exact h.again ((h.contains_iff _).mp hmet)
  next hnew => exact h.first fun hmet => hnew ((h.contains_iff _).mpr hmet)

end

theorem covers_ofNodes (t : Toolchain) (nodes : List Node) : Covers t nodes (ofNodes t nodes) := by
  induction nodes using List.reverseRecOn with
  | nil => exact ⟨rfl, fun _ => rfl, .nil⟩
  | append_singleton nodes n ih =>
    rw [ofNodes, List.foldl_append, List.foldl_cons, List.foldl_nil]
    exact ih.meet n

theorem get?_ofNodes (t : Toolchain) {nodes : List Node} {n : Node} (h : n ∈ nodes) :
    Assoc.get? n.type (ofNodes t nodes).ofType = some (className t n) := by
  rw [(covers_ofNodes t nodes).ofType, if_pos (List.mem_map_of_mem h), className]

/-- the class of a node is in the table, so what stands for a missing one is never used -/
theorem nameFor_ofNodes (t : Toolchain) {nodes : List Node} {n : Node} (h : n ∈ nodes) :
    (ofNodes t nodes).nameFor n = className t n := by
  rw [nameFor, get?_ofNodes t h, Option.getD_some]

end ClassTable

/-! ## instances -/

theorem planWith_cons (t : Toolchain) (table : ClassTable) (scope : Scope) (n : Node) (rest : List Node) :
    planWith t table scope (n :: rest)
      = ⟨n, scope.fresh (nodeIdentifier n), table.nameFor n, nodeConfig t n⟩
        :: planWith t table (scope.claim (nodeIdentifier n)).2 rest := rfl

theorem planWith_congr {t : Toolchain} {a b : ClassTable} {nodes : List Node}
    (h : ∀ n ∈ nodes, a.nameFor n = b.nameFor n) (scope : Scope) :
    planWith t a scope nodes = planWith t b scope nodes := by
  induction nodes generalizing scope with
  | nil => rfl
  | cons n rest ih =>
    obtain ⟨hn, hrest⟩ := List.forall_mem_cons.mp h
    rw [planWith_cons, planWith_cons, hn, ih hrest]

/-- every instance is planned from its own node and the names that were given before -/
theorem plan_cons (t : Toolchain) (scope : Scope) (n : Node) (rest : List Node) :
    plan t scope (n :: rest)
      = ⟨n, scope.fresh (nodeIdentifier n), className t n, nodeConfig t n⟩
        :: plan t (scope.claim (nodeIdentifier n)).2 rest := by
  have hrest : ∀ m ∈ rest, (ClassTable.ofNodes t (n :: rest)).nameFor m
      = (ClassTable.ofNodes t rest).nameFor m := fun m hm => by
    rw [ClassTable.nameFor_ofNodes t (List.mem_cons_of_mem n hm), ClassTable.nameFor_ofNodes t hm]
  rw [plan, planWith_cons, ClassTable.nameFor_ofNodes t List.mem_cons_self, planWith_congr hrest, plan]

@[simp] theorem nodes_plan (t : Toolchain) (scope : Scope) (nodes : List Node) :
    (plan t scope nodes).map Instance.node = nodes := by
  induction nodes generalizing scope with
  | nil => rfl
  | cons node rest ih => rw [plan_cons, List.map_cons, ih]

/-- an instance has the class and the configuration of its node -/
theorem made_of_mem_plan {t : Toolchain} {scope : Scope} {nodes : List Node} :
    ∀ i ∈ plan t scope nodes,
      i.className = (t.resolve i.node.type).name ∧ i.config = nodeConfig t i.node := by
  induction nodes generalizing scope with
  | nil => exact List.forall_mem_nil _
  | cons node rest ih =>
    rw [plan_cons]
    exact List.forall_mem_cons.mpr ⟨⟨rfl, rfl⟩, ih⟩

theorem className_of_mem_plan {t : Toolchain} {scope : Scope} {nodes : List Node} :
    ∀ i ∈ plan t scope nodes, i.className = (t.resolve i.node.type).name :=
  fun i hi => (made_of_mem_plan i hi).1

/-- every node has an instance, with the configuration made from this node alone -/
theorem exists_instance {t : Toolchain} {nodes : List Node} (scope : Scope) {n : Node} (h : n ∈ nodes) :
    ∃ i ∈ plan t scope nodes, i.node = n ∧ i.config = nodeConfig t n := by
  rw [← nodes_plan t scope nodes] at h
  obtain ⟨i, hi, rfl⟩ := List.mem_map.mp h
  exact ⟨i, hi, rfl, (made_of_mem_plan i hi).2⟩

/-! ## the whole -/

theorem classes_compile (t : Toolchain) (g : Graph) : (compile t g).classes = classNames t g.nodes :=
  (ClassTable.covers_ofNodes t g.nodes).names

theorem source_compile (t : Toolchain) (g : Graph) :
    (compile t g).source = writeLines t.options.indent
      (header g.info ++ imports t.options (classNames t g.nodes) ++ logging
        ++ createEngine t.options (plan t (.reserving scaffoldNames) g.nodes) g.wires
        ++ mainLines t.options g.info) := by
  rw [← (ClassTable.covers_ofNodes t g.nodes).names]
  rfl

/-! ## diagnostics -/

/-- what is reported of a node: of the blocks of its script, or that the state of the script does not load -/
theorem mem_nodeDiagnostics {t : Toolchain} {n : Node} {d : Diagnostic} (h : d ∈ nodeDiagnostics t n) :
    d.kind.isOfBlock = true
    ∨ ∃ state cause, Assoc.get? t.options.scriptStateKey n.properties = some state
      ∧ Workspace.ofState state = .error cause ∧ d = ⟨n.id, .invalidScriptState, cause.message⟩ := by
  unfold nodeDiagnostics nodeScript at h
  cases hstate : Assoc.get? t.options.scriptStateKey n.properties with
  | none =>
    rw [hstate] at h
    cases h
  | some state =>
    rw [hstate, Option.map_some] at h
    cases hload : Workspace.ofState state with
    | error cause =>
      rw [hload] at h
      exact .inr ⟨state, cause, rfl, hload, List.mem_singleton.mp h⟩
    | ok w =>
      rw [hload] at h
      exact .inl (Workspace.isOfBlock_of_mem_diagnostics h)

theorem kind_of_mem_table {t : Toolchain} {nodes : List Node} {d : Diagnostic}
    (h : d ∈ (ClassTable.ofNodes t nodes).diagnostics) : d.kind = .unresolvedComponentType := by
  obtain ⟨i, hi, rfl⟩ := List.mem_iff_getElem.mp h
  have hreports := (ClassTable.covers_ofNodes t nodes).reports
  obtain ⟨n, -, hn⟩ := hreports.get (hreports.length_eq ▸ hi) hi
  exact congrArg Diagnostic.kind hn

/-- the types without a class are all that is reported of types -/
theorem filter_unresolved (t : Toolchain) (g : Graph) :
    (compile t g).diagnostics.filter (·.kind = .unresolvedComponentType)
      = (ClassTable.ofNodes t g.nodes).diagnostics := by
  have htable : ∀ d ∈ (ClassTable.ofNodes t g.nodes).diagnostics,
      decide (d.kind = .unresolvedComponentType) = true :=
    fun d hd => decide_eq_true (kind_of_mem_table hd)
  have hnodes : ∀ d ∈ g.nodes.flatMap (nodeDiagnostics t),
      ¬ decide (d.kind = .unresolvedComponentType) = true := by
    intro d hd hkind
    obtain ⟨n, -, hn⟩ := List.mem_flatMap.mp hd
    have hk := of_decide_eq_true hkind
    rcases mem_nodeDiagnostics hn with hblock | ⟨_, _, -, -, rfl⟩
    · rw [hk] at hblock
      cases hblock
    · cases hk
  show List.filter _ (_ ++ _) = _
  rw [List.filter_append, List.filter_eq_self.mpr htable, List.filter_eq_nil_iff.mpr hnodes, List.append_nil]

/-! ## the text -/

@[simp] theorem writeLines_append (unit : String) (a b : List Line) :
    writeLines unit (a ++ b) = writeLines unit a ++ writeLines unit b := by
  rw [writeLines, List.map_append, String.join_append, writeLines, writeLines]

@[simp] theorem writeLines_singleton (unit : String) (line : Line) : writeLines unit [line] = writeLine unit line :=
  String.join_cons.trans String.append_empty

/-- what stands before the import of the classes -/
def engineImports (o : Options) : List Line :=
  [(0, "import logging"), (0, "import time"), blank,
   (0, "from " ++ o.engineModule ++ " import " ++ o.engineClass)]

/-- the import of some classes, a line for each name -/
def importSection (o : Options) (classes : List String) : String :=
  "from " ++ o.componentModule ++ " import (\n"
    ++ String.join (classes.map fun name => o.indent ++ name ++ ",\n") ++ ")\n"

theorem writeLines_imports (o : Options) (classes : List String) :
    writeLines o.indent (imports o classes)
      = writeLines o.indent (engineImports o)
        ++ (if classes = [] then "" else importSection o classes) ++ writeLines o.indent [blank] := by
  have hopening : writeLine o.indent (0, "from " ++ o.componentModule ++ " import (")
      = "from " ++ o.componentModule ++ " import (\n" := by
    rw [writeLine, Text.pad_zero, String.empty_append, String.append_assoc]
    rfl
  have hname : ∀ name : String, writeLine o.indent (1, name ++ ",") = o.indent ++ name ++ ",\n" := by
    intro name
    have hpad : Text.pad o.indent 1 = o.indent := String.join_cons.trans String.append_empty
    rw [writeLine, hpad, String.append_assoc, String.append_assoc, String.append_assoc]
    rfl
  have hsection : writeLines o.indent ([(0, "from " ++ o.componentModule ++ " import (")]
      ++ classes.map (fun name => (1, name ++ ",")) ++ [(0, ")")]) = importSection o classes := by
    have hnames : writeLines o.indent (classes.map fun name => (1, name ++ ","))
        = String.join (classes.map fun name => o.indent ++ name ++ ",\n") := by
      rw [writeLines, List.map_map]
      exact congrArg String.join (List.map_congr_left fun name _ => hname name)
    rw [writeLines_append, writeLines_append, writeLines_singleton, writeLines_singleton, hopening, hnames,
      importSection]
    rfl
  unfold imports
  split
  next => rw [writeLines_append, List.append_nil, String.append_empty, engineImports]
  next => rw [writeLines_append, writeLines_append, hsection, engineImports]

theorem classNames_eq_nil (t : Toolchain) (nodes : List Node) : classNames t nodes = [] ↔ nodes = [] := by
  cases nodes with
  | nil => exact iff_of_true rfl rfl
  | cons n rest =>
    refine iff_of_false (fun h => ?_) (List.cons_ne_nil n rest)
    have hmem : className t n ∈ classNames t (n :: rest) := className_mem_of_met List.mem_cons_self
    rw [h] at hmem
    cases hmem

/-! ## all together -/

/-- the line that makes the instance of a node is among those of the function that makes the engine -/
theorem makeLine_mem_createEngine (o : Options) {instances : List Instance} {i : Instance} (h : i ∈ instances)
    (wires : List Wire) :
    (1, i.identifier ++ " = " ++ i.className ++ "(" ++ Literal.quote i.node.id ++ ", "
      ++ Literal.renderMembers o.indent 1 i.config ++ ")") ∈ createEngine o instances wires := by
  unfold createEngine
  refine List.mem_append_left _ (List.mem_append_left _ (List.mem_append_left _ (List.mem_append_right _ ?_)))
  exact List.mem_flatMap.mpr ⟨i, h, List.mem_cons_of_mem _ List.mem_cons_self⟩

/-- a type has the class under its tag, or under what follows the last colon of it, and else a name made from
that; the classes of a program are those of its nodes, in order, without repetitions.  Every node is made by its
own class, which is one of them: its type is in the table, so no name is left empty.  The text imports exactly
these classes, one a line and in this order; without nodes there is no such import.  The types without a class
are reported once each, in the order in which they come, at the first node that has the type -/
theorem classes_resolved (t : Toolchain) (g : Graph) :
    let classes := (g.nodes.map fun n => (t.resolve n.type).name).eraseDups
    let instances := plan t (.reserving scaffoldNames) g.nodes
    let engine := createEngine t.options instances g.wires
    (∀ type cls, t.class? type = some cls ↔ Assoc.get? type t.classes = some cls
      ∨ type ∉ Assoc.keys t.classes ∧ Assoc.get? (Identifier.bareTag type) t.classes = some cls)
    ∧ (∀ type, (t.resolve type).name = ((t.class? type).map ComponentClass.name).getD
      (Identifier.className t.options.classSuffix (Identifier.bareTag type)))
    ∧ (∀ name : String, ':' ∉ name.toList → Identifier.bareTag name = name
      ∧ ∀ space : String, Identifier.bareTag (space ++ ":" ++ name) = name)
    ∧ (compile t g).classes = classes ∧ classes.Nodup
    ∧ (∀ n ∈ g.nodes,
      Assoc.get? n.type (ClassTable.ofNodes t g.nodes).ofType = some (t.resolve n.type).name)
    ∧ instances.map Instance.node = g.nodes
    ∧ (∀ i ∈ instances, i.className = (t.resolve i.node.type).name ∧ i.className ∈ classes
      ∧ (1, i.identifier ++ " = " ++ i.className ++ "(" ++ Literal.quote i.node.id ++ ", "
        ++ Literal.renderMembers t.options.indent 1 (nodeConfig t i.node) ++ ")") ∈ engine)
    ∧ (compile t g).source = writeLines t.options.indent (header g.info ++ engineImports t.options)
      ++ (if g.nodes = [] then "" else importSection t.options classes)
      ++ writeLines t.options.indent ([blank] ++ logging ++ engine ++ mainLines t.options g.info)
    ∧ List.Forall₂ (fun type d => ∃ n, g.nodes.find? (·.type = type) = some n ∧ d = ⟨n.id, .unresolvedComponentType,
        "component type '" ++ type ++ "' is not registered; using '" ++ (t.resolve type).name ++ "'"⟩)
      ((g.nodes.map Node.type).eraseDups.filter fun type => t.class? type = none)
      ((compile t g).diagnostics.filter (·.kind = .unresolvedComponentType)) := by
  intro classes instances engine
  refine ⟨t.class?_eq_some_iff, t.name_resolve,
    fun name hname => ⟨Identifier.bareTag_of_plain hname, fun space => Identifier.bareTag_namespaced space hname⟩,
    classes_compile t g, nodup_eraseDups _, fun n hn => ClassTable.get?_ofNodes t hn, nodes_plan t _ g.nodes,
    fun i hi => ⟨className_of_mem_plan i hi, ?_, ?_⟩, ?_, ?_⟩
  · have hnode : i.node ∈ g.nodes := nodes_plan t _ g.nodes ▸ List.mem_map_of_mem hi
    rw [className_of_mem_plan i hi]
    exact className_mem_of_met (List.mem_map_of_mem hnode)
  · rw [← (made_of_mem_plan i hi).2]
    exact makeLine_mem_createEngine t.options hi g.wires
  · have hempty : (if g.nodes = [] then "" else importSection t.options classes)
        = if classes = [] then "" else importSection t.options classes :=
      if_congr (classNames_eq_nil t g.nodes).symm rfl rfl
    simp only [source_compile, hempty, writeLines_append, writeLines_imports, String.append_assoc]
    rfl
  · rw [filter_unresolved]
    refine (ClassTable.covers_ofNodes t g.nodes).reports.imp fun type d => ?_
    rintro ⟨n, hfind, rfl⟩
    have htype := List.find?_some hfind
    obtain rfl : n.type = type := of_decide_eq_true htype
    exact ⟨n, hfind, rfl⟩

def sampleTyped (id type : String) : Node := ⟨id, type, "", .origin, []⟩

/-- tags that share a class of the table, and two in different namespaces that share a name made up for them -/
def sampleTypes : Graph := ⟨.standard,
  [sampleTyped "a" "csv_write", sampleTyped "b" "lab:gadget", sampleTyped "c" "daq:csv_storage",
    sampleTyped "d" "gadget", sampleTyped "e" "lab:gadget"], []⟩

theorem classes_resolved_sampleTypes :
    (compile .standard sampleTypes).classes = ["CSVStorageComponent", "GadgetComponent"]
    ∧ (plan .standard (.reserving scaffoldNames) sampleTypes.nodes).map Instance.className
      = ["CSVStorageComponent", "GadgetComponent", "CSVStorageComponent", "GadgetComponent", "GadgetComponent"]
    ∧ ((compile .standard sampleTypes).diagnostics.filter (·.kind = .unresolvedComponentType)).map
      Diagnostic.subject = ["b", "d"] := by
  obtain ⟨-, -, -, hclasses, -⟩ := classes_resolved .standard sampleTypes
  exact ⟨hclasses.trans (by decide +kernel), by decide +kernel, by decide +kernel⟩

end Program
end VisualProgram
