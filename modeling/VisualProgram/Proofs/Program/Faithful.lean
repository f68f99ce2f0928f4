import VisualProgram.Proofs.Literal.RoundTrip
import VisualProgram.Proofs.Program.Classes
import VisualProgram.Proofs.Program.Layout
import VisualProgram.Proofs.Python.Statements

/-!
# Programs say what their graphs say

`readEngine?` reads a program back: it finds the function that makes the engine and reads each of its
lines as a `Step`, with the texts and configurations in it decoded.  Whatever the graph holds, that gives
the steps for its nodes and then for its wires, each in their order, and nothing else
(`readEngine_compile`).
-/

namespace VisualProgram.Program
open Python

/-! ## reading a program -/

/-- what a line of the function says -/
inductive Step where
  | note
  | create
  | make (target className id : String) (config : List (String × Json))
  | add (target : String)
  | connect (source target : Port)
  | finish
deriving DecidableEq

def Step.ofStatement? : Statement → Option Step
  | .comment => some .note
  | .assign "engine" (.call (.name "DAQEngine") []) => some .create
  | .assign target (.call (.name className) [.text id, config]) =>
    match config.value? with
    | some (.object members) => some (.make target className id members)
    | _ => none
  | .expression (.call (.member (.name "engine") "add_component") [.name target]) => some (.add target)
  | .expression (.call (.member (.name "engine") "connect")
      [.text node, .text port, .text node', .text port']) => some (.connect ⟨node, port⟩ ⟨node', port'⟩)
  | .result (.name "engine") => some .finish
  | _ => none

def Step.ofItem? (item : Item) : Option Step := item.statement?.bind ofStatement?

/-- the suite of the function that makes the engine -/
def engineSuite : Item → Option (List Item)
  | .head text suite => if text = "def create_engine():".toList then some suite else none
  | _ => none

/-- the steps of the only function that makes the engine -/
def readEngine? (source : String) : Option (List Step) := do
  let items ← outline? 4 source
  match items.filterMap engineSuite with
  | [suite] => suite.mapM Step.ofItem?
  | _ => none

/-! ## instances -/

/-- the names in the lines of an instance are names -/
structure Instance.Named (i : Instance) : Prop where
  identifier : IsName i.identifier
  className : IsName i.className

/-- the class of a type is one of the table, or is named after the tag -/
theorem resolve_cases (type : String) :
    (∃ entry ∈ Component.table, (Toolchain.standard.resolve type).name = entry.2.name)
    ∨ (Toolchain.standard.resolve type).name
      = Identifier.className Options.standard.classSuffix (Identifier.bareTag type) := by
  rw [Toolchain.resolve]
  split
  next cls hcls =>
    rw [Toolchain.class?, Option.or_eq_some_iff] at hcls
    rcases hcls with hcls | ⟨-, hcls⟩
    · exact Or.inl ⟨_, Assoc.mem_of_get? hcls, rfl⟩
    · exact Or.inl ⟨_, Assoc.mem_of_get? hcls, rfl⟩
  next => exact Or.inr rfl

theorem isName_resolve (type : String) : IsName (Toolchain.standard.resolve type).name := by
  have htable : ∀ entry ∈ Component.table, IsName entry.2.name := by decide +kernel
  rcases resolve_cases type with ⟨entry, hentry, hname⟩ | hname
  · rw [hname]
    exact htable entry hentry
  · rw [hname]
    exact Identifier.isName_className (by decide) (by decide) _

theorem isName_className_standard (node : Node) : IsName (className .standard node) :=
  isName_resolve node.type

/-- the plan has an instance for every node, in order, each under some name -/
theorem plan_eq (t : Toolchain) (scope : Scope) (nodes : List Node) :
    ∃ names : List String, names.length = nodes.length ∧ (∀ v ∈ names, IsName v)
      ∧ plan t scope nodes
        = (nodes.zip names).map fun x => ⟨x.1, x.2, className t x.1, nodeConfig t x.1⟩ := by
  induction nodes generalizing scope with
  | nil => exact ⟨[], rfl, List.forall_mem_nil _, rfl⟩
  | cons node nodes ih =>
    obtain ⟨names, hlength, hnames, hplan⟩ := ih (scope.claim (nodeIdentifier node)).2
    have hname : IsName (scope.fresh (nodeIdentifier node)) :=
      Identifier.isName_fresh scope (Identifier.isName_ofLabel (by decide) _ _)
    refine ⟨scope.fresh (nodeIdentifier node) :: names, by simp [hlength],
      List.forall_mem_cons.mpr ⟨hname, hnames⟩, ?_⟩
    rw [plan_cons, hplan]
    rfl

/-! ## the lines of an instance -/

def commentLine (node : Node) : String :=
  "# " ++ Text.commentText node.type ++ " (" ++ Text.commentText node.id ++ ")"

/-- the line that makes an instance, up to its configuration -/
def makeFront (i : Instance) : String :=
  i.identifier ++ " = " ++ i.className ++ "(" ++ Literal.quote i.node.id ++ ", "

def makeLine (unit : String) (level : Nat) (i : Instance) : String :=
  makeFront i ++ Literal.renderMembers unit level i.config ++ ")"

def addLine (i : Instance) : String := "engine.add_component(" ++ i.identifier ++ ")"

def instanceItems (unit : String) (i : Instance) : List Item :=
  [.comment (commentLine i.node).toList, .simple (makeLine unit 0 i).toList, .simple (addLine i).toList]

theorem commentLine_eq (node : Node) :
    ∃ cs, (commentLine node).toList = '#' :: cs ∧ ∀ c ∈ cs, Text.isControl c = false := by
  refine ⟨' ' :: ((Text.commentText node.type).toList
    ++ (' ' :: '(' :: ((Text.commentText node.id).toList ++ [')']))), by simp [commentLine], ?_⟩
  refine List.forall_mem_cons.mpr ⟨rfl, List.forall_mem_append.mpr
    ⟨Text.isControl_commentText _, List.forall_mem_cons.mpr ⟨rfl, List.forall_mem_cons.mpr ⟨rfl, ?_⟩⟩⟩⟩
  exact List.forall_mem_append.mpr
    ⟨Text.isControl_commentText _, List.forall_mem_singleton.mpr rfl⟩

theorem toList_makeLine (unit : String) (level : Nat) (i : Instance) :
    (makeLine unit level i).toList
      = (makeFront i).toList ++ ((Literal.render unit level (.object i.config)).toList ++ [')']) := by
  simp [makeLine, Literal.renderMembers]

theorem newline_not_mem_name {s : String} (h : IsName s) : '\n' ∉ s.toList := by
  intro hmem
  cases isWord_chars h.1 _ hmem

section
variable {unit : String} {n : Nat} (hu : unit.toList = List.replicate n ' ') {i : Instance}
  (h : i.Named)
include hu h

theorem snippet_makeLine : Snippet (makeLine unit 0 i).toList := by
  have hs := Shape.snippet (s := [none, some [' ', '=', ' '], none, some ['('], none, some [',', ' '],
    none, some [')']]) (by decide)
    (.cons (snippet_name h.identifier) (.cons rfl (.cons (snippet_name h.className) (.cons rfl
      (.cons (snippet_quote i.node.id) (.cons rfl (.cons (snippet_render hu 0 (.object i.config))
      (.cons rfl .nil))))))))
  simpa [toList_makeLine, makeFront] using hs

/-- one level deeper only the later lines of the configuration are different -/
theorem makeLine_deeper : (makeLine unit 1 i).toList = Text.deepen n (makeLine unit 0 i).toList := by
  have hfront : '\n' ∉ (makeFront i).toList := by
    have hquote := not_mem_quote (x := '\n') rfl i.node.id
    simp [makeFront, newline_not_mem_name h.identifier, newline_not_mem_name h.className, hquote]
  have hclosing : Text.deepen n [')'] = [')'] := Text.deepen_flat (by decide) n
  simp [toList_makeLine, Text.deepen_flat hfront, hclosing, render_deeper hu 0]

theorem shows_instance : Shows unit n 1 (instanceLines unit i) (instanceItems unit i) := by
  have hcomment : Shows unit n 1 [(1, commentLine i.node)] [.comment (commentLine i.node).toList] := by
    obtain ⟨cs, hcs, hcontrol⟩ := commentLine_eq i.node
    have hline : IsLine .comment (commentLine i.node).toList := hcs ▸ isLine_comment hcontrol
    have hflat : '\n' ∉ (commentLine i.node).toList := by
      rw [hcs]
      intro hmem
      rcases List.mem_cons.mp hmem with hmem | hmem
      · cases hmem
      · cases hcontrol _ hmem
    exact ⟨prints_line hu hline (Text.deepen_flat hflat _).symm,
      List.forall_mem_singleton.mpr (.comment hline trivial)⟩
  have hmake : Shows unit n 1 [(1, makeLine unit 1 i)] [.simple (makeLine unit 0 i).toList] := by
    refine shows_simple hu (snippet_makeLine hu h).isLine ?_
    rw [Nat.one_mul]
    exact makeLine_deeper hu h
  have hadd : Shows unit n 1 [(1, addLine i)] [.simple (addLine i).toList] := by
    have hflat : Flat (addLine i).toList :=
      flat_within (by decide) (by decide) (newline_not_mem_name h.identifier)
    exact shows_flat hu (snippet_within (by decide) (snippet_name h.identifier)).isLine
      (isFlat_iff.mp hflat)
  exact ((hcomment.append hmake).append hadd).blank

end

/-! ## the function that makes the engine -/

def wireArguments (w : Wire) : String :=
  Literal.quote w.source.node ++ ", " ++ Literal.quote w.source.port ++ ", "
    ++ Literal.quote w.target.node ++ ", " ++ Literal.quote w.target.port

def wireText (w : Wire) : String := "engine.connect(" ++ wireArguments w ++ ")"

theorem wireLine_eq (w : Wire) : wireLine w = (1, wireText w) := by
  unfold wireLine wireText wireArguments
  simp only [String.append_assoc]

def engineItems (unit : String) (instances : List Instance) (wires : List Wire) : List Item :=
  [.simple "engine = DAQEngine()".toList] ++ instances.flatMap (instanceItems unit)
    ++ wires.map (fun w => .simple (wireText w).toList) ++ [.simple "return engine".toList]

section
variable {unit : String} {n : Nat} (hu : unit.toList = List.replicate n ' ')
include hu

theorem shows_wire (w : Wire) : Shows unit n 1 [wireLine w] [.simple (wireText w).toList] := by
  have hs := Shape.snippet (s := [none, some [',', ' '], none, some [',', ' '], none, some [',', ' '],
    none]) (by decide)
    (.cons (snippet_quote w.source.node) (.cons rfl (.cons (snippet_quote w.source.port) (.cons rfl
      (.cons (snippet_quote w.target.node) (.cons rfl (.cons (snippet_quote w.target.port) .nil)))))))
  have hsnippet : Snippet (wireArguments w).toList := by simpa [wireArguments] using hs
  have hnewline : '\n' ∉ (wireArguments w).toList := by
    simp [wireArguments, not_mem_quote (x := '\n') rfl]
  have hflat : Flat (wireText w).toList := flat_within (by decide) (by decide) hnewline
  rw [wireLine_eq]
  exact shows_flat hu (snippet_within (by decide) hsnippet).isLine (isFlat_iff.mp hflat)

theorem shows_engineItems {instances : List Instance} (h : ∀ i ∈ instances, i.Named)
    (wires : List Wire) :
    Shows unit n 1
      ((1, "engine = DAQEngine()") :: blank :: (instances.flatMap (instanceLines unit)
        ++ wires.map wireLine ++ (if wires = [] then [] else [blank]) ++ [(1, "return engine"), blank, blank]))
      (engineItems unit instances wires) := by
  have hcreate : Shows unit n 1 [(1, "engine = DAQEngine()")] [.simple "engine = DAQEngine()".toList] :=
    shows_flat hu (by decide) (by decide)
  have hreturn : Shows unit n 1 [(1, "return engine")] [.simple "return engine".toList] :=
    shows_flat hu (by decide) (by decide)
  have hinstances := shows_flatMap fun i hi => shows_instance hu (h i hi)
  have hwires : Shows unit n 1 (wires.flatMap fun w => [wireLine w])
      (wires.flatMap fun w => [.simple (wireText w).toList]) := shows_flatMap fun w _ => shows_wire hu w
  rw [← List.map_eq_flatMap, ← List.map_eq_flatMap] at hwires
  have hgap : Shows unit n 1 (if wires = [] then [] else [blank]) [] := by
    split
    · exact shows_nil
    · exact shows_blank
  have hall := (((hcreate.blank.append hinstances).append hwires).append hgap).append hreturn.blank.blank
  rw [List.append_nil] at hall
  simpa only [engineItems, List.append_assoc, List.cons_append, List.nil_append] using hall

end

theorem shows_createEngine {instances : List Instance} (h : ∀ i ∈ instances, i.Named)
    (wires : List Wire) :
    Shows Options.standard.indent 4 0 (createEngine .standard instances wires)
      [.head "def create_engine():".toList (engineItems Options.standard.indent instances wires)] := by
  have hunit : Options.standard.indent.toList = List.replicate 4 ' ' := rfl
  have hsuite := shows_engineItems hunit h wires
  have hcode : (engineItems Options.standard.indent instances wires).any Item.isCode = true :=
    List.any_eq_true.mpr ⟨_, List.mem_append_right _ (List.mem_singleton.mpr rfl), rfl⟩
  have hline : IsLine .head "def create_engine():".toList := by decide
  have hcreate : "engine = " ++ Options.standard.engineClass ++ "()" = "engine = DAQEngine()" := by decide
  have hhead := hsuite.head (k := 0) hunit hline (by decide) hcode
  rw [createEngine, hcreate]
  simpa only [List.append_assoc, List.cons_append, List.nil_append] using hhead

/-! ## reading the lines -/

theorem ofItem?_make {unit : String} (hu : IsIndent unit) {i : Instance} (h : i.Named)
    (hfloats : ∀ x ∈ floatsOfMembers i.config, ReadsBack x) :
    Step.ofItem? (.simple (makeLine unit 0 i).toList)
      = some (.make i.identifier i.className i.node.id i.config) := by
  have hcall : Spells .loosest
      ((i.className.toList ++ ['(']) ++ (separated [(Literal.quote i.node.id).toList,
        (Literal.render unit 0 (.object i.config)).toList] ++ [')']))
      (.call (.name i.className) [.text i.node.id, .ofJson (.object i.config)]) :=
    (Spells.callAll h.className.opens (.cons ((spells_text _).mono (by decide))
      (.cons ((spells_render hu 0 _).mono (by decide)) .nil))).mono (by decide)
  have htext : (makeLine unit 0 i).toList = i.identifier.toList ++ (spaced ['='] ++
      ((i.className.toList ++ ['(']) ++ (separated [(Literal.quote i.node.id).toList,
        (Literal.render unit 0 (.object i.config)).toList] ++ [')']))) := by
    simp [toList_makeLine, makeFront, separated, spaced]
  have hvalue := value?_ofJson (.object i.config) (by simpa [floats] using hfloats)
  rw [Step.ofItem?, htext, statement?_assign hcall h.identifier, Option.bind_some, Step.ofStatement?,
    hvalue]

/-- a call of a method of the engine -/
theorem statement?_engine {method opening text : String} (h : IsName method)
    (hopening : opening.toList = "engine".toList ++ ('.' :: (method.toList ++ ['('])))
    {args : List (List Char)} {trees : List Tree} (htext : text.toList = separated args)
    (hargs : List.Forall₂ (Spells .loosest) args trees) :
    Item.statement? (.simple (opening ++ text ++ ")").toList)
      = some (.expression (.call (.member (.name "engine") method) trees)) := by
  have hdot : Stops (· == '.') method.toList := by
    intro c hc
    have hword := isWord_chars h.1 c (List.mem_of_head? hc)
    have hne : c ≠ '.' := by
      rintro rfl
      cases hword
    simp [hne]
  have hengine : IsName "engine" := by decide
  have hcall := (Spells.callAll (opens_member hengine h hdot) hargs).mono (q := .loosest) (by decide)
  rw [String.toList_append, String.toList_append, htext, hopening, List.append_assoc]
  exact statement?_expression hcall

theorem ofItem?_add {i : Instance} (h : i.Named) :
    Step.ofItem? (.simple (addLine i).toList) = some (.add i.identifier) := by
  have hname : Spells .loosest i.identifier.toList (.name i.identifier) :=
    h.identifier.spells.mono (by decide)
  have hmethod : IsName "add_component" := by decide
  have hopening : "engine.add_component(".toList
      = "engine".toList ++ ('.' :: ("add_component".toList ++ ['('])) := rfl
  have harguments : i.identifier.toList = separated [i.identifier.toList] := rfl
  unfold Step.ofItem? addLine
  rw [statement?_engine hmethod hopening harguments (.cons hname .nil)]
  rfl

theorem ofItem?_wire (w : Wire) :
    Step.ofItem? (.simple (wireText w).toList) = some (.connect w.source w.target) := by
  have htext : ∀ s : String, Spells .loosest (Literal.quote s).toList (.text s) :=
    fun s => (spells_text s).mono (by decide)
  have harguments : (wireArguments w).toList = separated [(Literal.quote w.source.node).toList,
      (Literal.quote w.source.port).toList, (Literal.quote w.target.node).toList,
      (Literal.quote w.target.port).toList] := by
    simp [wireArguments, separated]
  have hmethod : IsName "connect" := by decide
  have hopening : "engine.connect(".toList = "engine".toList ++ ('.' :: ("connect".toList ++ ['('])) := rfl
  unfold Step.ofItem? wireText
  rw [statement?_engine hmethod hopening harguments
    (.cons (htext _) (.cons (htext _) (.cons (htext _) (.cons (htext _) .nil))))]
  rfl

theorem ofItem?_create : Step.ofItem? (.simple "engine = DAQEngine()".toList) = some .create := by
  have hengine : IsName "engine" := by decide
  have hclass : IsName "DAQEngine" := by decide
  have hcall : Spells .loosest ("DAQEngine".toList ++ ['('] ++ (separated [] ++ [')']))
      (.call (.name "DAQEngine") []) := (Spells.callAll hclass.opens .nil).mono (by decide)
  have hstatement := statement?_assign hcall hengine
  exact congrArg (Option.bind · Step.ofStatement?) hstatement

theorem ofItem?_finish : Step.ofItem? (.simple "return engine".toList) = some .finish := by
  have hengine : IsName "engine" := by decide
  have hname : Spells .loosest "engine".toList (.name "engine") := hengine.spells.mono (by decide)
  exact congrArg (Option.bind · Step.ofStatement?) (statement?_result hname)

/-! ## the whole function -/

/-- the steps of an instance -/
def Instance.steps (i : Instance) : List Step :=
  [.note, .make i.identifier i.className i.node.id i.config, .add i.identifier]

/-- the items, read one by one, are the steps -/
def Means (items : List Item) (steps : List Step) : Prop := items.mapM Step.ofItem? = some steps

theorem Means.append {items more : List Item} {steps rest : List Step} (h : Means items steps)
    (hmore : Means more rest) : Means (items ++ more) (steps ++ rest) := by
  rw [Means, List.mapM_append, h, hmore]
  rfl

theorem means_singleton {item : Item} {step : Step} (h : Step.ofItem? item = some step) :
    Means [item] [step] := by
  rw [Means, List.mapM_cons, h]
  rfl

theorem means_flatMap {α : Type} {xs : List α} {items : α → List Item} {steps : α → List Step}
    (h : ∀ x ∈ xs, Means (items x) (steps x)) : Means (xs.flatMap items) (xs.flatMap steps) := by
  induction xs with
  | nil => rfl
  | cons x xs ih =>
    obtain ⟨hx, hxs⟩ := List.forall_mem_cons.mp h
    rw [List.flatMap_cons, List.flatMap_cons]
    exact hx.append (ih hxs)

theorem means_instance {unit : String} (hu : IsIndent unit) {i : Instance} (h : i.Named)
    (hfloats : ∀ x ∈ floatsOfMembers i.config, ReadsBack x) : Means (instanceItems unit i) i.steps :=
  have hcomment : Means [.comment (commentLine i.node).toList] [.note] := rfl
  (hcomment.append (means_singleton (ofItem?_make hu h hfloats))).append
    (means_singleton (ofItem?_add h))

theorem means_engineItems {unit : String} (hu : IsIndent unit) {instances : List Instance}
    (h : ∀ i ∈ instances, i.Named)
    (hfloats : ∀ i ∈ instances, ∀ x ∈ floatsOfMembers i.config, ReadsBack x) (wires : List Wire) :
    Means (engineItems unit instances wires) ([.create] ++ instances.flatMap Instance.steps
      ++ wires.map (fun w => .connect w.source w.target) ++ [.finish]) := by
  have hinstances := means_flatMap fun i hi => means_instance hu (h i hi) (hfloats i hi)
  have hwires : Means (wires.flatMap fun w => [.simple (wireText w).toList])
      (wires.flatMap fun w => [.connect w.source w.target]) :=
    means_flatMap fun w _ => means_singleton (ofItem?_wire w)
  rw [← List.map_eq_flatMap, ← List.map_eq_flatMap] at hwires
  exact (((means_singleton ofItem?_create).append hinstances).append hwires).append
    (means_singleton ofItem?_finish)

/-! ## the whole program -/

theorem isName_of_mem_classNames (nodes : List Node) :
    ∀ name ∈ classNames .standard nodes, IsName name := by
  intro name hname
  rw [classNames, List.mem_eraseDups] at hname
  obtain ⟨node, -, rfl⟩ := List.mem_map.mp hname
  exact isName_className_standard node

def programItems (info : Meta) (classes : List String) (suite : List Item) : List Item :=
  [.simple (docText info)] ++ importItems 4 classes ++ loggingItems 4
    ++ [.head "def create_engine():".toList suite] ++ [mainItem .standard info, guardItem]

theorem outline?_compile (g : Graph)
    (h : ∀ i ∈ plan .standard (.reserving scaffoldNames) g.nodes, i.Named) :
    outline? 4 (compile .standard g).source = some (programItems g.info (classNames .standard g.nodes)
      (engineItems Options.standard.indent (plan .standard (.reserving scaffoldNames) g.nodes) g.wires)) := by
  have hunit : Options.standard.indent.toList = List.replicate 4 ' ' := rfl
  have hclasses := shows_imports hunit (isName_of_mem_classNames g.nodes)
  have hmain := shows_mainLines hunit (o := .standard) (by decide) g.info
  have hshows := ((((shows_header g.info).append hclasses).append (shows_logging hunit)).append
    (shows_createEngine h g.wires)).append hmain
  rw [source_compile]
  exact hshows.prints.outline?_eq (by decide) hshows.legible

/-- no other function is taken for the one that makes the engine -/
theorem filterMap_programItems (info : Meta) (classes : List String) (suite : List Item) :
    (programItems info classes suite).filterMap engineSuite = [suite] := by
  have himports : (importItems 4 classes).filterMap engineSuite = [] := by
    unfold importItems
    split <;> rfl
  have hengine : [Item.head "def create_engine():".toList suite].filterMap engineSuite = [suite] := rfl
  have hmain : [mainItem .standard info, guardItem].filterMap engineSuite = [] := rfl
  have hlogging : (loggingItems 4).filterMap engineSuite = [] := rfl
  have hdoc : [Item.simple (docText info)].filterMap engineSuite = [] := rfl
  rw [programItems, List.filterMap_append, List.filterMap_append, List.filterMap_append,
    List.filterMap_append, hdoc, himports, hlogging, hengine, hmain]
  rfl

/-- a program says what its graph says: the function that makes the engine has, for every node in order, a comment,
a line that makes its component from the id and the configuration of the node, and one that adds it; then for every
wire in order a line that connects its ports.  Besides, it creates the engine and returns it.  It is assumed that
the floats in the configurations read back -/
theorem readEngine_compile (g : Graph)
    (h : ∀ node ∈ g.nodes, ∀ x ∈ floatsOfMembers (nodeConfig .standard node), ReadsBack x) :
    ∃ names : List String, names.length = g.nodes.length
      ∧ readEngine? (compile .standard g).source = some ([.create]
        ++ (g.nodes.zip names).flatMap (fun (node, v) =>
          [.note, .make v (className .standard node) node.id (nodeConfig .standard node), .add v])
        ++ g.wires.map (fun w => .connect w.source w.target) ++ [.finish]) := by
  obtain ⟨names, hlength, hnames, hplan⟩ := plan_eq .standard (.reserving scaffoldNames) g.nodes
  have hnamed : ∀ i ∈ plan .standard (.reserving scaffoldNames) g.nodes, i.Named := by
    rw [hplan]
    refine List.forall_mem_map.mpr fun x hx => ⟨hnames _ (List.of_mem_zip hx).2, ?_⟩
    exact isName_className_standard x.1
  have hfloats : ∀ i ∈ plan .standard (.reserving scaffoldNames) g.nodes,
      ∀ x ∈ floatsOfMembers i.config, ReadsBack x := by
    rw [hplan]
    exact List.forall_mem_map.mpr fun x hx => h _ (List.of_mem_zip hx).1
  have hindent : IsIndent Options.standard.indent := by decide
  have hmeans := means_engineItems hindent hnamed hfloats g.wires
  have hsteps : (plan .standard (.reserving scaffoldNames) g.nodes).flatMap Instance.steps
      = (g.nodes.zip names).flatMap fun (node, v) =>
        [.note, .make v (className .standard node) node.id (nodeConfig .standard node), .add v] := by
    rw [hplan, List.flatMap_map]
    rfl
  refine ⟨names, hlength, ?_⟩
  rw [readEngine?, outline?_compile g hnamed, Option.bind_eq_bind, Option.bind_some,
    filterMap_programItems, ← hsteps]
  exact hmeans

/-- an id that looks like the end of a text and a line of its own -/
def sampleGain : Node :=
  ⟨"a\")\nimport os", "math", "Engine", .origin, [("scale", .array [.ofFloat 0.1, .string "\\\""])]⟩

/-- a type without a class, and no label -/
def sampleOdd : Node := ⟨"\"\"\"", "lab:odd\n# type", "", .origin, [("\x07\r", .object [])]⟩

def sampleGraph : Graph :=
  ⟨⟨"\"\"\" \\", "1\n", "", "\\\"\"\"\ndef create_engine():"⟩, [sampleGain, sampleOdd],
    [⟨"w", ⟨sampleGain.id, "out\", \""⟩, ⟨sampleOdd.id, "in\\"⟩⟩]⟩

theorem readEngine_compile_sampleGraph :
    (∀ node ∈ sampleGraph.nodes, ∀ x ∈ floatsOfMembers (nodeConfig .standard node), ReadsBack x)
    ∧ ∃ a b : String, readEngine? (compile .standard sampleGraph).source = some
      [.create,
       .note, .make a "MathOperationComponent" "a\")\nimport os"
        [("scale", .array [.ofFloat 0.1, .string "\\\""]), ("operation", .string "scale"),
         ("offset", .number (.whole 0 Number.fits_zero))], .add a,
       .note, .make b "OddTypeComponent" "\"\"\"" [("\x07\r", .object [])], .add b,
       .connect ⟨"a\")\nimport os", "out\", \""⟩ ⟨"\"\"\"", "in\\"⟩, .finish] := by
  have hfloats : ∀ node ∈ sampleGraph.nodes,
      ∀ x ∈ floatsOfMembers (nodeConfig .standard node), ReadsBack x := by decide +kernel
  have hgain : className .standard sampleGain = "MathOperationComponent"
      ∧ nodeConfig .standard sampleGain = [("scale", .array [.ofFloat 0.1, .string "\\\""]),
        ("operation", .string "scale"), ("offset", .number (.whole 0 Number.fits_zero))] := by
    decide +kernel
  have hodd : className .standard sampleOdd = "OddTypeComponent"
      ∧ nodeConfig .standard sampleOdd = [("\x07\r", .object [])] := by decide +kernel
  obtain ⟨names, hlength, hread⟩ := readEngine_compile sampleGraph hfloats
  obtain ⟨a, b, rfl⟩ := List.length_eq_two.mp hlength
  have hsteps : readEngine? (compile .standard sampleGraph).source = some
      [.create, .note, .make a (className .standard sampleGain) sampleGain.id (nodeConfig .standard sampleGain),
       .add a, .note, .make b (className .standard sampleOdd) sampleOdd.id (nodeConfig .standard sampleOdd),
       .add b, .connect ⟨sampleGain.id, "out\", \""⟩ ⟨sampleOdd.id, "in\\"⟩, .finish] := hread
  rw [hgain.1, hgain.2, hodd.1, hodd.2] at hsteps
  exact ⟨hfloats, a, b, hsteps⟩

end VisualProgram.Program
