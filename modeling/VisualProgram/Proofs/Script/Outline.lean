import VisualProgram.Proofs.Script.Suites

/-!
# The block structure of scripts

`Block.Outlined` says that items mirror a chain of blocks: each block gives the items it owns, in the order
of the chain, and the suite of a head mirrors in the same way the chain in the statement socket that the
head belongs to.

A script is the layout of its prelude and of such items for every chain of the workspace
(`Workspace.compile_blockStructured`), so its indentation can be read back whatever the blocks hold.
-/

namespace VisualProgram
open Python

/-! ## chains -/

/-- the items are laid out as the block's own code, made in some session -/
def Site.Says (t : Toolchain) (n : Nat) (site : Site) (items : List Item) : Prop :=
  ∃ s : Session, s.Tidy ∧ (Text.terminated ((t.statementOf site).run s).1).toList = write n 0 items

namespace Block

mutual
/-- the items mirror a chain of blocks -/
def Outlined (t : Toolchain) (n : Nat) : Block → List Item → Prop
  | ⟨id, tag, fields, inputs, statements, next⟩, items =>
    let site : Site := ⟨id, tag, fields, compileSockets t inputs, compileSockets t statements⟩
    ∃ own rest, items = own ++ rest ∧ site.Says t n own
      ∧ site.Owns (SocketOutlined t n statements) own ∧ NextOutlined t n next rest

/-- the items mirror the chain in a socket, of which there is none if nothing is connected -/
def SocketOutlined (t : Toolchain) (n : Nat) : List (String × Block) → String → List Item → Prop
  | [], _, items => items = []
  | (name, b) :: rest, socket, items =>
    if name = socket then b.Outlined t n items else SocketOutlined t n rest socket items

/-- the items mirror the rest of a chain -/
def NextOutlined (t : Toolchain) (n : Nat) : Option Block → List Item → Prop
  | none, items => items = []
  | some b, items => b.Outlined t n items
end

section
variable {t : Toolchain} {n : Nat}

theorem socketOutlined_nil {sockets : List (String × Block)} {socket : String}
    (h : Assoc.get? socket (compileSockets t sockets) = none) : SocketOutlined t n sockets socket [] := by
  induction sockets with
  | nil => rw [SocketOutlined]
  | cons entry rest ih =>
    obtain ⟨name, b⟩ := entry
    rw [compileSockets, Assoc.get?_cons] at h
    rw [SocketOutlined]
    split at h
    next => cases h
    next hne =>
      rw [if_neg hne]
      exact ih h

/-- what is known of a compiled block: a snippet as a value, a layout as statements -/
structure Compiled (n : Nat) (child : Child) (outlined : List Item → Prop) : Prop where
  value : ∀ required, Leaves (child.value required) Expr.IsSnippet
  chain : Leaves child.chain fun code => ∃ items, LaidOut n items code ∧ outlined items

mutual
theorem compile_outlined (ht : t.rules = Rule.Standard.table)
    (hu : t.options.indent.toList = List.replicate n ' ') :
    (b : Block) → Compiled n (b.compile t) (b.Outlined t n)
  | ⟨id, tag, fields, inputs, statements, next⟩ => by
    let site : Site := ⟨id, tag, fields, compileSockets t inputs, compileSockets t statements⟩
    have hfine : site.Fine := fun socket child hc =>
      (compileSockets_outlined ht hu inputs socket child hc).value
    have hready : site.Ready n (SocketOutlined t n statements) :=
      ⟨hfine, fun socket child hc => (compileSockets_outlined ht hu statements socket child hc).chain,
        fun _ => socketOutlined_nil⟩
    refine ⟨fun required => ?_, ?_⟩
    · exact (Toolchain.valueOf_leaves ht hu hfine).bind fun e he => .pure (he.place required)
    · intro s hs
      obtain ⟨htidy, own, hown, howns⟩ := Toolchain.statementOf_leaves ht hu hready s hs
      obtain ⟨htidy', rest, hrest, hnext⟩ := compileNext_outlined ht hu next _ htidy
      refine ⟨htidy', own ++ rest, hown.append hrest, ?_⟩
      rw [Outlined]
      exact ⟨own, rest, rfl, ⟨s, hs, hown.text⟩, howns, hnext⟩

theorem compileSockets_outlined (ht : t.rules = Rule.Standard.table)
    (hu : t.options.indent.toList = List.replicate n ' ') : (sockets : List (String × Block)) →
    ∀ socket child, Assoc.get? socket (compileSockets t sockets) = some child →
      Compiled n child (SocketOutlined t n sockets socket)
  | [], _, _, h => by cases h
  | (name, b) :: rest, socket, child, h => by
    rw [compileSockets, Assoc.get?_cons] at h
    have hb := compile_outlined ht hu b
    have hrest := compileSockets_outlined ht hu rest socket child
    split at h
    next heq =>
      cases h
      refine ⟨hb.value, hb.chain.imp ?_⟩
      rintro code ⟨items, hitems, houtlined⟩
      refine ⟨items, hitems, ?_⟩
      rwa [SocketOutlined, if_pos heq]
    next hne =>
      refine ⟨(hrest h).value, (hrest h).chain.imp ?_⟩
      rintro code ⟨items, hitems, houtlined⟩
      refine ⟨items, hitems, ?_⟩
      rwa [SocketOutlined, if_neg hne]

theorem compileNext_outlined (ht : t.rules = Rule.Standard.table)
    (hu : t.options.indent.toList = List.replicate n ' ') : (next : Option Block) →
    Leaves (compileNext t next) fun code => ∃ items, LaidOut n items code ∧ NextOutlined t n next items
  | none => .pure ⟨[], .nil, by rw [NextOutlined]⟩
  | some b => by
    refine (compile_outlined ht hu b).chain.imp ?_
    rintro code ⟨items, hitems, houtlined⟩
    refine ⟨items, hitems, ?_⟩
    rwa [NextOutlined]
end

end

end Block

/-! ## sections -/

section
variable {n : Nat}

theorem LaidOut.prints {items : List Item} {text : String} (h : LaidOut n items text) :
    Prints n text.toList (entriesOf 0 items) := by
  rw [h.text]
  exact prints_entries (isLine_of_proper h.proper 0)

theorem LaidOut.entries_nil {items : List Item} (h : LaidOut n items "") : entriesOf 0 items = [] := by
  have htext := h.text
  cases hentries : entriesOf 0 items with
  | nil => rfl
  | cons e es =>
    rw [write, hentries, List.flatMap_cons, Entry.write] at htext
    have hne : e.line n ++ ['\n'] ++ es.flatMap (Entry.write n) ≠ [] := by simp
    exact absurd htext.symm hne

/-- layouts with a blank line between each two -/
theorem prints_sections {groups : List (List Item)} {sections : List String}
    (h : List.Forall₂ (LaidOut n) groups sections) :
    Prints n (String.intercalate "\n" (sections.filter (· ≠ ""))).toList
      (entriesOf 0 groups.flatten) := by
  induction h with
  | nil => exact prints_nil
  | @cons items text groups sections hlaid _ ih =>
    rw [List.flatten_cons, entriesOf_append]
    by_cases hempty : text = ""
    · subst hempty
      rw [hlaid.entries_nil, List.filter_cons_of_neg (by simp)]
      exact ih
    rw [List.filter_cons_of_pos (by simpa using hempty)]
    cases hrest : sections.filter (· ≠ "") with
    | nil =>
      rw [hrest] at ih
      have hmore := hlaid.prints.append ih
      rw [String.intercalate_nil, String.toList_empty, List.append_nil] at hmore
      rw [String.intercalate_singleton]
      exact hmore
    | cons next more =>
      rw [hrest] at ih
      have hmore := hlaid.prints.append (prints_newline.append ih)
      rw [← List.append_assoc] at hmore
      rw [String.intercalate_cons_cons, String.toList_append, String.toList_append]
      exact hmore

theorem proper_sections {groups : List (List Item)} {sections : List String}
    (h : List.Forall₂ (LaidOut n) groups sections) : ∀ item ∈ groups.flatten, item.Proper Text.Solid := by
  induction h with
  | nil => exact List.forall_mem_nil _
  | cons hlaid _ ih =>
    rw [List.flatten_cons]
    exact List.forall_mem_append.mpr ⟨hlaid.proper, ih⟩

end

/-! ## scripts -/

namespace Session

/-- the lines in front of the chains: the modules, then the variables -/
def prelude (s : Session) : List Item :=
  s.imports.map (fun name => .simple ("import " ++ name).toList)
    ++ s.identifiers.map fun v => .simple (v.2 ++ " = None").toList

theorem laidOut_join {α : Type} {n : Nat} {f : α → String} {xs : List α}
    (h : ∀ x ∈ xs, Snippet (f x).toList) :
    LaidOut n (xs.map fun x => .simple (f x).toList) (String.join (xs.map fun x => f x ++ "\n")) := by
  induction xs with
  | nil => exact .nil
  | cons x xs ih =>
    obtain ⟨hx, hxs⟩ := List.forall_mem_cons.mp h
    have hmore := (laidOut_line (n := n) hx).append (ih hxs)
    rw [List.map_cons, List.map_cons, String.join_cons]
    exact hmore

theorem laidOut_imports {s : Session} (h : s.Tidy) (n : Nat) :
    LaidOut n (s.imports.map fun name => .simple ("import " ++ name).toList) s.importSection := by
  refine laidOut_join fun name hname => ?_
  have hs := Shape.snippet (s := [some "import ".toList, none]) (by decide)
    (.cons rfl (.cons (snippet_name (h.imports name hname)) .nil))
  simpa using hs

theorem laidOut_variables {s : Session} (h : s.Tidy) (n : Nat) :
    LaidOut n (s.identifiers.map fun v => .simple (v.2 ++ " = None").toList) s.variableSection := by
  have hjoin : s.variableSection
      = String.join (s.identifiers.map fun v => v.2 ++ " = None" ++ "\n") := by
    refine congrArg String.join (List.map_congr_left fun v _ => ?_)
    rw [String.append_assoc]
    rfl
  rw [hjoin]
  refine laidOut_join fun v hv => ?_
  have hs := Shape.snippet (s := [none, some " = None".toList]) (by decide)
    (.cons (snippet_name (h.identifiers v hv)) (.cons rfl .nil))
  simpa using hs

theorem assemble_outlined {s : Session} (hs : s.Tidy) {n : Nat} (hn : 0 < n)
    {groups : List (List Item)} {chains : List String} (h : List.Forall₂ (LaidOut n) groups chains) :
    outline? n (s.assemble chains) = some (s.prelude ++ groups.flatten)
      ∧ ∀ item ∈ s.prelude ++ groups.flatten, item.Proper Text.Solid := by
  have hall := List.Forall₂.cons (laidOut_imports hs n) (.cons (laidOut_variables hs n) h)
  have hproper := proper_sections hall
  have houtline := (prints_sections hall).outline?_eq hn hproper
  rw [List.flatten_cons, List.flatten_cons, ← List.append_assoc] at houtline hproper
  exact ⟨houtline, hproper⟩

end Session

namespace Workspace

theorem compileChains_outlined {t : Toolchain} {n : Nat} (ht : t.rules = Rule.Standard.table)
    (hu : t.options.indent.toList = List.replicate n ' ') (blocks : List Block) :
    Leaves (compileChains t blocks) fun codes => ∃ groups, List.Forall₂ (LaidOut n) groups codes
      ∧ List.Forall₂ (fun b items => b.Outlined t n items) blocks groups := by
  induction blocks with
  | nil => exact .pure ⟨[], .nil, .nil⟩
  | cons b rest ih =>
    refine (Block.compile_outlined ht hu b).chain.bind fun code hcode => ih.bind fun more hmore => ?_
    obtain ⟨items, hlaid, houtlined⟩ := hcode
    obtain ⟨groups, hlaids, houtlineds⟩ := hmore
    exact .pure ⟨items :: groups, .cons hlaid hlaids, .cons houtlined houtlineds⟩

/-- scripts are block-structured: the script of any workspace reads as the prelude of its session and then, for each
chain of the workspace, items that mirror the chain.  Every head has a suite that does something, and nothing else
is indented -/
theorem compile_blockStructured (t : Toolchain) (ht : t.rules = Rule.Standard.table) (n : Nat) (hn : 0 < n)
    (hu : t.options.indent.toList = List.replicate n ' ') (w : Workspace) :
    ∃ chains, List.Forall₂ (fun b items => b.Outlined t n items) w.blocks chains
      ∧ (let items := ((compileChains t w.blocks).run .initial).2.prelude ++ chains.flatten
        outline? n (w.compile t).code = some items ∧ ∀ item ∈ items, item.Proper Text.Solid) := by
  obtain ⟨htidy, groups, hlaid, houtlined⟩ :=
    compileChains_outlined ht hu w.blocks .initial Session.tidy_initial
  exact ⟨groups, houtlined, Session.assemble_outlined htidy hn hlaid⟩

/-- a conditional with a loop over a value of several lines, with a branch that holds only an unknown
block and with an empty one -/
def sampleScript : Workspace :=
  let list : Block := ⟨"list", "text", [("TEXT", .array [Rule.Standard.one])], [], [], none⟩
  let output : Block := ⟨"output", "text_print", [], [("TEXT", list)], [], none⟩
  let unknown : Block := ⟨"u", "odd\nname", [], [], [], none⟩
  let again : Block := ⟨"again", "controls_repeat_ext", [], [], [("DO", output)], none⟩
  let last : Block := ⟨"last", "variables_set", [("VAR", .string "for")], [], [], none⟩
  ⟨[⟨"choice", "controls_if", [("HAS_ELSE", .bool true)], [], [("DO0", again), ("DO1", unknown)], last⟩]⟩

theorem compile_blockStructured_sampleScript :
    let t := Toolchain.standard
    t.rules = Rule.Standard.table ∧ t.options.indent.toList = List.replicate 4 ' '
    ∧ (Text.lines (sampleScript.compile t).code).map String.ofList =
      ["for_ = None", "",
       "if False:", "    for _ in range(int(10)):", "        print([", "            1", "        ])",
       "elif False:", "    # Unknown block type 'odd name' (u)", "    pass",
       "else:", "    pass",
       "for_ = None"]
    ∧ ∃ chains, List.Forall₂ (fun b items => b.Outlined t 4 items) sampleScript.blocks chains
      ∧ (let items := ((compileChains t sampleScript.blocks).run .initial).2.prelude ++ chains.flatten
        outline? 4 (sampleScript.compile t).code = some items ∧ ∀ item ∈ items, item.Proper Text.Solid) :=
  ⟨rfl, rfl, by decide +kernel, compile_blockStructured .standard rfl 4 (by decide) rfl sampleScript⟩

end Workspace

end VisualProgram
