import VisualProgram.Proofs.Definition.Entries
import VisualProgram.Proofs.Definition.Warnings
import VisualProgram.Proofs.Text.Insertion
import VisualProgram.Proofs.Text.Shown

/-!
# The stub of a rule

A stub is read line by line.  A line that starts with `let` is a binding: it binds a local to what an accessor
reads under a quoted name (`readBinding?`).  A line that starts with `impl` says which trait the rule implements
(`trait?`).

* `Reading`     the six kinds of arguments that are read, each with the accessor of its kind;
* `readBinding?_line`   an extraction says which accessor reads which name, whatever the name is;
* `stub_eq`     a stub is made of its extractions, the line that names the trait, and plain lines.

So the lines that bind locals are the extractions and no others (`filter_lines_stub`).  The extractions that were
collected are in step with the arguments (`inStep_collect`), so each of them reads the entry of the schema that has
its place (`reads_bodyFrom`).
-/

namespace VisualProgram

/-! ## lines of flat texts -/

namespace Text

theorem lines_newline {line : String} (h : IsFlat line.toList) : lines (line ++ "\n") = [line.toList] := by
  by_cases hne : line = ""
  · rw [hne]
    rfl
  · exact lines_flat hne h.newline_not_mem h.return_not_mem

/-- flat texts joined by newlines are the lines of the whole -/
theorem lines_intercalate {parts : List String} (hne : parts ≠ []) (h : ∀ part ∈ parts, IsFlat part.toList) :
    lines (String.intercalate "\n" parts ++ "\n") = parts.map String.toList := by
  induction parts with
  | nil => exact absurd rfl hne
  | cons part rest ih =>
    obtain ⟨hpart, hrest⟩ := List.forall_mem_cons.mp h
    by_cases hnil : rest = []
    · rw [hnil]
      exact lines_newline hpart
    · rw [String.intercalate_cons_of_ne_nil hnil, String.append_assoc, lines_append (lined_newline part),
        lines_newline hpart, ih hnil hrest]
      rfl

theorem isFlat_of_word {cs : List Char} (h : ∀ c ∈ cs, Python.isWordChar c = true) : IsFlat cs := by
  intro c hc
  have hword := h c hc
  constructor
  · rintro rfl
    exact absurd hword (by decide)
  · rintro rfl
    exact absurd hword (by decide)

end Text

namespace Definition
open Text

/-! ## accessors -/

/-- how a rule reads what its block holds under a name -/
inductive Accessor where
  | value
  | statements
  | text
  | number
  | flag
deriving DecidableEq

namespace Accessor

def all : List Accessor := [.value, .statements, .text, .number, .flag]

/-- the call up to the name -/
def opening : Accessor → String
  | .value => "cx.value(block, "
  | .statements => "cx.statements(block, "
  | .text => "block.field_str("
  | .number => "block.field_f64("
  | .flag => "block.field_bool("

/-- the call from the name on -/
def closing : Accessor → String
  | .value => ", Order::None, &Fallback::none());"
  | .statements => ");"
  | .text | .number | .flag => ").unwrap_or_default();"

theorem diverge_opening (a b : Accessor) (h : a ≠ b) : diverge a.opening.toList b.opening.toList = true := by
  cases a <;> cases b <;> first | exact absurd rfl h | decide +kernel

theorem isFlat_opening (a : Accessor) : IsFlat a.opening.toList := by cases a <;> decide +kernel

theorem isFlat_closing (a : Accessor) : IsFlat a.closing.toList := by cases a <;> decide +kernel

end Accessor

/-- the kinds of arguments that a rule reads -/
inductive Reading where
  | value
  | statement
  | text
  | number
  | choice
  | checkbox
deriving DecidableEq

namespace Reading

def kind : Reading → Kind
  | .value => .value
  | .statement => .statement
  | .text => .text
  | .number => .number
  | .choice => .choice
  | .checkbox => .checkbox

def accessor : Reading → Accessor
  | .value => .value
  | .statement => .statements
  | .text | .choice => .text
  | .number => .number
  | .checkbox => .flag

/-- what the locals of a kind begin with -/
def stem : Reading → String
  | .value => "value"
  | .statement => "statements"
  | .text => "text"
  | .number => "number"
  | .choice => "choice"
  | .checkbox => "checked"

/-- the extraction of what is read under a name -/
def line (r : Reading) (name : String) (index : Nat) : String :=
  bindLine r.stem name index r.accessor.opening r.accessor.closing

end Reading

/-- how an extraction reads, and under which name -/
def Extraction.reading : Extraction → Reading × String
  | .value name => (.value, name)
  | .statement name => (.statement, name)
  | .text name => (.text, name)
  | .number name => (.number, name)
  | .choice name => (.choice, name)
  | .checkbox name => (.checkbox, name)

theorem Extraction.line_eq (e : Extraction) (index : Nat) : e.line index = e.reading.1.line e.reading.2 index := by
  cases e <;> rfl

/-! ## reading a line -/

/-- what is bound in a line, and how it is read -/
structure Binding where
  binder : String
  accessor : Accessor
  name : String
deriving DecidableEq

def unindented (line : List Char) : List Char := line.dropWhile (· == ' ')

def isLet (line : List Char) : Bool := "let ".toList.isPrefixOf (unindented line)

/-- the name in a call of an accessor -/
def Accessor.read? (a : Accessor) (call : List Char) : Option String :=
  ((call.dropPrefix? a.opening.toList).bind unquote?).bind fun read =>
    if read.2 = a.closing.toList then some read.1 else none

/-- the binding that a line is -/
def readBinding? (line : List Char) : Option Binding := do
  let binding ← (unindented line).dropPrefix? "let ".toList
  let binder := binding.takeWhile Python.isWordChar
  let call ← (binding.dropWhile Python.isWordChar).dropPrefix? " = ".toList
  if Python.isWord binder then
    Accessor.all.findSome? fun a => (a.read? call).map fun name => ⟨String.ofList binder, a, name⟩
  else none

/-- the trait that a line begins to implement -/
def trait? (line : List Char) : Option String :=
  (line.dropPrefix? "impl ".toList).map fun rest => String.ofList (rest.takeWhile Python.isWordChar)

theorem dropPrefix?_append_self (lead rest : List Char) : (lead ++ rest).dropPrefix? lead = some rest :=
  List.dropPrefix?_append_of_beq _ BEq.rfl

theorem dropPrefix?_eq_none {lead cs : List Char} (h : diverge lead cs = true) : cs.dropPrefix? lead = none := by
  cases hdrop : cs.dropPrefix? lead with
  | none => rfl
  | some rest =>
    obtain ⟨front, hcs, hfront⟩ := List.dropPrefix?_eq_some_iff.mp hdrop
    rw [beq_iff_eq] at hfront
    rw [hcs, hfront] at h
    exact absurd (List.prefix_append _ _) (diverge_iff.mp h).1

/-- a call is read by the accessor that makes it, and by no other -/
theorem Accessor.read?_call (a b : Accessor) (name : String) :
    b.read? (a.opening.toList ++ ((shown name).toList ++ a.closing.toList)) = if a = b then some name else none := by
  unfold Accessor.read?
  by_cases h : a = b
  · rw [h, if_pos rfl, dropPrefix?_append_self, Option.bind_some, unquote?_shown, Option.bind_some, if_pos rfl]
  · rw [if_neg h, dropPrefix?_eq_none (diverge_append (b.diverge_opening a (Ne.symm h)) _)]
    rfl

theorem isWord_localName (r : Reading) (name : String) (index : Nat) :
    Python.isWord (localName r.stem name index).toList = true := by
  have hitem : ∀ c ∈ "item".toList, Identifier.isCleanChar c = true := List.all_eq_true.mp (by decide)
  have hlabel := Identifier.isCleanChar_ofLabel hitem name (toString index)
  have hstem : Python.isWord (r.stem ++ "_").toList = true := by cases r <;> decide
  rw [localName, String.toList_append]
  refine Identifier.isWord_append hstem (List.all_eq_true.mpr fun c hc => ?_)
  exact Identifier.isWordChar_of_clean (hlabel c hc)

theorem toList_line (r : Reading) (name : String) (index : Nat) :
    ("        " ++ r.line name index).toList
      = "        ".toList ++ ("let ".toList ++ ((localName r.stem name index).toList ++ (" = ".toList
        ++ (r.accessor.opening.toList ++ ((shown name).toList ++ r.accessor.closing.toList))))) := by
  rw [Reading.line, bindLine]
  simp only [String.toList_append, List.append_assoc]

theorem all_of_isWord {cs : List Char} (h : Python.isWord cs = true) : ∀ c ∈ cs, Python.isWordChar c = true := by
  cases cs with
  | nil => cases h
  | cons c rest => exact List.all_eq_true.mp ((Bool.and_eq_true _ _).mp h).2

section
variable (r : Reading) (name : String) (index : Nat)

theorem unindented_line : unindented ("        " ++ r.line name index).toList
    = "let ".toList ++ ((localName r.stem name index).toList ++ (" = ".toList
      ++ (r.accessor.opening.toList ++ ((shown name).toList ++ r.accessor.closing.toList)))) := by
  rw [toList_line]
  rfl

/-- an extraction says what it reads, and how -/
theorem readBinding?_line : readBinding? ("        " ++ r.line name index).toList
    = some ⟨localName r.stem name index, r.accessor, name⟩ := by
  have hword := isWord_localName r name index
  have hall := all_of_isWord hword
  have hstop : Python.Stops Python.isWordChar (" = ".toList
      ++ (r.accessor.opening.toList ++ ((shown name).toList ++ r.accessor.closing.toList))) := by
    intro c hc
    cases hc
    rfl
  rw [readBinding?, unindented_line, dropPrefix?_append_self]
  simp only [bind, Option.bind_some]
  rw [Python.takeWhile_stops hall hstop, Python.dropWhile_stops hall hstop, dropPrefix?_append_self,
    Option.bind_some, if_pos hword, String.ofList_toList]
  simp only [Accessor.read?_call]
  cases r.accessor <;> rfl

theorem isLet_line : isLet ("        " ++ r.line name index).toList = true := by
  rw [isLet, unindented_line, List.isPrefixOf_iff_prefix]
  exact List.prefix_append _ _

theorem trait?_line : trait? ("        " ++ r.line name index).toList = none := by
  have hstart : diverge "impl ".toList "        ".toList = true := by decide
  rw [trait?, toList_line, dropPrefix?_eq_none (diverge_append hstart _)]
  rfl

theorem isFlat_line : IsFlat ("        " ++ r.line name index).toList := by
  have hlocal := isFlat_of_word (all_of_isWord (isWord_localName r name index))
  rw [toList_line]
  exact IsFlat.append (by decide) (IsFlat.append (by decide) (hlocal.append (IsFlat.append (by decide)
    (r.accessor.isFlat_opening.append ((isFlat_shown name).append r.accessor.isFlat_closing)))))

end

/-! ## lines of a stub -/

/-- a line that neither binds a local nor begins to implement a trait -/
def Plain (line : String) : Prop :=
  IsFlat line.toList ∧ isLet line.toList = false ∧ trait? line.toList = none

instance : DecidablePred Plain := fun line => inferInstanceAs
  (Decidable (IsFlat line.toList ∧ isLet line.toList = false ∧ trait? line.toList = none))

/-- a line whose beginning shows that it is plain -/
def Firm (line : String) : Prop :=
  IsFlat line.toList
    ∧ diverge "let ".toList (unindented line.toList) = true ∧ diverge "impl ".toList line.toList = true

instance : DecidablePred Firm := fun line => inferInstanceAs (Decidable (IsFlat line.toList
  ∧ diverge "let ".toList (unindented line.toList) = true ∧ diverge "impl ".toList line.toList = true))

theorem Firm.append {start rest : String} (h : Firm start) (hrest : IsFlat rest.toList) : Firm (start ++ rest) := by
  obtain ⟨hflat, hlet, htrait⟩ := h
  have hne : ¬ (unindented start.toList).isEmpty = true := by
    intro hempty
    rw [List.isEmpty_iff.mp hempty] at hlet
    cases hlet
  have hunindented : unindented (start.toList ++ rest.toList) = unindented start.toList ++ rest.toList := by
    rw [unindented, List.dropWhile_append]
    exact if_neg hne
  rw [Firm, String.toList_append, hunindented]
  exact ⟨hflat.append hrest, diverge_append hlet _, diverge_append htrait _⟩

theorem Firm.plain {line : String} (h : Firm line) : Plain line := by
  refine ⟨h.1, isPrefixOf_of_diverge h.2.1, ?_⟩
  rw [trait?, dropPrefix?_eq_none h.2.2]
  rfl

theorem isFlat_className (tag : String) : IsFlat (Identifier.className "Rule" tag).toList :=
  isFlat_of_word (all_of_isWord (Identifier.isName_className (by decide) (by decide +kernel) tag).1)

/-- the trait that a rule has to implement -/
def traitOf (s : Schema) : String := if s.connections.output.isSome then "ValueRule" else "StatementRule"

/-- a line that says which trait is implemented -/
def Implements (trait line : String) : Prop :=
  IsFlat line.toList ∧ isLet line.toList = false ∧ trait? line.toList = some trait

theorem implements_impl {trait rule : String} (htrait : Python.isWord trait.toList = true)
    (hrule : IsFlat rule.toList) : Implements trait ("impl " ++ trait ++ " for " ++ rule ++ " \x7b") := by
  have hall := all_of_isWord htrait
  have hstop : Python.Stops Python.isWordChar (" for ".toList ++ (rule.toList ++ " \x7b".toList)) := by
    intro c hc
    cases hc
    rfl
  have hlet : diverge "let ".toList (unindented "impl ".toList) = true := by decide
  have hline : ("impl " ++ trait ++ " for " ++ rule ++ " \x7b").toList
      = "impl ".toList ++ (trait.toList ++ (" for ".toList ++ (rule.toList ++ " \x7b".toList))) := by
    simp only [String.toList_append, List.append_assoc]
  rw [Implements, hline]
  refine ⟨?_, isPrefixOf_of_diverge (diverge_append hlet _), ?_⟩
  · exact IsFlat.append (by decide)
      ((isFlat_of_word hall).append (IsFlat.append (by decide) (hrule.append (by decide))))
  · rw [trait?, dropPrefix?_append_self, Option.map_some, Python.takeWhile_stops hall hstop, String.ofList_toList]

/-- a stub is made of its extractions, the line that names the trait, and plain lines -/
theorem stub_eq (s : Schema) (es : List Extraction) : ∃ (before after tail : List String) (line : String),
    stub s es = String.intercalate "\n"
        (before ++ line :: after ++ es.zipIdx.map (fun e => "        " ++ e.1.line e.2) ++ tail) ++ "\n"
      ∧ Implements (traitOf s) line
      ∧ (∀ line ∈ before, Plain line) ∧ (∀ line ∈ after, Plain line) ∧ ∀ line ∈ tail, Plain line := by
  have hrule := isFlat_className s.type
  have hoption : ∀ {a b : String}, IsFlat a.toList → IsFlat b.toList →
      IsFlat (if s.connections.output.isSome then a else b).toList := by
    intro a b ha hb
    split
    · exact ha
    · exact hb
  refine ⟨[_, _, _, _, _], [_, _], [_, _, _, _], _, rfl, ?_, ?_, ?_, ?_⟩
  · refine implements_impl ?_ hrule
    unfold traitOf
    split <;> decide
  · refine List.forall_mem_cons.mpr ⟨by decide +kernel, List.forall_mem_cons.mpr ⟨by decide +kernel, ?_⟩⟩
    refine List.forall_mem_cons.mpr ⟨Firm.plain ?_, List.forall_mem_cons.mpr ⟨Firm.plain ?_, ?_⟩⟩
    · refine Firm.append (Firm.append (Firm.append (Firm.append (Firm.append (Firm.append ?_ ?_) ?_) ?_) ?_) ?_) ?_
      · decide +kernel
      · exact hoption (by decide +kernel) (by decide +kernel)
      · decide +kernel
      · exact isFlat_shown s.type
      · decide +kernel
      · exact hrule
      · decide +kernel
    · exact Firm.append (Firm.append (by decide +kernel) hrule) (by decide +kernel)
    · exact List.forall_mem_singleton.mpr (by decide +kernel)
  · refine List.forall_mem_cons.mpr ⟨by decide +kernel, List.forall_mem_singleton.mpr (Firm.plain ?_)⟩
    have hresult : IsFlat (if s.connections.output.isSome then "Expr" else "String").toList :=
      hoption (by decide +kernel) (by decide +kernel)
    exact Firm.append (Firm.append (by decide +kernel) hresult) (by decide +kernel)
  · refine List.forall_mem_cons.mpr ⟨by decide +kernel, List.forall_mem_cons.mpr ⟨?_, ?_⟩⟩
    · show Plain ("        " ++ if s.connections.output.isSome then _ else _)
      split <;> decide +kernel
    · exact List.forall_mem_cons.mpr ⟨by decide +kernel, List.forall_mem_singleton.mpr (by decide +kernel)⟩

theorem filter_of_plain {ls : List String} (h : ∀ line ∈ ls, Plain line) :
    (ls.map String.toList).filter isLet = [] ∧ (ls.map String.toList).filterMap trait? = [] := by
  constructor
  · refine List.filter_eq_nil_iff.mpr fun cs hcs => ?_
    obtain ⟨line, hline, rfl⟩ := List.mem_map.mp hcs
    exact Bool.not_eq_true _ ▸ (h line hline).2.1
  · refine List.filterMap_eq_nil_iff.mpr fun cs hcs => ?_
    obtain ⟨line, hline, rfl⟩ := List.mem_map.mp hcs
    exact (h line hline).2.2

/-- the lines of some extractions, indented, and numbered from `index` on -/
def bodyFrom (index : Nat) (es : List Extraction) : List (List Char) :=
  (es.zipIdx index).map fun e => ("        " ++ e.1.line e.2).toList

@[simp]
theorem bodyFrom_nil (index : Nat) : bodyFrom index [] = [] := rfl

@[simp]
theorem bodyFrom_cons (index : Nat) (e : Extraction) (rest : List Extraction) :
    bodyFrom index (e :: rest) = ("        " ++ e.line index).toList :: bodyFrom (index + 1) rest := rfl

theorem forall_mem_bodyFrom {P : List Char → Prop}
    (h : ∀ (r : Reading) name index, P ("        " ++ r.line name index).toList)
    (index : Nat) (es : List Extraction) : ∀ line ∈ bodyFrom index es, P line := by
  intro line hline
  obtain ⟨e, -, rfl⟩ := List.mem_map.mp hline
  rw [e.1.line_eq]
  exact h _ _ _

/-- the lines of a stub that bind locals are its extractions, and one line names a trait -/
theorem filter_lines_stub (s : Schema) (es : List Extraction) :
    (lines (stub s es)).filter isLet = bodyFrom 0 es ∧ (lines (stub s es)).filterMap trait? = [traitOf s] := by
  obtain ⟨before, after, tail, line, hstub, himpl, hbefore, hafter, htail⟩ := stub_eq s es
  have hlines : lines (stub s es) = before.map String.toList ++ line.toList :: after.map String.toList
      ++ bodyFrom 0 es ++ tail.map String.toList := by
    have hbody : (es.zipIdx.map fun e => "        " ++ e.1.line e.2).map String.toList = bodyFrom 0 es := by
      rw [List.map_map]
      rfl
    rw [hstub, lines_intercalate (by simp)]
    · rw [List.map_append, List.map_append, List.map_append, hbody, List.map_cons]
    · have hflat := forall_mem_bodyFrom isFlat_line 0 es
      rw [← hbody] at hflat
      simp only [List.forall_mem_append, List.forall_mem_cons]
      exact ⟨⟨⟨fun l hl => (hbefore l hl).1, himpl.1, fun l hl => (hafter l hl).1⟩,
        fun l hl => hflat _ (List.mem_map_of_mem hl)⟩, fun l hl => (htail l hl).1⟩
  have hlet : ∀ line ∈ bodyFrom 0 es, isLet line = true := forall_mem_bodyFrom isLet_line 0 _
  have htrait : ∀ line ∈ bodyFrom 0 es, trait? line = none := forall_mem_bodyFrom trait?_line 0 _
  constructor
  · rw [hlines, List.filter_append, List.filter_append, List.filter_append, (filter_of_plain hbefore).1,
      List.filter_cons_of_neg (Bool.not_eq_true _ ▸ himpl.2.1), (filter_of_plain hafter).1, (filter_of_plain htail).1,
      List.filter_eq_self.mpr hlet]
    simp
  · rw [hlines, List.filterMap_append, List.filterMap_append, List.filterMap_append, (filter_of_plain hbefore).2,
      List.filterMap_cons_some himpl.2.2, (filter_of_plain hafter).2, (filter_of_plain htail).2,
      List.filterMap_eq_nil_iff.mpr htrait]
    rfl

/-! ## stub and schema -/

/-- the name that an entry of a schema carries -/
def entryName? (entry : Json) : Option String :=
  match entry.member? "name" with
  | some (.string name) => some name
  | _ => none

/-- a line reads the name of an entry with the accessor of its kind -/
def Reads (line : List Char) (entry : Json) : Prop :=
  ∃ (r : Reading) (name binder : String), entry.member? "type" = some (.string r.kind.tag)
    ∧ entryName? entry = some name ∧ readBinding? line = some ⟨binder, r.accessor, name⟩

namespace Argument

theorem entryName?_toJson (a : Argument) : entryName? a.toJson = a.name? := by cases a <;> rfl

theorem member?_type (a : Argument) : a.toJson.member? "type" = some (.string a.kind.tag) := by cases a <;> rfl

/-- every argument with a name is read under it, as its kind is -/
theorem extraction?_cases (a : Argument) : a.name? = none ∧ a.extraction? = none
    ∨ ∃ e, a.extraction? = some e ∧ a.name? = some e.reading.2 ∧ a.kind = e.reading.1.kind := by
  cases a with
  | dummy => exact .inl ⟨rfl, rfl⟩
  | _ => exact .inr ⟨_, rfl, rfl, rfl⟩

end Argument

/-- every extraction reads the entry in its place -/
theorem reads_bodyFrom (index : Nat) (as : List Argument) :
    List.Forall₂ Reads (bodyFrom index (as.filterMap Argument.extraction?))
      ((as.map Argument.toJson).filter fun entry => (entryName? entry).isSome) := by
  induction as generalizing index with
  | nil => exact .nil
  | cons a rest ih =>
    rw [List.map_cons]
    rcases a.extraction?_cases with ⟨hname, hextraction⟩ | ⟨e, hextraction, hname, hkind⟩
    · rw [List.filterMap_cons_none hextraction, List.filter_cons_of_neg (by simp [a.entryName?_toJson, hname])]
      exact ih index
    · rw [List.filterMap_cons_some hextraction, List.filter_cons_of_pos (by simp [a.entryName?_toJson, hname]),
        bodyFrom_cons, e.line_eq]
      refine .cons ⟨e.reading.1, e.reading.2, _, ?_, ?_, readBinding?_line _ _ index⟩ (ih (index + 1))
      · rw [a.member?_type, hkind]
      · rw [a.entryName?_toJson, hname]

theorem entryNames_schemaOf (root : Block) :
    (args0 (schemaOf root).toJson).filterMap entryName? = (descriptors root).filterMap Descriptor.claimed? := by
  rw [args0_schemaOf, List.filterMap_map, List.filterMap_filterMap]
  congr 1
  funext d
  rw [Descriptor.claimed?]
  congr 1
  funext a
  exact a.entryName?_toJson

/-- stub and schema agree.  The lines of the stub that bind locals are one for every entry that carries a name,
in the same order, and each reads that name with the accessor of its kind; only dummies carry none.  The rule
implements the trait of values exactly if the schema has an output.  The warnings about names, together with the
distinct names, are as many as the entries that carry a name.  And a stray adds one warning and nothing else:
without some of the strays the definition compiles to the same, but for their warnings -/
theorem stub_agrees (root : Block) (h : root.tag = rootTag) :
    ∃ s, (compile (some root)).definition = some s ∧ (compile (some root)).schema = s.toJson.pretty
      ∧ List.Forall₂ Reads ((lines (compile (some root)).stub).filter isLet)
        ((args0 s.toJson).filter fun entry => (entryName? entry).isSome)
      ∧ (∀ entry ∈ args0 s.toJson,
        entryName? entry = none ↔ entry.member? "type" = some (.string Kind.dummy.tag))
      ∧ (lines (compile (some root)).stub).filterMap trait?
        = [if (s.toJson.member? "output").isSome then "ValueRule" else "StatementRule"]
      ∧ (compile (some root)).warnings.countP isDuplicate
          + ((args0 s.toJson).filterMap entryName?).toFinset.card
        = ((args0 s.toJson).filterMap entryName?).length
      ∧ ∀ gone : Descriptor → Bool,
        descriptors (without gone root) = (descriptors root).filter (fun d => !d.isDropped gone)
        ∧ (compile (some (without gone root))).definition = some s
        ∧ (compile (some (without gone root))).schema = (compile (some root)).schema
        ∧ (compile (some (without gone root))).stub = (compile (some root)).stub
        ∧ (compile (some root)).warnings.Perm ((compile (some (without gone root))).warnings
            ++ ((descriptors root).filter (Descriptor.isDropped gone)).map Descriptor.strayWarning) := by
  have hdefinition : (compileRoot root).definition = some (schemaOf root) := rfl
  have hstub : (compileRoot root).stub = stub (schemaOf root) (collect root).extractions := rfl
  obtain ⟨hlets, htraits⟩ := filter_lines_stub (schemaOf root) (collect root).extractions
  rw [compile_root h]
  refine ⟨schemaOf root, hdefinition, rfl, ?_, ?_, ?_, ?_, fun gone => ⟨descriptors_without gone root, ?_⟩⟩
  · rw [hstub, hlets, Schema.args0_toJson, (inStep_collect root).extractions]
    exact reads_bodyFrom 0 _
  · intro entry hentry
    rw [Schema.args0_toJson] at hentry
    obtain ⟨a, -, rfl⟩ := List.mem_map.mp hentry
    rw [a.entryName?_toJson, a.name?_eq_none_iff, a.member?_type, Option.some_inj, Json.string.injEq]
    exact ⟨congrArg Kind.tag, Kind.tag_inj⟩
  · rw [hstub, htraits, Schema.member?_output]
    rfl
  · rw [entryNames_schemaOf]
    exact countP_duplicates root
  · have htag : (without gone root).tag = rootTag := by
      obtain ⟨statements, hroot⟩ := without_eq gone root
      rw [hroot]
      exact h
    rw [compile_root htag, ← hdefinition]
    exact compileRoot_without gone root

/-- a definition with a value and a text of one name, which would break the line and bind another local if it
were not quoted, a stray among the fields and one among the inputs -/
def hostileRoot : Block :=
  ⟨"r", rootTag, [("CONNECTIONS", .string "LEFT")], [],
    [("INPUTS", ⟨"i", "input_value", [("INPUTNAME", .string "a\");\n let b = (\"")], [],
      [("FIELDS", ⟨"s", "math_number", [], [], [],
        some ⟨"t", "field_input", [("FIELDNAME", .string "a\");\n let b = (\"")], [], [], none⟩⟩)],
      some ⟨"u", "field_input", [], [], [], none⟩⟩)],
    none⟩

theorem stub_agrees_hostileRoot :
    hostileRoot.tag = rootTag
      ∧ ((lines (compile (some hostileRoot)).stub).filter isLet).length = 2
      ∧ (lines (compile (some hostileRoot)).stub).filterMap trait? = ["ValueRule"]
      ∧ (compile (some hostileRoot)).warnings.countP isDuplicate = 1
      ∧ (compile (some hostileRoot)).warnings.length
        = (compile (some (without (fun _ => true) hostileRoot))).warnings.length + 2 := by
  obtain ⟨s, hs, -, hreads, -, htraits, hcount, hstrays⟩ := stub_agrees hostileRoot rfl
  cases hs
  refine ⟨rfl, ?_, ?_, ?_, ?_⟩
  · rw [hreads.length_eq]
    decide +kernel
  · rw [htraits]
    decide +kernel
  · have hnames : ((args0 (schemaOf hostileRoot).toJson).filterMap entryName?).toFinset.card = 1
        ∧ ((args0 (schemaOf hostileRoot).toJson).filterMap entryName?).length = 2 := by decide +kernel
    omega
  · have hgone : ((descriptors hostileRoot).filter (Descriptor.isDropped fun _ => true)).length = 2 := by
      decide +kernel
    rw [(hstrays fun _ => true).2.2.2.2.length_eq, List.length_append, List.length_map, hgone]

end Definition
end VisualProgram
