import VisualProgram.Definition
import Mathlib.Data.List.Nodup

/-!
# What a definition declares

The blocks of a definition are looked at one after the other: those of the `INPUTS` chain, and right
before each input the blocks of its `FIELDS` chain.  A block counts by where it stands and by its tag,
id and fields alone, which make its `Descriptor`.

* `descriptors`     the blocks looked at, in order; what hangs in a block that is no input is not;
* `Kind`            the eight kinds of descriptors; a block that has none of them is a stray;
* `Descriptor.piece?`   what a descriptor declares: a label or an argument;
* `Descriptor.extraction?`   what it has a rule read;
* `collect_eq`      collecting is one step, `Collector.extend`, for every descriptor.

The run lemmas say what a whole definition collects: the arguments are those declared
(`arguments_collect`), the message has a part for each piece (`message_collect`), and the warnings come
from the descriptors in the light of the names before them (`warnings_collect`).

A collector keeps arguments, extractions and names in lists of their own.  That these stay in step
(`Collector.InStep`) is kept by every descriptor (`InStep.extend`) and so holds in the end (`inStep_collect`).
-/

namespace VisualProgram.Definition

/-! ## kinds -/

/-- where a block of a definition stands: among the inputs, or among the fields of one -/
inductive Role where
  | input
  | field
deriving DecidableEq

inductive Kind where
  | value
  | statement
  | dummy
  | label
  | text
  | number
  | choice
  | checkbox
deriving DecidableEq

namespace Kind

def all : List Kind := [.value, .statement, .dummy, .label, .text, .number, .choice, .checkbox]

def role : Kind → Role
  | .value | .statement | .dummy => .input
  | .label | .text | .number | .choice | .checkbox => .field

def tag : Kind → String
  | .value => "input_value"
  | .statement => "input_statement"
  | .dummy => "input_dummy"
  | .label => "field_static"
  | .text => "field_input"
  | .number => "field_number"
  | .choice => "field_dropdown"
  | .checkbox => "field_checkbox"

theorem mem_all (k : Kind) : k ∈ all := by cases k <;> decide

theorem tag_inj {k l : Kind} (h : k.tag = l.tag) : k = l := by
  have key : ∀ k ∈ all, ∀ l ∈ all, k.tag = l.tag → k = l := by decide
  exact key k (mem_all k) l (mem_all l) h

end Kind

/-! ## descriptors -/

/-- what is read of a block of a definition -/
structure Descriptor where
  role : Role
  id : String
  tag : String
  fields : List (String × Json)
deriving DecidableEq

namespace Descriptor

def ofInput (b : Block) : Descriptor := ⟨.input, b.id, b.tag, b.fields⟩

def ofField (b : Block) : Descriptor := ⟨.field, b.id, b.tag, b.fields⟩

/-- the block alone, with nothing in it -/
def block (d : Descriptor) : Block := ⟨d.id, d.tag, d.fields, [], [], none⟩

/-- the kind whose tag the block has, if that kind belongs where the block stands -/
def kind? (d : Descriptor) : Option Kind :=
  Kind.all.find? fun k => k.role = d.role ∧ k.tag = d.tag

theorem kind?_eq_some_iff {d : Descriptor} {k : Kind} :
    d.kind? = some k ↔ k.role = d.role ∧ k.tag = d.tag := by
  constructor
  · intro h
    simpa using List.find?_some h
  · rintro ⟨hrole, htag⟩
    cases hfound : d.kind? with
    | none =>
      have hnone := List.find?_eq_none.mp hfound k (Kind.mem_all k)
      exact absurd (decide_eq_true ⟨hrole, htag⟩) hnone
    | some l =>
      have hl : l.role = d.role ∧ l.tag = d.tag := by simpa using List.find?_some hfound
      rw [Kind.tag_inj (hl.2.trans htag.symm)]

theorem kind?_eq_none_iff {d : Descriptor} :
    d.kind? = none ↔ ∀ k : Kind, k.role = d.role → k.tag ≠ d.tag := by
  constructor
  · intro h k hrole htag
    rw [kind?_eq_some_iff.mpr ⟨hrole, htag⟩] at h
    cases h
  · intro h
    refine List.find?_eq_none.mpr fun k _ hk => ?_
    obtain ⟨hrole, htag⟩ := of_decide_eq_true hk
    exact h k hrole htag

/-- the name a block gives to what it declares -/
def name (d : Descriptor) : String :=
  (Field.text? (match d.role with | .input => "INPUTNAME" | .field => "FIELDNAME") d.fields).getD "NAME"

/-- the text of a label, or the first contents of a text field -/
def text (d : Descriptor) : String := (Field.text? "TEXT" d.fields).getD ""

/-- the options that a choice declares, or the one it gets -/
def options (d : Descriptor) : List (String × String) :=
  match optionsOf d.block with
  | [] => [("option", "OPTION")]
  | options => options

end Descriptor

/-- an input comes after its fields; what hangs in a stray is not looked at -/
def inputDescriptors (input : Block) : List Descriptor :=
  if (Descriptor.ofInput input).kind?.isSome then
    (Block.chainOf (input.statement? "FIELDS")).map .ofField ++ [.ofInput input]
  else [.ofInput input]

def descriptors (root : Block) : List Descriptor :=
  (Block.chainOf (root.statement? "INPUTS")).flatMap inputDescriptors

/-! ## pieces -/

/-- what a descriptor declares -/
inductive Piece where
  | label (text : String)
  | argument (a : Argument)
deriving DecidableEq

namespace Piece

def argument? : Piece → Option Argument
  | .label _ => none
  | .argument a => some a

/-- the part of the message for a piece, after some arguments -/
def part (before : Nat) : Piece → String
  | .label text => escapePercent text
  | .argument _ => "%" ++ toString (before + 1)

/-- how many arguments a piece adds -/
def count : Piece → Nat
  | .label _ => 0
  | .argument _ => 1

/-- the parts of the message, the arguments numbered on from those before -/
def parts (before : Nat) : List Piece → List String
  | [] => []
  | p :: rest => p.part before :: parts (before + p.count) rest

end Piece

namespace Descriptor

/-- what a descriptor of a kind declares; a label without text declares nothing -/
def pieceOf (d : Descriptor) : Kind → Option Piece
  | .value => some (.argument (.value d.name (nonempty? (Field.text? "CHECK" d.fields))))
  | .statement => some (.argument (.statement d.name))
  | .dummy => some (.argument .dummy)
  | .label => if d.text = "" then none else some (.label d.text)
  | .text => some (.argument (.text d.name d.text))
  | .number => some (.argument (.number d.name ((Field.float? "VALUE" d.fields).getD 0)))
  | .choice => some (.argument (.choice d.name d.options))
  | .checkbox => some (.argument (.checkbox d.name ((Field.flag? "CHECKED" d.fields).getD true)))

/-- a stray declares nothing -/
def piece? (d : Descriptor) : Option Piece := d.kind?.bind d.pieceOf

/-- what a descriptor of a kind has a rule read; labels and dummies have nothing to read -/
def extractionOf (d : Descriptor) : Kind → Option Extraction
  | .value => some (.value d.name)
  | .statement => some (.statement d.name)
  | .dummy | .label => none
  | .text => some (.text d.name)
  | .number => some (.number d.name)
  | .choice => some (.choice d.name)
  | .checkbox => some (.checkbox d.name)

def extraction? (d : Descriptor) : Option Extraction := d.kind?.bind d.extractionOf

def argument? (d : Descriptor) : Option Argument := d.piece?.bind Piece.argument?

/-- the name of the argument, if there is one that has a name -/
def claimed? (d : Descriptor) : Option String := d.argument?.bind Argument.name?

theorem argument?_eq_some_iff {d : Descriptor} {a : Argument} :
    d.argument? = some a ↔ ∃ k, d.kind? = some k ∧ d.pieceOf k = some (.argument a) := by
  rw [argument?, piece?]
  constructor
  · intro h
    obtain ⟨piece, hpiece, ha⟩ := Option.bind_eq_some_iff.mp h
    obtain ⟨k, hk, hof⟩ := Option.bind_eq_some_iff.mp hpiece
    cases piece with
    | label text => cases ha
    | argument b =>
      cases ha
      exact ⟨k, hk, hof⟩
  · rintro ⟨k, hk, hof⟩
    rw [hk, Option.bind_some, hof]
    rfl

/-- a block that is not what its place asks for -/
def strayWarning (d : Descriptor) : String :=
  "'" ++ d.tag ++ "' (" ++ d.id
    ++ (match d.role with | .input => ") is not an input descriptor" | .field => ") is not a field descriptor")

def duplicateWarning (name : String) : String := "duplicate input or field name '" ++ name ++ "'"

def optionsWarning (d : Descriptor) : String := "dropdown '" ++ d.id ++ "' has no valid options"

/-- the names in use after a descriptor -/
def namesAfter (d : Descriptor) (names : List String) : List String :=
  d.claimed?.elim names fun name => names.insert name

/-- the warning for a name among those taken -/
def duplicates (taken : List String) (name : String) : List String :=
  if name ∈ taken then [duplicateWarning name] else []

/-- the warnings about a descriptor, after others that have taken some names -/
def warnings (taken : List String) (d : Descriptor) : List String :=
  match d.kind? with
  | none => [d.strayWarning]
  | some k =>
    d.claimed?.elim [] (duplicates taken)
      ++ (if k = .choice ∧ optionsOf d.block = [] then [d.optionsWarning] else [])

end Descriptor

def pieces (root : Block) : List Piece := (descriptors root).filterMap Descriptor.piece?

/-! ## one step -/

namespace Collector

/-- what is collected after one more descriptor -/
def extend (c : Collector) (d : Descriptor) : Collector :=
  { message := c.message ++ d.piece?.toList.map (Piece.part c.arguments.length)
    arguments := c.arguments ++ d.argument?.toList
    extractions := c.extractions ++ d.extraction?.toList
    names := d.namesAfter c.names
    warnings := c.warnings ++ d.warnings c.names }

end Collector

section
variable (c : Collector)

theorem claim_eq (name : String) :
    c.claim name = { c with
      names := c.names.insert name
      warnings := c.warnings ++ Descriptor.duplicates c.names name } := by
  unfold Collector.claim Descriptor.duplicates
  by_cases h : name ∈ c.names
  · rw [if_pos h, if_pos h, List.insert_of_mem h]
    rfl
  · rw [if_neg h, if_neg h, List.insert_of_not_mem h, List.append_nil]

/-- a descriptor that declares an argument with a name claims the name first, and has it read last -/
theorem extend_of_claimed {d : Descriptor} {k : Kind} {a : Argument} {e : Extraction} {name : String}
    (hkind : d.kind? = some k) (hpiece : d.pieceOf k = some (.argument a)) (hname : a.name? = some name)
    (hextraction : d.extractionOf k = some e) (hchoice : k ≠ .choice) :
    c.extend d = ((c.claim name).push a).extract e := by
  have hp : d.piece? = some (.argument a) := by rw [Descriptor.piece?, hkind]; exact hpiece
  have ha : d.argument? = some a := by rw [Descriptor.argument?, hp]; rfl
  have he : d.extraction? = some e := by rw [Descriptor.extraction?, hkind]; exact hextraction
  have hn : d.claimed? = some name := by rw [Descriptor.claimed?, ha]; exact hname
  have hw : d.warnings c.names = Descriptor.duplicates c.names name := by
    rw [Descriptor.warnings, hkind]
    simp only [hn, hchoice, false_and, if_false, List.append_nil, Option.elim_some]
  rw [Collector.extend, hp, ha, he, Descriptor.namesAfter, hn, hw, claim_eq]
  rfl

/-- a descriptor that has no name to claim has nothing to read -/
theorem extend_of_unclaimed {d : Descriptor} (hclaimed : d.claimed? = none) (hextraction : d.extraction? = none) :
    c.extend d =
      { c with
        message := c.message ++ d.piece?.toList.map (Piece.part c.arguments.length)
        arguments := c.arguments ++ d.argument?.toList
        warnings := c.warnings ++ d.warnings c.names } := by
  rw [Collector.extend, hextraction, Descriptor.namesAfter, hclaimed]
  simp

theorem extend_of_stray {d : Descriptor} (hkind : d.kind? = none) : c.extend d = c.warn d.strayWarning := by
  have hp : d.piece? = none := by rw [Descriptor.piece?, hkind]; rfl
  have ha : d.argument? = none := by rw [Descriptor.argument?, hp]; rfl
  have hn : d.claimed? = none := by rw [Descriptor.claimed?, ha]; rfl
  have he : d.extraction? = none := by rw [Descriptor.extraction?, hkind]; rfl
  have hw : d.warnings c.names = [d.strayWarning] := by rw [Descriptor.warnings, hkind]
  rw [extend_of_unclaimed c hn he, hp, ha, hw]
  simp [Collector.warn]

theorem extend_of_dummy {d : Descriptor} (hkind : d.kind? = some .dummy) : c.extend d = c.push .dummy := by
  have hp : d.piece? = some (.argument .dummy) := by rw [Descriptor.piece?, hkind]; rfl
  have ha : d.argument? = some .dummy := by rw [Descriptor.argument?, hp]; rfl
  have hn : d.claimed? = none := by rw [Descriptor.claimed?, ha]; rfl
  have he : d.extraction? = none := by rw [Descriptor.extraction?, hkind]; rfl
  have hw : d.warnings c.names = [] := by
    rw [Descriptor.warnings, hkind]
    simp [hn]
  rw [extend_of_unclaimed c hn he, hp, ha, hw, List.append_nil]
  rfl

/-- a label is part of the message only -/
theorem extend_of_label {d : Descriptor} (hkind : d.kind? = some .label) :
    c.extend d = if d.text = "" then c else { c with message := c.message ++ [escapePercent d.text] } := by
  have hp : d.piece? = if d.text = "" then none else some (.label d.text) := by
    rw [Descriptor.piece?, hkind]; rfl
  have ha : d.argument? = none := by rw [Descriptor.argument?, hp]; split <;> rfl
  have hn : d.claimed? = none := by rw [Descriptor.claimed?, ha]; rfl
  have he : d.extraction? = none := by rw [Descriptor.extraction?, hkind]; rfl
  have hw : d.warnings c.names = [] := by
    rw [Descriptor.warnings, hkind]
    simp [hn]
  rw [extend_of_unclaimed c hn he, hp, ha, hw]
  by_cases h : d.text = ""
  · simp [h]
  · simp [h, Piece.part]

/-- a choice that declares no options is warned about after its name -/
theorem extend_of_choice {d : Descriptor} (hkind : d.kind? = some .choice) :
    c.extend d = (addChoice (c.claim d.name) d.block d.name).extract (.choice d.name) := by
  have hp : d.piece? = some (.argument (.choice d.name d.options)) := by rw [Descriptor.piece?, hkind]; rfl
  have ha : d.argument? = some (.choice d.name d.options) := by rw [Descriptor.argument?, hp]; rfl
  have he : d.extraction? = some (.choice d.name) := by rw [Descriptor.extraction?, hkind]; rfl
  have hn : d.claimed? = some d.name := by rw [Descriptor.claimed?, ha]; rfl
  rw [Collector.extend, hp, ha, he, Descriptor.namesAfter, Descriptor.warnings, hkind, claim_eq]
  simp only [hn, true_and, Option.elim_some]
  unfold addChoice Descriptor.options
  cases optionsOf d.block with
  | nil =>
    simp [Collector.push, Collector.warn, Collector.extract, Piece.part, Descriptor.optionsWarning, Descriptor.block]
  | cons option rest => simp [Collector.push, Collector.extract, Piece.part]

theorem addField_eq (b : Block) : addField c b = c.extend (.ofField b) := by
  have hkind : ∀ k : Kind, k.role = .field → b.tag = k.tag → (Descriptor.ofField b).kind? = some k :=
    fun k hrole htag => Descriptor.kind?_eq_some_iff.mpr ⟨hrole, htag.symm⟩
  unfold addField
  dsimp only
  split
  next htag => exact (extend_of_label c (hkind .label rfl htag)).symm
  next htag => exact (extend_of_claimed c (hkind .text rfl htag) rfl rfl rfl (by decide)).symm
  next htag => exact (extend_of_claimed c (hkind .number rfl htag) rfl rfl rfl (by decide)).symm
  next htag => exact (extend_of_choice c (hkind .choice rfl htag)).symm
  next htag => exact (extend_of_claimed c (hkind .checkbox rfl htag) rfl rfl rfl (by decide)).symm
  next hlabel htext hnumber hchoice hcheckbox =>
    have hnone : (Descriptor.ofField b).kind? = none := by
      refine Descriptor.kind?_eq_none_iff.mpr fun k hrole htag => ?_
      cases k with
      | value | statement | dummy => cases hrole
      | label => exact hlabel htag.symm
      | text => exact htext htag.symm
      | number => exact hnumber htag.symm
      | choice => exact hchoice htag.symm
      | checkbox => exact hcheckbox htag.symm
    rw [extend_of_stray c hnone, Descriptor.strayWarning]
    rfl

theorem addFields_eq (b : Block) :
    addFields c b = ((Block.chainOf (b.statement? "FIELDS")).map .ofField).foldl Collector.extend c := by
  rw [addFields, List.foldl_map]
  congr 1
  funext c b
  exact addField_eq c b

theorem addInput_eq (b : Block) : addInput c b = (inputDescriptors b).foldl Collector.extend c := by
  have hkind : ∀ k : Kind, k.role = .input → b.tag = k.tag → (Descriptor.ofInput b).kind? = some k :=
    fun k hrole htag => Descriptor.kind?_eq_some_iff.mpr ⟨hrole, htag.symm⟩
  have hlast : ∀ k : Kind, (Descriptor.ofInput b).kind? = some k →
      (inputDescriptors b).foldl Collector.extend c = (addFields c b).extend (.ofInput b) := by
    intro k hk
    rw [inputDescriptors, hk, Option.isSome_some, if_pos rfl, List.foldl_append, ← addFields_eq]
    rfl
  unfold addInput
  dsimp only
  split
  next htag =>
    have hk := hkind .value rfl htag
    rw [hlast _ hk]
    exact (extend_of_claimed _ hk rfl rfl rfl (by decide)).symm
  next htag =>
    have hk := hkind .statement rfl htag
    rw [hlast _ hk]
    exact (extend_of_claimed _ hk rfl rfl rfl (by decide)).symm
  next htag =>
    have hk := hkind .dummy rfl htag
    rw [hlast _ hk]
    exact (extend_of_dummy _ hk).symm
  next hvalue hstatement hdummy =>
    have hnone : (Descriptor.ofInput b).kind? = none := by
      refine Descriptor.kind?_eq_none_iff.mpr fun k hrole htag => ?_
      cases k with
      | value => exact hvalue htag.symm
      | statement => exact hstatement htag.symm
      | dummy => exact hdummy htag.symm
      | label | text | number | choice | checkbox => cases hrole
    rw [inputDescriptors, hnone, if_neg (by decide), List.foldl_cons, extend_of_stray c hnone,
      Descriptor.strayWarning]
    rfl

end

/-! ## the run -/

theorem collect_eq (root : Block) : collect root = (descriptors root).foldl Collector.extend .empty := by
  have hstep : addInput = fun c b => (inputDescriptors b).foldl Collector.extend c := by
    funext c b
    exact addInput_eq c b
  rw [collect, descriptors, List.foldl_flatMap, hstep]

/-- the warnings about some descriptors, each in the light of the names claimed before it -/
def warningsOf (taken : List String) : List Descriptor → List String
  | [] => []
  | d :: rest => d.warnings taken ++ warningsOf (d.namesAfter taken) rest

theorem filterMap_cons_toList {α β : Type} (f : α → Option β) (x : α) (rest : List α) :
    (x :: rest).filterMap f = (f x).toList ++ rest.filterMap f := by
  cases h : f x <;> simp [h]

/-- the message after one descriptor and some more -/
theorem parts_extend (c : Collector) (d : Descriptor) (rest : List Descriptor) :
    (c.extend d).message ++ Piece.parts (c.extend d).arguments.length (rest.filterMap Descriptor.piece?)
      = c.message ++ Piece.parts c.arguments.length ((d :: rest).filterMap Descriptor.piece?) := by
  rw [filterMap_cons_toList, Collector.extend, Descriptor.argument?]
  cases d.piece? with
  | none => simp
  | some p => cases p <;> simp [Piece.parts, Piece.count, Piece.argument?]

theorem foldl_extend (c : Collector) (ds : List Descriptor) :
    (ds.foldl Collector.extend c).message
        = c.message ++ Piece.parts c.arguments.length (ds.filterMap Descriptor.piece?)
      ∧ (ds.foldl Collector.extend c).arguments = c.arguments ++ ds.filterMap Descriptor.argument?
      ∧ (ds.foldl Collector.extend c).warnings = c.warnings ++ warningsOf c.names ds := by
  induction ds generalizing c with
  | nil => simp [Piece.parts, warningsOf]
  | cons d rest ih =>
    obtain ⟨hmessage, harguments, hwarnings⟩ := ih (c.extend d)
    rw [List.foldl_cons]
    refine ⟨?_, ?_, ?_⟩
    · rw [hmessage, parts_extend c d]
    · rw [harguments, filterMap_cons_toList, ← List.append_assoc]
      rfl
    · rw [hwarnings, warningsOf, ← List.append_assoc]
      rfl

/-- the arguments are those declared -/
theorem arguments_collect (root : Block) :
    (collect root).arguments = (descriptors root).filterMap Descriptor.argument? := by
  rw [collect_eq, (foldl_extend _ _).2.1]
  rfl

/-- the message has a part for each piece -/
theorem message_collect (root : Block) : (collect root).message = Piece.parts 0 (pieces root) := by
  rw [collect_eq, (foldl_extend _ _).1]
  rfl

theorem warnings_collect (root : Block) : (collect root).warnings = warningsOf [] (descriptors root) := by
  rw [collect_eq, (foldl_extend _ _).2.2]
  rfl

theorem arguments_eq_pieces (root : Block) :
    (schemaOf root).arguments = (pieces root).filterMap Piece.argument? := by
  have h : (schemaOf root).arguments = (collect root).arguments := rfl
  rw [h, arguments_collect, pieces, List.filterMap_filterMap]
  rfl

/-! ## in step -/

/-- what is read for an argument -/
def Argument.extraction? : Argument → Option Extraction
  | .value name _ => some (.value name)
  | .statement name => some (.statement name)
  | .dummy => none
  | .text name _ => some (.text name)
  | .number name _ => some (.number name)
  | .choice name _ => some (.choice name)
  | .checkbox name _ => some (.checkbox name)

/-- what a descriptor has a rule read is what is read for the argument that it declares -/
theorem Descriptor.extraction?_eq (d : Descriptor) : d.extraction? = d.argument?.bind Argument.extraction? := by
  rw [extraction?, argument?, piece?]
  cases d.kind? with
  | none => rfl
  | some k =>
    cases k with
    | label =>
      show none = ((if d.text = "" then none else some (.label d.text)).bind Piece.argument?).bind _
      split <;> rfl
    | _ => rfl

/-- the lists of a collector belong together: the extractions are those of the arguments, in the same order, and
the names in use are those of the arguments, each once -/
structure Collector.InStep (c : Collector) : Prop where
  extractions : c.extractions = c.arguments.filterMap Argument.extraction?
  names : ∀ name, name ∈ c.names ↔ name ∈ c.arguments.filterMap Argument.name?
  nodup : c.names.Nodup

theorem Collector.InStep.empty : Collector.empty.InStep := ⟨rfl, fun _ => Iff.rfl, List.nodup_nil⟩

theorem filterMap_toList {α β : Type} (f : α → Option β) (x : Option α) :
    x.toList.filterMap f = (x.bind f).toList := by
  cases x with
  | none => rfl
  | some x => cases h : f x <;> simp [h]

theorem mem_namesAfter {d : Descriptor} {names : List String} {name : String} :
    name ∈ d.namesAfter names ↔ name ∈ names ∨ name ∈ d.claimed?.toList := by
  unfold Descriptor.namesAfter
  cases d.claimed? with
  | none => simp
  | some claimed => simp [List.mem_insert_iff, or_comm]

theorem nodup_namesAfter {names : List String} (h : names.Nodup) (d : Descriptor) : (d.namesAfter names).Nodup := by
  unfold Descriptor.namesAfter
  cases d.claimed? with
  | none => exact h
  | some claimed => exact List.Nodup.insert h

/-- every descriptor keeps the lists in step -/
theorem Collector.InStep.extend {c : Collector} (h : c.InStep) (d : Descriptor) : (c.extend d).InStep := by
  refine ⟨?_, fun name => ?_, nodup_namesAfter h.nodup d⟩
  · show c.extractions ++ d.extraction?.toList = (c.arguments ++ d.argument?.toList).filterMap Argument.extraction?
    rw [List.filterMap_append, ← h.extractions, filterMap_toList, d.extraction?_eq]
  · show name ∈ d.namesAfter c.names ↔ name ∈ (c.arguments ++ d.argument?.toList).filterMap Argument.name?
    rw [mem_namesAfter, List.filterMap_append, List.mem_append, filterMap_toList, h.names]
    rfl

theorem inStep_collect (root : Block) : (collect root).InStep := by
  have hrun : ∀ (ds : List Descriptor) (c : Collector), c.InStep → (ds.foldl Collector.extend c).InStep := by
    intro ds
    induction ds with
    | nil => exact fun _ h => h
    | cons d rest ih => exact fun _ h => ih _ (h.extend d)
  rw [collect_eq]
  exact hrun _ _ .empty

/-! ## compiling -/

theorem compile_root {root : Block} (h : root.tag = rootTag) : compile (some root) = compileRoot root := if_pos h

end VisualProgram.Definition
