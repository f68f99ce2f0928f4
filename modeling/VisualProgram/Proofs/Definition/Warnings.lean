import VisualProgram.Proofs.Assoc
import VisualProgram.Proofs.Definition.Descriptors
import Mathlib.Data.Finset.Card

/-!
# Warnings about a definition

A warning is about a name that is taken, about a stray, about a choice without options or about the
connections.  Those about names are as many as the names that a definition repeats (`countP_duplicates`).

Strays do nothing but warn.  `without gone` takes some of them out of the chains of a definition: the other
descriptors stay (`descriptors_without`), the schema is the same (`schemaOf_without`), and of the warnings
one is missing for every stray taken out (`perm_warningsOf`).
-/

namespace VisualProgram

/-! ## chains from lists -/

namespace Block

/-- some blocks linked into one chain -/
def linked : List Block → Option Block
  | [] => none
  | b :: rest => some (b.setNext (linked rest))

/-- linking changes nothing but what comes next -/
theorem map_chainOf_linked {α : Type} {f : Block → α} (hf : ∀ b next, f (b.setNext next) = f b)
    (blocks : List Block) : (chainOf (linked blocks)).map f = blocks.map f := by
  induction blocks with
  | nil => rfl
  | cons b rest ih =>
    have hchain : chainOf (some (b.setNext (linked rest))) = b.setNext (linked rest) :: chainOf (linked rest) := by
      rw [setNext, chainOf, Option.elim_some, chain]
      cases linked rest <;> rfl
    rw [linked, hchain, List.map_cons, hf, ih, List.map_cons]

/-- the block with some blocks as the chain in one of its sockets, which is empty if there are none -/
def setChain (b : Block) (socket : String) (blocks : List Block) : Block :=
  match linked blocks with
  | none => { b with statements := b.statements.filter fun e => e.1 ≠ socket }
  | some head => b.setStatement socket head

section
variable (b : Block) (socket : String) (blocks : List Block)

theorem statement?_setChain : (b.setChain socket blocks).statement? socket = linked blocks := by
  unfold setChain
  cases linked blocks with
  | none =>
    show Assoc.get? socket (b.statements.filter _) = none
    rw [Assoc.get?_filter_ne, if_pos rfl]
  | some head =>
    show Assoc.get? socket (Assoc.insert socket head b.statements) = some head
    rw [Assoc.get?_insert, if_pos rfl]

theorem setChain_eq : ∃ statements, b.setChain socket blocks = { b with statements } := by
  unfold setChain
  cases linked blocks with
  | none => exact ⟨_, rfl⟩
  | some head => exact ⟨_, rfl⟩

end

end Block

/-! ## beginnings -/

namespace Text

/-- neither of two texts begins with the other -/
def diverge (a b : List Char) : Bool := !(a.isPrefixOf b || b.isPrefixOf a)

theorem diverge_iff {a b : List Char} : diverge a b = true ↔ ¬ a <+: b ∧ ¬ b <+: a := by
  rw [diverge, Bool.not_eq_true', Bool.or_eq_false_iff, ← Bool.not_eq_true, ← Bool.not_eq_true,
    List.isPrefixOf_iff_prefix, List.isPrefixOf_iff_prefix]

/-- two texts that have parted do not meet again -/
theorem diverge_append {lead start : List Char} (h : diverge lead start = true) (rest : List Char) :
    diverge lead (start ++ rest) = true := by
  rw [diverge_iff] at h ⊢
  constructor
  · intro hlead
    exact (List.prefix_or_prefix_of_prefix hlead (List.prefix_append _ _)).elim h.1 h.2
  · intro hstart
    exact h.2 ((List.prefix_append _ _).trans hstart)

theorem isPrefixOf_of_diverge {lead cs : List Char} (h : diverge lead cs = true) : lead.isPrefixOf cs = false := by
  rw [← Bool.not_eq_true, List.isPrefixOf_iff_prefix]
  exact (diverge_iff.mp h).1

end Text

namespace Definition

/-! ## repeated names -/

/-- how a warning about a name begins -/
def duplicateLead : String := "duplicate input or field name '"

def isDuplicate (warning : String) : Bool := duplicateLead.toList.isPrefixOf warning.toList

theorem isDuplicate_duplicateWarning (name : String) :
    isDuplicate (Descriptor.duplicateWarning name) = true := by
  have h : Descriptor.duplicateWarning name = duplicateLead ++ (name ++ "'") := String.append_assoc ..
  rw [h, isDuplicate, List.isPrefixOf_iff_prefix, String.toList_append]
  exact List.prefix_append _ _

/-- a warning that begins otherwise -/
theorem isDuplicate_of_start {start : String} (rest : String)
    (hstart : Text.diverge duplicateLead.toList start.toList = true) : isDuplicate (start ++ rest) = false := by
  rw [isDuplicate, String.toList_append]
  exact Text.isPrefixOf_of_diverge (Text.diverge_append hstart _)

theorem isDuplicate_strayWarning (d : Descriptor) : isDuplicate d.strayWarning = false := by
  unfold Descriptor.strayWarning
  simp only [String.append_assoc]
  exact isDuplicate_of_start _ (by decide)

theorem isDuplicate_optionsWarning (d : Descriptor) : isDuplicate d.optionsWarning = false := by
  unfold Descriptor.optionsWarning
  rw [String.append_assoc]
  exact isDuplicate_of_start _ (by decide)

theorem countP_connections (root : Block) : (connections root).2.countP isDuplicate = 0 := by
  have hunknown : ∀ other, isDuplicate ("unknown connection kind '" ++ other ++ "'") = false := by
    intro other
    rw [String.append_assoc]
    exact isDuplicate_of_start _ (by decide)
  unfold connections
  split
  case h_6 => rw [List.countP_singleton, hunknown, if_neg Bool.false_ne_true]
  all_goals rfl

theorem Descriptor.claimed?_of_stray {d : Descriptor} (h : d.kind? = none) : d.claimed? = none := by
  rw [claimed?, argument?, piece?, h]
  rfl

/-- a descriptor is warned about as a duplicate if its name is taken -/
theorem countP_warnings (taken : List String) (d : Descriptor) :
    (d.warnings taken).countP isDuplicate = d.claimed?.toList.countP (· ∈ taken) := by
  unfold Descriptor.warnings
  cases hkind : d.kind? with
  | none => simp [Descriptor.claimed?_of_stray hkind, isDuplicate_strayWarning]
  | some k =>
    have hoptions :
        (if k = .choice ∧ optionsOf d.block = [] then [d.optionsWarning] else []).countP isDuplicate = 0 := by
      split <;> simp [isDuplicate_optionsWarning]
    rw [List.countP_append, hoptions, Nat.add_zero]
    cases d.claimed? with
    | none => rfl
    | some name =>
      rw [Option.elim_some, Descriptor.duplicates]
      by_cases h : name ∈ taken <;> simp [h, isDuplicate_duplicateWarning]

theorem length_namesAfter (d : Descriptor) (taken : List String) :
    (d.namesAfter taken).length + d.claimed?.toList.countP (· ∈ taken)
      = taken.length + d.claimed?.toList.length := by
  unfold Descriptor.namesAfter
  cases d.claimed? with
  | none => rfl
  | some name => by_cases h : name ∈ taken <;> simp [h]

/-- the warnings about names, together with the names in use in the end, are as many as the names in use before
and those claimed -/
theorem countP_warningsOf (c : Collector) (ds : List Descriptor) :
    (warningsOf c.names ds).countP isDuplicate + (ds.foldl Collector.extend c).names.length
      = c.names.length + (ds.filterMap Descriptor.claimed?).length := by
  induction ds generalizing c with
  | nil => simp [warningsOf]
  | cons d rest ih =>
    have hrest := ih (c.extend d)
    have hlength := length_namesAfter d c.names
    change (warningsOf (d.namesAfter c.names) rest).countP isDuplicate + _ = (d.namesAfter c.names).length + _ at hrest
    rw [warningsOf, List.countP_append, countP_warnings, filterMap_cons_toList, List.length_append, List.foldl_cons]
    omega

theorem names_arguments (root : Block) :
    (collect root).arguments.filterMap Argument.name? = (descriptors root).filterMap Descriptor.claimed? := by
  rw [arguments_collect, List.filterMap_filterMap]
  rfl

/-- the names in use are as many as there are different names -/
theorem length_names_collect (root : Block) :
    (collect root).names.length = ((descriptors root).filterMap Descriptor.claimed?).toFinset.card := by
  obtain ⟨-, hnames, hnodup⟩ := inStep_collect root
  rw [← List.toFinset_card_of_nodup hnodup, ← names_arguments]
  congr 1
  ext name
  rw [List.mem_toFinset, List.mem_toFinset, hnames]

/-- the warnings about names are as many as the names that repeat others -/
theorem countP_duplicates (root : Block) :
    (compileRoot root).warnings.countP isDuplicate
        + ((descriptors root).filterMap Descriptor.claimed?).toFinset.card
      = ((descriptors root).filterMap Descriptor.claimed?).length := by
  have h := countP_warningsOf .empty (descriptors root)
  rw [← collect_eq, length_names_collect] at h
  show ((collect root).warnings ++ (connections root).2).countP isDuplicate + _ = _
  rw [List.countP_append, countP_connections, warnings_collect]
  exact h.trans (Nat.zero_add _)

/-! ## strays -/

namespace Descriptor

/-- a stray that is to go -/
def isDropped (gone : Descriptor → Bool) (d : Descriptor) : Bool := d.kind?.isNone && gone d

theorem kind?_of_isDropped {gone : Descriptor → Bool} {d : Descriptor} (h : d.isDropped gone = true) :
    d.kind? = none := by
  rw [isDropped, Bool.and_eq_true] at h
  exact Option.isNone_iff_eq_none.mp h.1

end Descriptor

section
variable (gone : Descriptor → Bool)

/-- an input without the strays among its fields that are to go -/
def inputWithout (input : Block) : Block :=
  input.setChain "FIELDS"
    ((Block.chainOf (input.statement? "FIELDS")).filter fun b => !(Descriptor.ofField b).isDropped gone)

/-- a definition without the strays that are to go -/
def without (root : Block) : Block :=
  root.setChain "INPUTS"
    (((Block.chainOf (root.statement? "INPUTS")).filter fun b => !(Descriptor.ofInput b).isDropped gone).map
      (inputWithout gone))

theorem ofInput_inputWithout (input : Block) :
    Descriptor.ofInput (inputWithout gone input) = .ofInput input := by
  obtain ⟨statements, h⟩ := Block.setChain_eq input "FIELDS" _
  rw [inputWithout, h]
  rfl

theorem inputDescriptors_inputWithout {input : Block} (hkeep : (Descriptor.ofInput input).isDropped gone = false) :
    inputDescriptors (inputWithout gone input)
      = (inputDescriptors input).filter fun d => !d.isDropped gone := by
  have hlast : [Descriptor.ofInput input].filter (fun d => !d.isDropped gone) = [.ofInput input] := by
    simp [hkeep]
  have hfields : (Block.chainOf ((inputWithout gone input).statement? "FIELDS")).map Descriptor.ofField
      = ((Block.chainOf (input.statement? "FIELDS")).map Descriptor.ofField).filter fun d => !d.isDropped gone := by
    rw [inputWithout, Block.statement?_setChain, Block.map_chainOf_linked (fun _ _ => rfl), List.filter_map]
    rfl
  rw [inputDescriptors, inputDescriptors, ofInput_inputWithout, hfields]
  split
  · rw [List.filter_append, hlast]
  · exact hlast.symm

/-- the descriptors that stay are those that were there -/
theorem descriptors_without (root : Block) :
    descriptors (without gone root) = (descriptors root).filter fun d => !d.isDropped gone := by
  have hchain : (Block.chainOf ((without gone root).statement? "INPUTS")).map inputDescriptors
      = (((Block.chainOf (root.statement? "INPUTS")).filter fun b => !(Descriptor.ofInput b).isDropped gone).map
        (inputWithout gone)).map inputDescriptors := by
    rw [without, Block.statement?_setChain, Block.map_chainOf_linked (fun _ _ => rfl)]
  rw [descriptors, List.flatMap_def, hchain, descriptors]
  induction Block.chainOf (root.statement? "INPUTS") with
  | nil => rfl
  | cons input rest ih =>
    rw [List.flatMap_cons, List.filter_append, ← ih]
    cases hdropped : (Descriptor.ofInput input).isDropped gone with
    | false =>
      rw [← inputDescriptors_inputWithout gone hdropped, List.filter_cons_of_pos (by simp [hdropped])]
      rfl
    | true =>
      rw [List.filter_cons_of_neg (by simp [hdropped]), inputDescriptors, Descriptor.kind?_of_isDropped hdropped]
      simp [hdropped]

theorem without_eq (root : Block) : ∃ statements, without gone root = { root with statements } :=
  Block.setChain_eq root "INPUTS" _

/-- a stray declares nothing, so that nothing is lost with it -/
theorem pieces_without (root : Block) : pieces (without gone root) = pieces root := by
  rw [pieces, descriptors_without, List.filterMap_filter, pieces]
  congr 1
  funext d
  cases hdropped : d.isDropped gone with
  | false => simp
  | true => simp [Descriptor.piece?, Descriptor.kind?_of_isDropped hdropped]

theorem schemaOf_without (root : Block) : schemaOf (without gone root) = schemaOf root := by
  have hmessage : (collect (without gone root)).message = (collect root).message := by
    rw [message_collect, pieces_without, message_collect]
  have harguments : (schemaOf (without gone root)).arguments = (schemaOf root).arguments := by
    rw [arguments_eq_pieces, pieces_without, arguments_eq_pieces]
  change (collect (without gone root)).arguments = (collect root).arguments at harguments
  obtain ⟨statements, hroot⟩ := without_eq gone root
  unfold schemaOf
  dsimp only
  rw [hmessage, harguments, hroot]
  rfl

/-- what is read stays the same, since the arguments do -/
theorem extractions_without (root : Block) :
    (collect (without gone root)).extractions = (collect root).extractions := by
  rw [(inStep_collect _).extractions, (inStep_collect _).extractions]
  exact congrArg (fun s => s.arguments.filterMap Argument.extraction?) (schemaOf_without gone root)

/-- the warnings are those about the descriptors that stay, and one for each that goes -/
theorem perm_warningsOf (taken : List String) (ds : List Descriptor) :
    (warningsOf taken ds).Perm
      (warningsOf taken (ds.filter fun d => !d.isDropped gone)
        ++ (ds.filter (Descriptor.isDropped gone)).map Descriptor.strayWarning) := by
  induction ds generalizing taken with
  | nil => exact .refl _
  | cons d rest ih =>
    cases hdropped : d.isDropped gone with
    | false =>
      rw [List.filter_cons_of_pos (by simp [hdropped]), List.filter_cons_of_neg (by simp [hdropped]), warningsOf,
        warningsOf, List.append_assoc]
      exact (ih _).append_left _
    | true =>
      have hkind := Descriptor.kind?_of_isDropped hdropped
      have hnames : d.namesAfter taken = taken := by
        rw [Descriptor.namesAfter, Descriptor.claimed?_of_stray hkind, Option.elim_none]
      have hwarnings : d.warnings taken = [d.strayWarning] := by rw [Descriptor.warnings, hkind]
      rw [List.filter_cons_of_neg (by simp [hdropped]), List.filter_cons_of_pos hdropped, warningsOf, hnames,
        hwarnings, List.map_cons]
      exact ((ih taken).cons _).trans List.perm_middle.symm

/-- a stray adds one warning and nothing else -/
theorem compileRoot_without (root : Block) :
    (compileRoot (without gone root)).definition = (compileRoot root).definition
      ∧ (compileRoot (without gone root)).schema = (compileRoot root).schema
      ∧ (compileRoot (without gone root)).stub = (compileRoot root).stub
      ∧ (compileRoot root).warnings.Perm ((compileRoot (without gone root)).warnings
          ++ ((descriptors root).filter (Descriptor.isDropped gone)).map Descriptor.strayWarning) := by
  have hschema := schemaOf_without gone root
  have hstub : stub (schemaOf (without gone root)) (collect (without gone root)).extractions
      = stub (schemaOf root) (collect root).extractions := by
    rw [hschema, extractions_without]
  refine ⟨congrArg some hschema, congrArg (fun s => s.toJson.pretty) hschema, hstub, ?_⟩
  have hconnections : (connections (without gone root)).2 = (connections root).2 := by
    obtain ⟨statements, hroot⟩ := without_eq gone root
    rw [hroot]
    rfl
  have hwarnings := perm_warningsOf gone [] (descriptors root)
  rw [← descriptors_without, ← warnings_collect, ← warnings_collect] at hwarnings
  show ((collect root).warnings ++ (connections root).2).Perm
    ((collect (without gone root)).warnings ++ (connections (without gone root)).2 ++ _)
  rw [hconnections, List.append_assoc]
  refine (hwarnings.append_right _).trans ?_
  rw [List.append_assoc]
  exact List.perm_append_comm.append_left _

end

end Definition
end VisualProgram
