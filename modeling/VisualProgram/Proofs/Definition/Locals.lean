import VisualProgram.Proofs.Definition.Stub
import VisualProgram.Proofs.Identifier.Stable

/-!
# The locals of a stub

A local is called by the kind of its argument and by what identifies it: the words of its name, or its number
if they have no letter (`Identifier.itemWord`).  Kinds and words can be read from a local (`localName_eq_iff`).
So locals are distinct exactly if no two arguments of one kind have the same word (`nodup_locals_iff`).

Names that are not warned about are distinct as they stand, but their words need not be: names may differ in
case or in punctuation alone, and a name may look like the number of another argument.
-/

namespace VisualProgram

/-! ## items -/

namespace Identifier

/-- what tells an item from others: its label, cleaned, or its number if there is no letter in that -/
def itemWord (label : String) (index : Nat) : String :=
  if hasLetter (clean label) then clean label else "item_" ++ toString index

theorem isCleanWord_toString (n : Nat) : IsCleanWord (toString n) := by
  have hlist : (toString n).toList = Nat.toDigits 10 n := by rw [Nat.toString_eq_repr, Nat.toList_repr]
  have hdigits : ∀ m < 128, (Char.ofNat m).isDigit = true →
      (Char.ofNat m).isAlphanum = true ∧ (Char.ofNat m).toLower = Char.ofNat m := by decide
  refine ⟨?_, fun c hc => ?_⟩
  · intro h
    rw [h] at hlist
    exact Nat.toDigits_ne_nil hlist.symm
  · rw [hlist] at hc
    have hdigit := Nat.isDigit_of_mem_toDigits (by decide) (by decide) hc
    have hrange : 48 ≤ c.toNat ∧ c.toNat ≤ 57 := Char.isDigit_iff_toNat.mp hdigit
    have hc := hdigits c.toNat (by omega)
    rw [Char.ofNat_toNat] at hc
    exact hc hdigit

theorem clean_toString (n : Nat) : clean (toString n) = toString n := by
  rw [clean_eq, words_word (isCleanWord_toString n), String.intercalate_singleton]

theorem isStem_item : IsStem "item" := by decide

/-- the word of an item without a letter in its label -/
theorem clean_item (n : Nat) : clean ("item_" ++ toString n) = "item_" ++ toString n := by
  have hne : clean (toString n) ≠ "" := by
    rw [clean_toString]
    exact (isCleanWord_toString n).1
  have h := clean_stem isStem_item.1 isStem_item.ne_empty hne
  rw [clean_toString] at h
  exact h

theorem itemWord_of_letter {label : String} (h : hasLetter (clean label) = true) (index : Nat) :
    itemWord label index = clean label := if_pos h

theorem clean_itemWord (label : String) (index : Nat) : clean (itemWord label index) = itemWord label index := by
  unfold itemWord
  split
  · exact clean_clean label
  · exact clean_item index

/-- the identifier of an item is its word, kept from being a keyword or starting with a digit -/
theorem ofLabel_item (label : String) (index : Nat) :
    ofLabel "item" label (toString index) = avoidKeyword (avoidDigit (itemWord label index)) := by
  unfold ofLabel itemWord
  dsimp only
  by_cases h : hasLetter (clean label) = true
  · rw [if_pos h, if_pos h]
  · have hdigit : startsWithDigit ("item_" ++ toString index) = false :=
      isStem_item.startsWithDigit_append ("_" ++ toString index)
    have hkeyword : "item_" ++ toString index ∉ keywords := not_mem_keywords (by simp)
    rw [if_neg h, if_neg h, clean_toString, if_neg (isCleanWord_toString index).1, avoidDigit, hdigit,
      if_neg Bool.false_ne_true, avoidKeyword, if_neg hkeyword]
    rfl

theorem ofLabel_item_eq_iff {a b : String} {i j : Nat} :
    ofLabel "item" a (toString i) = ofLabel "item" b (toString j) ↔ itemWord a i = itemWord b j := by
  rw [ofLabel_item, ofLabel_item]
  constructor
  · intro h
    have hclean := congrArg clean h
    rw [clean_avoidKeyword, clean_avoidDigit, clean_avoidKeyword, clean_avoidDigit, clean_itemWord, clean_itemWord]
      at hclean
    exact hclean
  · intro h
    rw [h]

end Identifier

namespace Definition
open Text

/-! ## locals -/

/-- the local that is bound in a line -/
def binder? (line : List Char) : Option String := (readBinding? line).map Binding.binder

/-- what is bound by the extractions of a text -/
def locals (text : String) : List String := ((lines text).filter isLet).filterMap binder?

/-- the local of an extraction with its number -/
def Extraction.localName (e : Extraction) (index : Nat) : String :=
  Definition.localName e.reading.1.stem e.reading.2 index

theorem binder?_line (e : Extraction) (index : Nat) :
    binder? ("        " ++ e.line index).toList = some (e.localName index) := by
  rw [binder?, e.line_eq, readBinding?_line]
  rfl

theorem filterMap_bodyFrom (index : Nat) (es : List Extraction) :
    (bodyFrom index es).filterMap binder? = (es.zipIdx index).map fun e => e.1.localName e.2 := by
  induction es generalizing index with
  | nil => rfl
  | cons e rest ih =>
    rw [bodyFrom_cons, List.filterMap_cons_some (binder?_line ..), ih, List.zipIdx_cons, List.map_cons]

theorem locals_stub (s : Schema) (es : List Extraction) :
    locals (stub s es) = es.zipIdx.map fun e => e.1.localName e.2 := by
  rw [locals, (filter_lines_stub s es).1, filterMap_bodyFrom]

theorem Reading.diverge_stem (r r' : Reading) (h : r ≠ r') : diverge r.stem.toList r'.stem.toList = true := by
  cases r <;> cases r' <;> first | exact absurd rfl h | decide

/-- a local tells the kind of what it is bound to, and its word -/
theorem localName_eq_iff (r r' : Reading) (a b : String) (i j : Nat) :
    localName r.stem a i = localName r'.stem b j
      ↔ r = r' ∧ Identifier.itemWord a i = Identifier.itemWord b j := by
  rw [← Identifier.ofLabel_item_eq_iff]
  constructor
  · intro h
    have hstem : r = r' := by
      by_contra hne
      have hstart : r.stem.toList <+: (localName r.stem a i).toList := by
        rw [localName, String.append_assoc, String.toList_append]
        exact List.prefix_append _ _
      rw [h, localName, String.append_assoc, String.toList_append] at hstart
      exact (diverge_iff.mp (diverge_append (r.diverge_stem r' hne) _)).1 hstart
    rw [hstem, localName, localName] at h
    exact ⟨hstem, String.append_right_inj _ |>.mp h⟩
  · rintro ⟨rfl, h⟩
    rw [localName, h, localName]

/-! ## entries -/

def entryTag? (entry : Json) : Option String :=
  match entry.member? "type" with
  | some (.string tag) => some tag
  | _ => none

/-- the entries of a schema that carry a name, each as its type and its name -/
def namedEntries (schema : Json) : List (String × String) :=
  (args0 schema).filterMap fun entry =>
    (entryTag? entry).bind fun tag => (entryName? entry).map fun name => (tag, name)

/-- the type and the word of every such entry -/
def entryWords (schema : Json) : List (String × String) :=
  (namedEntries schema).zipIdx.map fun e => (e.1.1, Identifier.itemWord e.1.2 e.2)

theorem namedEntries_schemaOf (root : Block) : namedEntries (schemaOf root).toJson
    = (collect root).extractions.map fun e => (e.reading.1.kind.tag, e.reading.2) := by
  rw [namedEntries, Schema.args0_toJson, List.filterMap_map, (inStep_collect root).extractions, List.map_filterMap]
  show (collect root).arguments.filterMap _ = _
  congr 1
  funext a
  cases a <;> rfl

theorem names_namedEntries (s : Schema) :
    (namedEntries s.toJson).map Prod.snd = (args0 s.toJson).filterMap entryName? := by
  rw [namedEntries, Schema.args0_toJson, List.filterMap_map, List.map_filterMap, List.filterMap_map]
  congr 1
  funext a
  cases a <;> rfl

/-- locals are distinct exactly if no two entries of one type have the same word -/
theorem nodup_locals_iff (root : Block) :
    (locals (compileRoot root).stub).Nodup ↔ (entryWords (schemaOf root).toJson).Nodup := by
  have hstub : (compileRoot root).stub = stub (schemaOf root) (collect root).extractions := rfl
  have htag : ∀ r r' : Reading, r = r' ↔ r.kind.tag = r'.kind.tag := by
    intro r r'
    cases r <;> cases r' <;> decide
  rw [hstub, locals_stub, entryWords, namedEntries_schemaOf, List.zipIdx_map, List.map_map, List.Nodup, List.Nodup,
    List.pairwise_map, List.pairwise_map]
  refine List.Pairwise.iff fun e e' => not_congr ?_
  rw [Extraction.localName, Extraction.localName, localName_eq_iff, htag]
  exact Prod.mk.injEq .. ▸ Iff.rfl

/-! ## definitions without warnings -/

/-- names that are not warned about are distinct -/
theorem nodup_names_of_quiet {root : Block} (h : (compileRoot root).warnings = []) :
    ((namedEntries (schemaOf root).toJson).map Prod.snd).Nodup := by
  have hcount := countP_duplicates root
  rw [h, List.countP_nil, Nat.zero_add, ← entryNames_schemaOf, ← names_namedEntries] at hcount
  exact Multiset.toFinset_card_eq_card_iff_nodup.mp hcount

/-- if cleaning keeps the names of each type apart and leaves them a letter, the words are distinct -/
theorem nodup_entryWords {schema : Json} (hnames : ((namedEntries schema).map Prod.snd).Nodup)
    (hletter : ∀ e ∈ namedEntries schema, Identifier.hasLetter (Identifier.clean e.2) = true)
    (happart : ∀ e ∈ namedEntries schema, ∀ e' ∈ namedEntries schema, e.1 = e'.1 →
      Identifier.clean e.2 = Identifier.clean e'.2 → e.2 = e'.2) : (entryWords schema).Nodup := by
  have hwords : entryWords schema = (namedEntries schema).map fun e => (e.1, Identifier.clean e.2) := by
    have hitem : ∀ e ∈ (namedEntries schema).zipIdx,
        (e.1.1, Identifier.itemWord e.1.2 e.2) = (e.1.1, Identifier.clean e.1.2) := by
      intro e he
      have hword := Identifier.itemWord_of_letter (hletter e.1 (List.fst_mem_of_mem_zipIdx he)) e.2
      rw [hword]
    calc entryWords schema
        = (namedEntries schema).zipIdx.map fun e => (e.1.1, Identifier.clean e.1.2) := List.map_congr_left hitem
      _ = ((namedEntries schema).zipIdx.map Prod.fst).map fun e => (e.1, Identifier.clean e.2) := by
        rw [List.map_map]
        rfl
      _ = (namedEntries schema).map fun e => (e.1, Identifier.clean e.2) := by rw [List.zipIdx_map_fst]
  rw [hwords]
  refine hnames.of_map.map_on fun e he e' he' heq => ?_
  injection heq with htag hclean
  exact Prod.ext htag (happart e he e' he' htag hclean)

/-- the locals of a stub are distinct exactly if no two entries of one type have the same word.  Names that are
not warned about are distinct, and if cleaning keeps those of each type apart and leaves them a letter, so are
the locals -/
theorem locals_distinct_iff (root : Block) (h : root.tag = rootTag) :
    ∃ s, (compile (some root)).definition = some s ∧ (compile (some root)).schema = s.toJson.pretty
      ∧ (locals (compile (some root)).stub).length = ((lines (compile (some root)).stub).filter isLet).length
      ∧ ((locals (compile (some root)).stub).Nodup ↔ (entryWords s.toJson).Nodup)
      ∧ ((compile (some root)).warnings = [] → ((namedEntries s.toJson).map Prod.snd).Nodup
        ∧ ((∀ e ∈ namedEntries s.toJson, Identifier.hasLetter (Identifier.clean e.2) = true) →
          (∀ e ∈ namedEntries s.toJson, ∀ e' ∈ namedEntries s.toJson, e.1 = e'.1 →
            Identifier.clean e.2 = Identifier.clean e'.2 → e.2 = e'.2) →
          (locals (compile (some root)).stub).Nodup)) := by
  have hstub : (compileRoot root).stub = stub (schemaOf root) (collect root).extractions := rfl
  rw [compile_root h]
  refine ⟨schemaOf root, rfl, rfl, ?_, nodup_locals_iff _, fun hquiet => ⟨nodup_names_of_quiet hquiet, ?_⟩⟩
  · rw [hstub, locals_stub, (filter_lines_stub _ _).1, List.length_map, bodyFrom, List.length_map]
  · intro hletter happart
    exact (nodup_locals_iff _).mpr (nodup_entryWords (nodup_names_of_quiet hquiet) hletter happart)

/-- a definition with two values -/
def twinRoot (first second : String) : Block :=
  ⟨"r", rootTag, [], [],
    [("INPUTS", ⟨"i", "input_value", [("INPUTNAME", .string first)], [], [],
      some ⟨"j", "input_value", [("INPUTNAME", .string second)], [], [], none⟩⟩)],
    none⟩

theorem locals_distinct_iff_twinRoot :
    (twinRoot "in 2" "in(3)").tag = rootTag ∧ (compile (some (twinRoot "in 2" "in(3)"))).warnings = []
      ∧ (locals (compile (some (twinRoot "in 2" "in(3)"))).stub).Nodup := by
  obtain ⟨s, hs, -, -, -, hquiet⟩ := locals_distinct_iff (twinRoot "in 2" "in(3)") rfl
  cases hs
  have hwarnings : (compile (some (twinRoot "in 2" "in(3)"))).warnings = [] := by decide +kernel
  refine ⟨rfl, hwarnings, (hquiet hwarnings).2 ?_ ?_⟩
  · decide +kernel
  · decide +kernel

/-- names that differ in case alone, and a name that looks like the number of the other argument -/
theorem locals_clash :
    ((compile (some (twinRoot "A" "a"))).warnings = []
      ∧ ¬ (locals (compile (some (twinRoot "A" "a"))).stub).Nodup)
    ∧ (compile (some (twinRoot "item 1" "+"))).warnings = []
      ∧ ¬ (locals (compile (some (twinRoot "item 1" "+"))).stub).Nodup := by
  have hclash : ∀ first second, ¬ (entryWords (schemaOf (twinRoot first second)).toJson).Nodup →
      ¬ (locals (compile (some (twinRoot first second))).stub).Nodup :=
    fun first second => mt (nodup_locals_iff _).mp
  refine ⟨⟨?_, hclash _ _ ?_⟩, ?_, hclash _ _ ?_⟩
  · decide +kernel
  · decide +kernel
  · decide +kernel
  · decide +kernel

end Definition
end VisualProgram
