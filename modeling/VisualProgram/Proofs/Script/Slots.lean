import VisualProgram.Proofs.Decimal.Reading
import VisualProgram.Proofs.Lists
import VisualProgram.Proofs.Script.Trace

/-!
# Numbered sockets

Branches and joined texts have numbered sockets, as many as the highest number connected or a field asks for,
but no more than a few beyond those connected.  `SlotKind` is what the two kinds of block differ in.

* `slotIndex?_slot`   a number in plain decimals is read as itself, if it fits a word;
* `countWords?`       the number of slots in words of 64 bits; a sum that must not overflow is checked;
* `Runs`              texts compiled one after the other, for increasing numbers;
* `Piece`             what is compiled as the slot of a number: the blocks in the sockets of that number.
-/

namespace VisualProgram

/-! ## names of numbered sockets -/

namespace Site

@[simp] theorem after?_append (head rest : List Char) : after? head (head ++ rest) = some rest := by
  induction head with
  | nil => rfl
  | cons c cs ih => rw [List.cons_append, after?, if_pos rfl, ih]

/-- a number in plain decimals is read as itself, if it fits a word -/
theorem slotIndex?_slot (stem : String) (n : Nat) :
    slotIndex? stem (slot stem n) = if n ≤ countLimit then some n else none := by
  have hlimit : n < 0x10000000000000000 ↔ n ≤ countLimit := Nat.lt_succ_iff
  rw [slotIndex?, slot, String.toList_append, after?_append, Option.bind_some, Nat.toString_eq_repr,
    Nat.toList_repr, Decimal.natural?_toDigits, if_congr hlimit rfl rfl]

theorem le_countLimit_of_slotIndex? {stem name : String} {n : Nat} (h : slotIndex? stem name = some n) :
    n ≤ countLimit := by
  obtain ⟨digits, -, hn⟩ := Option.bind_eq_some_iff.mp h
  have hlt := of_decide_eq_true (Option.filter_eq_some_iff.mp hn).2
  unfold countLimit
  omega

variable {α : Type}

theorem le_countLimit_of_mem {stem : String} {sockets : List (String × α)} {n : Nat}
    (h : n ∈ slotIndices stem sockets) : n ≤ countLimit := by
  obtain ⟨name, -, hname⟩ := List.mem_filterMap.mp h
  exact le_countLimit_of_slotIndex? hname

theorem mem_slotIndices {stem : String} {sockets : List (String × α)} {n : Nat} (hn : n ≤ countLimit)
    (h : (Assoc.get? (slot stem n) sockets).isSome) : n ∈ slotIndices stem sockets := by
  obtain ⟨child, hchild⟩ := Option.isSome_iff_exists.mp h
  refine List.mem_filterMap.mpr ⟨slot stem n, ?_, ?_⟩
  · exact List.mem_map.mpr ⟨_, Assoc.mem_of_get? hchild, rfl⟩
  · rw [slotIndex?_slot, if_pos hn]

/-- how many sockets have a name that is `stem` and a number -/
def matching (stem : String) (sockets : List (String × α)) : Nat :=
  sockets.countP fun e => (slotIndex? stem e.1).isSome

theorem length_slotIndices (stem : String) (sockets : List (String × α)) :
    (slotIndices stem sockets).length = matching stem sockets := by
  rw [slotIndices, List.length_filterMap_eq_countP, Assoc.keys, List.countP_map]
  rfl

end Site

/-! ## counting in words -/

theorem toNat_ofNat_of_le {n : Nat} (h : n ≤ Site.countLimit) : (UInt64.ofNat n).toNat = n :=
  UInt64.toNat_ofNat_of_lt (Nat.lt_succ_of_le h)

/-- the sum of two words, if it is a word -/
def addWords? (a b : UInt64) : Option UInt64 := if a + b < a then none else some (a + b)

/-- the sum of two words, or the greatest word -/
def addWords (a b : UInt64) : UInt64 := (addWords? a b).getD 0xffffffffffffffff

theorem addWords?_of_le {a b : UInt64} (h : a.toNat + b.toNat ≤ Site.countLimit) :
    addWords? a b = some (a + b) ∧ (a + b).toNat = a.toNat + b.toNat := by
  have hlt : a.toNat + b.toNat < 0x10000000000000000 := by
    unfold Site.countLimit at h
    omega
  have hsum : (a + b).toNat = a.toNat + b.toNat := by rw [UInt64.toNat_add, Nat.mod_eq_of_lt hlt]
  refine ⟨if_neg ?_, hsum⟩
  rw [UInt64.lt_iff_toNat_lt, hsum]
  omega

theorem toNat_addWords (a b : UInt64) : (addWords a b).toNat = min (a.toNat + b.toNat) Site.countLimit := by
  have ha := a.toNat_lt
  have hb := b.toNat_lt
  by_cases h : a.toNat + b.toNat ≤ Site.countLimit
  · obtain ⟨hsome, hsum⟩ := addWords?_of_le h
    rw [addWords, hsome, Option.getD_some, hsum, Nat.min_eq_left h]
  · have hwrapped : a + b < a := by
      rw [UInt64.lt_iff_toNat_lt, UInt64.toNat_add]
      unfold Site.countLimit at h
      omega
    rw [addWords, addWords?, if_pos hwrapped, Nat.min_eq_right (by omega)]
    rfl

theorem max?_map_toNat (words : List UInt64) :
    (words.map UInt64.toNat).max? = words.max?.map UInt64.toNat := by
  have hfold : ∀ (rest : List UInt64) (a : UInt64),
      (rest.map UInt64.toNat).foldl max a.toNat = (rest.foldl max a).toNat := by
    intro rest
    induction rest with
    | nil => exact fun _ => rfl
    | cons b rest ih =>
      intro a
      rw [List.map_cons, List.foldl_cons, List.foldl_cons, ← UInt64.toNat_max, ih]
  cases words with
  | nil => rfl
  | cons a rest => exact congrArg some (hfold rest a)

/-! ## the two kinds of block -/

/-- a kind of block with numbered sockets -/
inductive SlotKind where
  /-- the sockets `IF0`, `DO0`, `IF1`, `DO1`, … -/
  | branches
  /-- the sockets `ADD0`, `ADD1`, … -/
  | parts

namespace SlotKind

def rule : SlotKind → Rule
  | branches => .statement .branches
  | parts => .value .join

/-- the field that declares how many slots there are -/
def field : SlotKind → String
  | branches => "ELSEIF"
  | parts => "ITEMS"

/-- something is connected in the slot of a number, written in plain decimals -/
def Connected (b : Block) (n : Nat) : SlotKind → Prop
  | branches => (b.input? ("IF" ++ toString n)).isSome ∨ (b.statement? ("DO" ++ toString n)).isSome
  | parts => (b.input? ("ADD" ++ toString n)).isSome

/-- how many sockets are named as those of the kind -/
def matching (b : Block) : SlotKind → Nat
  | branches => Site.matching "IF" b.inputs + Site.matching "DO" b.statements
  | parts => Site.matching "ADD" b.inputs

/-- the numbers of the slots connected -/
def indices (b : Block) : SlotKind → List Nat
  | branches => (Site.slotIndices "IF" b.inputs ++ Site.slotIndices "DO" b.statements).eraseDups
  | parts => Site.slotIndices "ADD" b.inputs

/-- the number of slots that are asked for -/
def wanted (t : Toolchain) (b : Block) : SlotKind → Nat
  | branches => (b.site t).wantedBranches
  | parts => (b.site t).wantedParts

/-- the text of a block, and the session it leads to -/
def compile (t : Toolchain) (b : Block) (s : Session) : SlotKind → String × Session
  | branches => (t.statementOf (b.site t)).run s
  | parts => (((t.valueOf (b.site t)).run s).1.text, ((t.valueOf (b.site t)).run s).2)

def effects (t : Toolchain) (b : Block) : SlotKind → List Effect
  | branches => (b.site t).branchesEffects
  | parts => (b.site t).joinEffects

/-- what is reported when fewer slots are compiled than asked for -/
def slotReport (b : Block) (wanted limit : Nat) (k : SlotKind) : Diagnostic :=
  ⟨b.id, .invalidField,
    k.field ++ " asks for " ++ toString wanted ++ " slots, compiling " ++ toString limit⟩

variable {t : Toolchain} {b : Block}

theorem length_indices_le (k : SlotKind) : (k.indices b).length ≤ k.matching b := by
  cases k with
  | branches =>
    refine (length_eraseDups_le _).trans ?_
    rw [List.length_append, Site.length_slotIndices, Site.length_slotIndices, matching]
  | parts => rw [indices, Site.length_slotIndices, matching]

theorem le_countLimit_of_mem {k : SlotKind} {n : Nat} (h : n ∈ k.indices b) : n ≤ Site.countLimit := by
  cases k with
  | branches =>
    rcases List.mem_append.mp (List.mem_eraseDups.mp h) with h | h
    · exact Site.le_countLimit_of_mem h
    · exact Site.le_countLimit_of_mem h
  | parts => exact Site.le_countLimit_of_mem h

theorem mem_indices {k : SlotKind} {n : Nat} (hn : n ≤ Site.countLimit) (h : k.Connected b n) :
    n ∈ k.indices b := by
  cases k with
  | branches =>
    refine List.mem_eraseDups.mpr (List.mem_append.mpr ?_)
    exact h.imp (Site.mem_slotIndices hn) (Site.mem_slotIndices hn)
  | parts => exact Site.mem_slotIndices hn h

theorem branchIndices_site (t : Toolchain) (b : Block) : (b.site t).branchIndices = indices b branches := by
  show (Site.slotIndices "IF" (Block.compileSockets t b.inputs)
    ++ Site.slotIndices "DO" (Block.compileSockets t b.statements)).eraseDups = _
  rw [Block.compileSockets_eq_map, Block.compileSockets_eq_map, Sites.slotIndices_map, Sites.slotIndices_map]
  rfl

theorem partIndices_site (t : Toolchain) (b : Block) :
    Site.slotIndices "ADD" (b.site t).inputs = indices b parts := by
  show Site.slotIndices "ADD" (Block.compileSockets t b.inputs) = _
  rw [Block.compileSockets_eq_map, Sites.slotIndices_map]
  rfl

/-- every number connected is below the number of slots asked for, the greatest word apart -/
theorem min_succ_le_wanted {k : SlotKind} {n : Nat} (h : n ∈ k.indices b) :
    min (n + 1) Site.countLimit ≤ k.wanted t b := by
  cases k with
  | branches =>
    rw [wanted, Site.wantedBranches, branchIndices_site]
    have hle := List.le_max?_getD_of_mem (k := 0) h
    omega
  | parts =>
    rw [wanted, Site.wantedParts, partIndices_site, Site.pastGreatest]
    cases hmax : (indices b parts).max? with
    | none => exact absurd (List.max?_eq_none_iff.mp hmax) (List.ne_nil_of_mem h)
    | some greatest =>
      have hle := (List.max?_eq_some_iff.mp hmax).2 n h
      show _ ≤ max _ (min (greatest + 1) Site.countLimit)
      omega

/-! ## the number of slots in words -/

/-- the declared number of slots -/
def declaredWord (b : Block) (k : SlotKind) : UInt64 :=
  match Field.float? k.field b.fields with
  | some x => if 0 < x then x.toUInt64 else 0
  | none => 0

/-- the number of slots compiled, from the number declared and those connected; nothing if a sum overflows -/
def countWords? (declared : UInt64) (indices : List UInt64) (k : SlotKind) : Option UInt64 :=
  let wanted := match k with
    | branches => addWords (max (indices.max?.getD 0) declared) 1
    | parts => max declared (indices.max?.elim 0 (addWords · 1))
  (addWords? (.ofNat indices.length) 8).map (min wanted)

theorem toNat_declaredWord (t : Toolchain) (b : Block) (k : SlotKind) :
    (declaredWord b k).toNat = (b.site t).declaredCount k.field := by
  unfold declaredWord Site.declaredCount
  show _ = (match Field.float? k.field b.fields with
    | some x => if 0 < x then x.toUInt64.toNat else 0
    | none => 0)
  split
  next x _ => split <;> rfl
  next => rfl

/-- the connected numbers are words -/
theorem map_toNat_indices (k : SlotKind) :
    ((k.indices b).map UInt64.ofNat).map UInt64.toNat = k.indices b := by
  rw [List.map_map]
  refine (List.map_congr_left fun n hn => ?_).trans (List.map_id _)
  exact toNat_ofNat_of_le (le_countLimit_of_mem hn)

/-- the number of slots in words is that of the slots compiled -/
theorem countWords?_eq (t : Toolchain) (k : SlotKind) (h : (k.indices b).length + 8 ≤ Site.countLimit) :
    ∃ count, countWords? (declaredWord b k) ((k.indices b).map UInt64.ofNat) k = some count
      ∧ count.toNat = Site.clamped (k.wanted t b) (k.indices b).length := by
  have hlength : (UInt64.ofNat (k.indices b).length).toNat = (k.indices b).length :=
    toNat_ofNat_of_le (by omega)
  obtain ⟨hlimit, hsum⟩ := addWords?_of_le (a := .ofNat (k.indices b).length) (b := 8) (by rw [hlength]; exact h)
  unfold countWords?
  rw [List.length_map, hlimit]
  refine ⟨_, rfl, ?_⟩
  rw [UInt64.toNat_min, hsum, hlength]
  congr 1
  have hmax := max?_map_toNat ((k.indices b).map UInt64.ofNat)
  rw [map_toNat_indices] at hmax
  cases k with
  | branches =>
    rw [wanted, Site.wantedBranches, branchIndices_site, hmax]
    show (addWords _ 1).toNat = _
    rw [toNat_addWords, UInt64.toNat_max, toNat_declaredWord t]
    cases ((indices b branches).map UInt64.ofNat).max? <;> rfl
  | parts =>
    rw [wanted, Site.wantedParts, partIndices_site, Site.pastGreatest, hmax]
    show (max (declaredWord b parts) _).toNat = _
    rw [UInt64.toNat_max, toNat_declaredWord t]
    cases ((indices b parts).map UInt64.ofNat).max? with
    | none => rfl
    | some greatest => exact congrArg (max _) (toNat_addWords greatest 1)

end SlotKind

/-! ## texts in the order of their numbers -/

/-- texts compiled one after the other, for the numbers from `n` on -/
inductive Runs (step : Nat → Session → String → Session → Prop) :
    Nat → Session → List String → Session → Prop where
  | nil (n : Nat) (s : Session) : Runs step n s [] s
  | cons {n : Nat} {s s' s'' : Session} {text : String} {rest : List String} (head : step n s text s')
      (tail : Runs step (n + 1) s' rest s'') : Runs step n s (text :: rest) s''

/-- the text at each place is that of its number -/
theorem Runs.getElem? {step : Nat → Session → String → Session → Prop} {n : Nat} {s s' : Session}
    {texts : List String} (h : Runs step n s texts s') {i : Nat} (hi : i < texts.length) :
    ∃ text before after, texts[i]? = some text ∧ step (n + i) before text after := by
  induction h generalizing i with
  | nil => exact absurd hi (Nat.not_lt_zero i)
  | cons head tail ih =>
    cases i with
    | zero => exact ⟨_, _, _, rfl, head⟩
    | succ i =>
      obtain ⟨text, before, after, htext, hstep⟩ := ih (Nat.lt_of_succ_lt_succ hi)
      rw [Nat.add_right_comm] at hstep
      exact ⟨text, before, after, htext, hstep⟩

section
variable (t : Toolchain) (b : Block)

/-- the part of a number: nothing, text as it is, all else by a call -/
inductive PartOf (n : Nat) : Session → String → Session → Prop where
  | empty (s : Session) (hget : b.input? ("ADD" ++ toString n) = none) : PartOf n s "\"\"" s
  | text {s s' : Session} {child : Block} {e : Expr} (hget : b.input? ("ADD" ++ toString n) = some child)
      (htag : child.tag = "text") (hrun : (child.compileValue t .sum).run s = (e, s')) : PartOf n s e.text s'
  | other {s s' : Session} {child : Block} {e : Expr} (hget : b.input? ("ADD" ++ toString n) = some child)
      (htag : child.tag ≠ "text") (hrun : (child.compileValue t .loosest).run s = (e, s')) :
      PartOf n s ("str(" ++ e.text ++ ")") s'

inductive ConditionOf (n : Nat) : Session → String → Session → Prop where
  | empty (s : Session) (hget : b.input? ("IF" ++ toString n) = none) : ConditionOf n s "False" s
  | value {s s' : Session} {child : Block} {e : Expr} (hget : b.input? ("IF" ++ toString n) = some child)
      (hrun : (child.compileValue t .loosest).run s = (e, s')) : ConditionOf n s e.text s'

inductive SuiteOf (n : Nat) : Session → String → Session → Prop where
  | empty (s : Session) (hget : b.statement? ("DO" ++ toString n) = none) :
      SuiteOf n s (Site.asBody t.options.indent "") s
  | chain {s s' : Session} {head : Block} {code : String}
      (hget : b.statement? ("DO" ++ toString n) = some head)
      (hrun : (Block.compileChain t (some head)).run s = (code, s')) :
      SuiteOf n s (Site.asBody t.options.indent code) s'

/-- the branch of a number: its condition, then its suite -/
inductive BranchOf (n : Nat) : Session → String → Session → Prop where
  | mk {s s' s'' : Session} {condition suite : String} (hcondition : ConditionOf t b n s condition s')
      (hsuite : SuiteOf t b n s' suite s'') :
      BranchOf n s ((if n = 0 then "if " else "elif ") ++ condition ++ ":\n" ++ suite) s''

end

namespace SlotKind

/-- what is compiled as the slot of a number -/
def Piece (t : Toolchain) (b : Block) : SlotKind → Nat → Session → String → Session → Prop
  | branches => BranchOf t b
  | parts => PartOf t b

/-- the text of a block from the texts of its slots, compiled up to a session -/
def assembled (t : Toolchain) (b : Block) (pieces : List String) (s : Session) : SlotKind → String × Session
  | branches =>
    let rest := ((b.site t).otherwise t.options.indent).run s
    (String.join pieces ++ rest.1, rest.2)
  | parts => (if pieces = [] then "\"\"" else String.intercalate " + " pieces, s)

end SlotKind

section
variable (t : Toolchain) (b : Block)

theorem tag_compile : (b.compile t).tag = b.tag := by rw [Block.compile_eq]

theorem partOf_joinPart (n : Nat) (s : Session) :
    PartOf t b n s (((b.site t).joinPart n).run s).1.text (((b.site t).joinPart n).run s).2 := by
  have hget := b.get?_inputs_site t (Site.slot "ADD" n)
  unfold Site.joinPart
  rw [hget]
  cases hinput : b.input? (Site.slot "ADD" n) with
  | none => exact .empty s hinput
  | some child =>
    rw [Option.map_some]
    by_cases htag : child.tag = "text"
    · simp only [tag_compile, if_pos htag]
      exact .text hinput htag rfl
    · simp only [tag_compile, if_neg htag]
      exact .other hinput htag rfl

theorem runs_joinParts (n count : Nat) (s : Session) :
    let compiled := ((b.site t).joinParts (List.range' n count)).run s
    Runs (PartOf t b) n s (compiled.1.map Expr.text) compiled.2 ∧ compiled.1.length = count := by
  induction count generalizing n s with
  | zero => exact ⟨.nil n s, rfl⟩
  | succ count ih =>
    rw [List.range'_succ]
    obtain ⟨hruns, hlength⟩ := ih (n + 1) (((b.site t).joinPart n).run s).2
    exact ⟨.cons (partOf_joinPart t b n s) hruns, congrArg (· + 1) hlength⟩

theorem conditionOf_operand (n : Nat) (s : Session) :
    let compiled := ((b.site t).operand t.options.indent (Site.slot "IF" n) .loosest Site.never).run s
    ConditionOf t b n s compiled.1 compiled.2 := by
  have hget := b.get?_inputs_site t (Site.slot "IF" n)
  unfold Site.operand
  rw [hget]
  cases hinput : b.input? (Site.slot "IF" n) with
  | none => exact .empty s hinput
  | some child => exact .value hinput rfl

theorem run_body (unit socket : String) (s : Session) :
    ((b.site t).body unit socket).run s = (b.statement? socket).elim (Site.asBody unit "", s) fun head =>
      (Site.asBody unit ((Block.compileChain t (some head)).run s).1,
        ((Block.compileChain t (some head)).run s).2) := by
  have hget := b.get?_statements_site t socket
  unfold Site.body
  rw [hget]
  cases b.statement? socket <;> rfl

theorem suiteOf_body (n : Nat) (s : Session) :
    SuiteOf t b n s (((b.site t).body t.options.indent (Site.slot "DO" n)).run s).1
      (((b.site t).body t.options.indent (Site.slot "DO" n)).run s).2 := by
  rw [run_body]
  cases hstatement : b.statement? (Site.slot "DO" n) with
  | none => exact SuiteOf.empty s hstatement
  | some head =>
    dsimp only [Option.elim_some]
    exact .chain hstatement rfl

theorem branchOf_branch (n : Nat) (s : Session) :
    let compiled := ((b.site t).branch t.options.indent n).run s
    BranchOf t b n s compiled.1 compiled.2 := by
  have hbranch := BranchOf.mk (conditionOf_operand t b n s) (suiteOf_body t b n _)
  have hkeyword : (if n = 0 then "if" else "elif") ++ " " = if n = 0 then "if " else "elif " := by
    split <;> rfl
  rw [← hkeyword] at hbranch
  exact hbranch

theorem runs_branchList (n count : Nat) (s : Session) :
    let compiled := ((b.site t).branchList t.options.indent (List.range' n count)).run s
    ∃ codes, Runs (BranchOf t b) n s codes compiled.2 ∧ codes.length = count
      ∧ compiled.1 = String.join codes := by
  induction count generalizing n s with
  | zero => exact ⟨[], .nil n s, rfl, rfl⟩
  | succ count ih =>
    rw [List.range'_succ]
    obtain ⟨codes, hruns, hlength, htext⟩ := ih (n + 1) (((b.site t).branch t.options.indent n).run s).2
    refine ⟨_ :: codes, .cons (branchOf_branch t b n s) hruns, congrArg (· + 1) hlength, ?_⟩
    rw [String.join_cons, ← htext]
    rfl

end

namespace SlotKind

section
variable {t : Toolchain} {b : Block}

/-- the session in which the first slot is compiled -/
theorem perform_clampEffects (k : SlotKind) (s : Session) (wanted connected : Nat) :
    (b.site t).perform s (Site.clampEffects k.field wanted connected)
      = if wanted ≤ connected + 8 then s else s.report (k.slotReport b wanted (connected + 8)) := by
  unfold Site.clampEffects Site.spareSlots
  split <;> rfl

theorem text_sumOf (parts : List Expr) :
    (Site.sumOf parts).text
      = if parts.map Expr.text = [] then "\"\"" else String.intercalate " + " (parts.map Expr.text) := by
  cases parts with
  | nil => rfl
  | cons part rest =>
    rw [if_neg (by simp)]
    cases rest with
    | nil => exact String.intercalate_singleton.symm
    | cons _ _ => rfl

/-- a block is compiled slot by slot, in the order of the numbers -/
theorem runs_compile {k : SlotKind} (hrule : t.rule? b.tag = some k.rule) (s : Session) :
    ∃ pieces s', Runs (k.Piece t b) 0
        ((b.site t).perform s (Site.clampEffects k.field (k.wanted t b) (k.indices b).length)) pieces s'
      ∧ pieces.length = Site.clamped (k.wanted t b) (k.indices b).length
      ∧ k.compile t b s = k.assembled t b pieces s' := by
  obtain ⟨hsession, hcount⟩ := (b.site t).clampSlots_acts k.field (k.wanted t b) (k.indices b).length s
  rw [← hsession, ← hcount]
  cases k with
  | branches =>
    obtain ⟨codes, hruns, hlength, htext⟩ := runs_branchList t b 0 _ _
    refine ⟨codes, _, hruns, hlength, ?_⟩
    rw [compile, Toolchain.statementOf, show t.rule? (b.site t).tag = _ from hrule]
    rw [assembled, ← htext, ← List.range_eq_range', ← branchIndices_site t b]
    rfl
  | parts =>
    obtain ⟨hruns, hlength⟩ := runs_joinParts t b 0 _ _
    refine ⟨_, _, hruns, (List.length_map _).trans hlength, ?_⟩
    rw [compile, Toolchain.valueOf, show t.rule? (b.site t).tag = _ from hrule]
    rw [assembled, ← text_sumOf, ← List.range_eq_range', ← partIndices_site t b]
    rfl

theorem session_compile {k : SlotKind} (hrule : t.rule? b.tag = some k.rule) (s : Session) :
    (k.compile t b s).2 = s.follow (b.steps t (k.effects t b)) := by
  rw [← Block.perform_eq_follow (Block.followsSockets t b.inputs) (Block.followsSockets t b.statements)]
  cases k with
  | branches =>
    have heffects : t.statementEffects (b.site t) = effects t b branches := by
      rw [Toolchain.statementEffects, show t.rule? (b.site t).tag = _ from hrule]
      rfl
    exact heffects ▸ (Site.statementOf_acts t (b.site t) s).1
  | parts =>
    have heffects : t.valueEffects (b.site t) = effects t b parts := by
      rw [Toolchain.valueEffects, show t.rule? (b.site t).tag = _ from hrule]
      rfl
    exact heffects ▸ (Site.valueOf_acts t (b.site t) s).1

/-- slots that are left out are reported -/
theorem slotReport_mem {k : SlotKind} (h : (k.indices b).length + 8 < k.wanted t b) :
    k.slotReport b (k.wanted t b) ((k.indices b).length + 8)
      ∈ (b.steps t (k.effects t b)).filterMap Action.diagnostic? := by
  have hclamp : Site.clampEffects k.field (k.wanted t b) (k.indices b).length ⊆ k.effects t b := by
    cases k with
    | branches =>
      rw [← branchIndices_site t b]
      exact List.subset_append_left _ _
    | parts =>
      rw [← partIndices_site t b]
      exact List.subset_append_left _ _
  rw [Site.clampEffects, Site.spareSlots, if_neg (Nat.not_le.mpr h)] at hclamp
  refine List.mem_filterMap.mpr ⟨.report _, ?_, rfl⟩
  exact List.mem_flatMap.mpr ⟨_, hclamp (List.mem_singleton_self _), List.mem_singleton_self _⟩

end

/-- a memory with addresses of 64 bits holds no more sockets -/
def Addressable (b : Block) : Prop := b.inputs.length + b.statements.length ≤ 0x7fffffffffffffff

theorem length_indices_of_addressable {b : Block} (h : Addressable b) (k : SlotKind) :
    (k.indices b).length ≤ 0x7fffffffffffffff := by
  refine (length_indices_le k).trans (le_trans ?_ h)
  cases k with
  | branches => exact Nat.add_le_add List.countP_le_length List.countP_le_length
  | parts => exact List.countP_le_length.trans (Nat.le_add_right _ _)

/-- what is compiled of numbered sockets: the slots in the order of their numbers, at most eight more than there
are sockets; a number that fits a word is left out only if this is reported -/
theorem connected_slots_compiled (t : Toolchain) (k : SlotKind) (b : Block) (s : Session)
    (hrule : t.rule? b.tag = some k.rule) :
    ∃ (pieces : List String) (s₀ s₁ : Session) (new : List Diagnostic),
      (s₀ = s ∨ ∃ wanted limit, s₀ = s.report (k.slotReport b wanted limit))
      ∧ Runs (k.Piece t b) 0 s₀ pieces s₁
      ∧ k.compile t b s = k.assembled t b pieces s₁
      ∧ pieces.length ≤ k.matching b + 8
      ∧ (k.compile t b s).2.diagnostics = s.diagnostics ++ new
      ∧ (Addressable b →
        (∃ count, countWords? (declaredWord b k) ((k.indices b).map UInt64.ofNat) k = some count
          ∧ count.toNat = pieces.length)
        ∧ ((∀ wanted limit, k.slotReport b wanted limit ∉ new) →
          ∀ n ≤ 0xffffffffffffffff, k.Connected b n →
            ∃ piece before after, pieces[n]? = some piece ∧ k.Piece t b n before piece after)) := by
  obtain ⟨pieces, s₁, hruns, hlength, htext⟩ := runs_compile hrule s
  refine ⟨pieces, _, s₁, (b.steps t (k.effects t b)).filterMap Action.diagnostic?, ?_, hruns, htext, ?_, ?_, ?_⟩
  · rw [perform_clampEffects]
    split
    · exact .inl rfl
    · exact .inr ⟨_, _, rfl⟩
  · rw [hlength]
    exact (Nat.min_le_right _ _).trans (Nat.add_le_add_right (length_indices_le k) 8)
  · rw [session_compile hrule, Session.diagnostics_follow]
  · intro haddressable
    have hle := length_indices_of_addressable haddressable k
    refine ⟨?_, fun hsilent n hn hconnected => ?_⟩
    · rw [hlength]
      exact countWords?_eq t k (by unfold Site.countLimit; omega)
    · have hall : k.wanted t b ≤ (k.indices b).length + 8 :=
        Nat.le_of_not_lt fun hmore => hsilent _ _ (slotReport_mem hmore)
      have hwanted := min_succ_le_wanted (t := t) (mem_indices hn hconnected)
      have hlt : n < pieces.length := by
        rw [hlength, Site.clamped, Site.spareSlots, Nat.min_eq_left hall]
        unfold Site.countLimit at hwanted
        omega
      simpa using hruns.getElem? hlt

/-- conditions and suites up to the branch 10 -/
def sampleBranches : Block :=
  ⟨"i", "controls_if", [],
    [("IF10", .leaf "a" "logic_boolean"), ("IF9", .leaf "b" "logic_null")], [("DO0", .leaf "c" "controls_if")],
    none⟩

theorem connected_slots_compiled_sampleBranches :
    (Toolchain.standard.rule? sampleBranches.tag = some branches.rule ∧ Addressable sampleBranches
      ∧ branches.Connected sampleBranches 10 ∧ (branches.compile .standard sampleBranches .initial).2.diagnostics = [])
    ∧ ∃ pieces s₀ s₁, Runs (branches.Piece .standard sampleBranches) 0 s₀ pieces s₁
      ∧ branches.compile .standard sampleBranches .initial = branches.assembled .standard sampleBranches pieces s₁
      ∧ pieces.length = 11 := by
  have hrule : Toolchain.standard.rule? sampleBranches.tag = some branches.rule := by decide +kernel
  have haddressable : Addressable sampleBranches := by unfold Addressable; decide
  have hconnected : branches.Connected sampleBranches 10 := .inl (by decide +kernel)
  have hsilent : (branches.compile .standard sampleBranches .initial).2.diagnostics = [] := by decide +kernel
  refine ⟨⟨hrule, haddressable, hconnected, hsilent⟩, ?_⟩
  obtain ⟨pieces, s₀, s₁, new, -, hruns, htext, hle, hnew, hrest⟩ :=
    connected_slots_compiled .standard branches sampleBranches .initial hrule
  refine ⟨pieces, s₀, s₁, hruns, htext, ?_⟩
  have hempty : new = [] := (List.append_eq_nil_iff.mp (hnew.symm.trans hsilent)).2
  obtain ⟨_, _, _, hpiece, -⟩ := (hrest haddressable).2 (by simp [hempty]) 10 (by decide) hconnected
  have hlt := (List.getElem?_eq_some_iff.mp hpiece).1
  have hmatching : branches.matching sampleBranches = 3 := by decide +kernel
  omega

/-- a text in a slot whose number is no word -/
def overlongJoin : Block :=
  ⟨"j", "text_join", [], [("ADD18446744073709551616", .leaf "a" "math_number")], [], none⟩

/-- a number that is no word is left out, and nothing is reported -/
theorem connected_slot_dropped :
    Toolchain.standard.rule? overlongJoin.tag = some parts.rule ∧ Addressable overlongJoin
      ∧ parts.Connected overlongJoin 18446744073709551616
      ∧ parts.compile .standard overlongJoin .initial = ("\"\"", .initial) := by
  refine ⟨by decide +kernel, by unfold Addressable; decide, ?_, by decide +kernel⟩
  show (overlongJoin.input? ("ADD" ++ toString 18446744073709551616)).isSome
  decide +kernel

end SlotKind

end VisualProgram
