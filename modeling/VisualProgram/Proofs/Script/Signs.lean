import VisualProgram.Proofs.Script.Faithful
import VisualProgram.Proofs.Script.Slots

/-!
# Signs

An expression that starts with a minus gets parentheses as the base of a power only if its level says that it has
a sign.  `ValueRule.isFrank` is a check on a rule under which no expression hides one, whatever is in the sockets
and in the fields (`run_frank`), and all standard rules pass it but three:

* `text`             writes the field as a literal, at the level of an atom: a number below zero too;
* `text_join`        takes a single part as it is;
* `math_arithmetic`  writes a power after its base.

`Block.HidesSign` says which blocks of these three tags hide a sign, and where; no other block does.
-/

namespace VisualProgram
open Python

/-! ## first characters -/

/-- a text that starts with a character other than a minus -/
def Text.startsPlain (text : String) : Bool := text.toList.head?.any (· ≠ '-')

namespace Text
variable {text : String}

theorem startsPlain_append (h : startsPlain text = true) (more : String) : startsPlain (text ++ more) = true := by
  unfold startsPlain at h ⊢
  rw [String.toList_append, List.head?_append]
  cases hc : text.toList.head? with
  | none =>
    rw [hc] at h
    cases h
  | some c =>
    rw [hc] at h
    exact h

theorem head_ne_minus (h : startsPlain text = true) : text.toList.head? ≠ some '-' := by
  intro hminus
  rw [startsPlain, hminus] at h
  cases h

theorem head_append_of_plain (first : String) (h : startsPlain text = true) (more : String) :
    (first ++ text ++ more).toList.head? = some '-' ↔ first.toList.head? = some '-' := by
  rw [String.append_assoc, String.toList_append, List.head?_append]
  cases first.toList.head? with
  | none =>
    rw [Option.none_or]
    exact iff_of_false (head_ne_minus (startsPlain_append h more)) (Option.some_ne_none _).symm
  | some c => rfl

theorem startsPlain_of_class {p : Char → Bool} (hp : p '-' = false) {c : Char} {cs : List Char} (hc : p c = true)
    (htext : text.toList = c :: cs) : startsPlain text = true := by
  have hne : c ≠ '-' := by
    rintro rfl
    rw [hp] at hc
    cases hc
  rw [startsPlain, htext]
  exact decide_eq_true hne

theorem startsPlain_of_isName (h : IsName text) : startsPlain text = true := by
  obtain ⟨c, cs, hcs⟩ := List.exists_cons_of_ne_nil h.ne_nil
  have hword := h.1
  rw [hcs] at hword
  have hstart : isWordStart c = true := (Bool.and_eq_true_iff.mp hword).1
  exact startsPlain_of_class (by decide) hstart hcs

end Text

/-! ## literals -/

/-- whether the literal of a number has a sign; a float may have one and be zero -/
def Number.isSigned : Number → Bool
  | .whole n _ => n < 0
  | .float x _ => Decimal.signBit x.toBits

def Json.isSigned : Json → Bool
  | .number n => n.isSigned
  | _ => false

namespace Literal
open Text

theorem head_number (n : Number) : (number n).toList.head? = some '-' ↔ n.isSigned = true := by
  cases n with
  | whole n fits =>
    show (toString n).toList.head? = _ ↔ decide (n < 0) = true
    rw [decide_eq_true_iff]
    by_cases hn : n < 0
    · rw [toList_int, if_pos hn]
      exact iff_of_true rfl hn
    · refine iff_of_false (head_ne_minus ?_) hn
      obtain ⟨c, cs, hcs⟩ := List.exists_cons_of_ne_nil (Nat.toDigits_ne_nil (n := n.natAbs) (b := 10))
      have hdigit := Decimal.allDigits_toDigits n.natAbs c (hcs ▸ List.mem_cons_self)
      exact startsPlain_of_class (by decide) hdigit ((toList_int n).trans ((if_neg hn).trans hcs))
  | float x finite =>
    obtain ⟨s, hs, htext⟩ := Decimal.float_spelling finite
    show (float x).toList.head? = _ ↔ Decimal.signBit x.toBits = true
    by_cases hsign : Decimal.signBit x.toBits = true
    · rw [htext, if_pos hsign]
      exact iff_of_true rfl hsign
    · refine iff_of_false (head_ne_minus ?_) hsign
      obtain ⟨c, tail, rfl, hc⟩ := hs.head
      exact startsPlain_of_class (by decide) hc (htext.trans (if_neg hsign))

theorem startsPlain_enclose {opening : String} (h : startsPlain opening = true) (unit : String) (level : Nat)
    (closing : String) (elements : List String) :
    startsPlain (Json.enclose unit level opening closing elements) = true := by
  unfold Json.enclose
  split
  next => exact startsPlain_append h _
  next =>
    simp only [String.append_assoc]
    exact startsPlain_append h _

/-- of all values only numbers have a sign -/
theorem head_render (unit : String) (level : Nat) (v : Json) :
    (render unit level v).toList.head? = some '-' ↔ v.isSigned = true := by
  cases v with
  | number n => exact head_number n
  | null =>
    have hplain : startsPlain absent = true := by decide
    exact iff_of_false (head_ne_minus hplain) Bool.false_ne_true
  | bool b =>
    have hplain : ∀ b, startsPlain (truth b) = true := by decide
    exact iff_of_false (head_ne_minus (hplain b)) Bool.false_ne_true
  | string s =>
    refine iff_of_false (fun hminus => ?_) Bool.false_ne_true
    rw [show render unit level (.string s) = quote s from rfl, quote, String.toList_ofList] at hminus
    cases hminus
  | array items =>
    exact iff_of_false (head_ne_minus (startsPlain_enclose (by decide) _ _ _ _)) Bool.false_ne_true
  | object members =>
    exact iff_of_false (head_ne_minus (startsPlain_enclose (by decide) _ _ _ _)) Bool.false_ne_true

end Literal

/-! ## expressions -/

/-- a level at which an expression may start with a minus -/
def Precedence.admitsSign (p : Precedence) : Bool := Precedence.sign.rank ≤ p.rank

namespace Expr
variable {e : Expr}

/-- the level of an expression that starts with a minus and does not say so -/
def hiddenSign? (e : Expr) : Option Precedence :=
  if e.text.toList.head? = some '-' ∧ e.level.admitsSign = false then some e.level else none

theorem hiddenSign?_eq_some_iff (p : Precedence) :
    e.hiddenSign? = some p ↔ e.text.toList.head? = some '-' ∧ e.level.admitsSign = false ∧ e.level = p := by
  rw [hiddenSign?, Option.ite_none_right_eq_some, Option.some_inj, and_assoc]

theorem isSome_hiddenSign? (h : e.level.admitsSign = false) :
    e.hiddenSign?.isSome = true ↔ e.text.toList.head? = some '-' := by
  rw [hiddenSign?, Option.isSome_ite, and_iff_left h]

theorem hiddenSign?_of_plain (h : Text.startsPlain e.text = true) : e.hiddenSign? = none :=
  if_neg fun hides => Text.head_ne_minus h hides.1

theorem hiddenSign?_of_admits (h : e.level.admitsSign = true) : e.hiddenSign? = none :=
  if_neg fun hides => Bool.false_ne_true (hides.2.symm.trans h)

theorem hiddenSign?_absent : Expr.absent.hiddenSign? = none := by decide

theorem rank_place (e : Expr) (required : Precedence) : (e.place required).level.rank ≤ required.rank := by
  unfold place
  split
  next => exact Nat.zero_le _
  next hfits => exact Nat.not_lt.mp fun hlt => hfits (decide_eq_true hlt)

/-- in parentheses nothing is hidden -/
theorem hiddenSign?_place (e : Expr) (required : Precedence) :
    (e.place required).hiddenSign? = e.hiddenSign?.filter (·.rank ≤ required.rank) := by
  have hlevel : ∀ p, e.hiddenSign? = some p → p = e.level :=
    fun p hp => ((hiddenSign?_eq_some_iff p).mp hp).2.2.symm
  by_cases hparens : e.level.needsParens required = true
  · have hplain : Text.startsPlain ("(" ++ e.text ++ ")") = true :=
      Text.startsPlain_append (Text.startsPlain_append (by decide) _) _
    have hnone : (atom ("(" ++ e.text ++ ")")).hiddenSign? = none := hiddenSign?_of_plain hplain
    have hloose : ¬ e.level.rank ≤ required.rank := Nat.not_le.mpr (of_decide_eq_true hparens)
    rw [place, if_pos hparens, hnone, eq_comm, Option.filter_eq_none_iff]
    intro p hp
    rw [hlevel p hp, decide_eq_true_iff]
    exact hloose
  · have hfits : e.level.rank ≤ required.rank := Nat.not_lt.mp fun hlt => hparens (decide_eq_true hlt)
    rw [place, if_neg hparens]
    cases hp : e.hiddenSign? with
    | none => rfl
    | some p => rw [Option.filter_some, hlevel p hp, if_pos (decide_eq_true hfits)]

end Expr

/-! ## the check -/

/-- a piece whose text starts with a character other than a minus -/
def Piece.isPlain : Piece → Bool
  | .text fixed => Text.startsPlain fixed
  | .variableName _ => true
  | _ => false

def Template.isFrank (form : Template) : Bool := form.level.admitsSign || form.pieces.head?.any Piece.isPlain

def FunctionForm.isFrank (form : FunctionForm) : Bool := form.level.admitsSign || Text.startsPlain form.opening

/-- a rule whose expressions hide no sign, by their level or by how they start -/
def ValueRule.isFrank : ValueRule → Bool
  | .operator table => table.operators.all fun entry => entry.2.level.admitsSign
  | .function table => table.forms.all fun entry => entry.2.isFrank
  | .number => true
  | .truth => true
  | .join => false
  | .template form => form.isFrank
  | .staged stages => stages.all Template.isFrank
  | .unknown => true

/-- a statement is no expression, so nothing stands for it -/
def Rule.isFrank : Rule → Bool
  | .value rule => rule.isFrank
  | .statement _ => true

theorem Rule.Standard.frank_of_mem : ∀ entry ∈ Rule.Standard.table,
    entry.1 ∉ ["math_arithmetic", "text", "text_join"] → entry.2.isFrank = true := by
  decide

/-! ## rules that pass the check -/

/-- whatever is in the sockets keeps the session valid -/
def Site.Keeps (site : Site) : Prop :=
  ∀ socket child, Assoc.get? socket site.inputs = some child →
    ∀ required, Yields (child.value required) fun _ _ => True

namespace Site
variable {site : Site} {unit : String}

theorem operand_keeps (h : site.Keeps) (socket : String) (required : Precedence) (fallback : Fallback) :
    Yields (site.operand unit socket required fallback) fun _ _ => True := by
  unfold Site.operand
  split
  next child hc => exact (h socket child hc required).bind fun _ => .pure fun _ _ => trivial
  next => exact .pure fun _ => trivial

theorem renderPiece_keeps (h : site.Keeps) (previous : Option Expr) (piece : Piece) :
    Yields (site.renderPiece unit previous piece) fun _ text =>
      piece.isPlain = true → Text.startsPlain text = true := by
  cases piece with
  | text text => exact .pure fun _ hplain => hplain
  | variableName field => exact (Yields.identify _).imp fun _ _ hname _ => Text.startsPlain_of_isName hname.1
  | operand socket level fallback =>
    exact (operand_keeps h _ _ _).imp fun _ _ _ hplain => absurd hplain Bool.false_ne_true
  | field name default => exact .pure fun _ hplain => absurd hplain Bool.false_ne_true
  | identifier name default => exact .pure fun _ hplain => absurd hplain Bool.false_ne_true
  | previous level => cases previous <;> exact .pure fun _ hplain => absurd hplain Bool.false_ne_true

theorem renderPieces_keeps (h : site.Keeps) (previous : Option Expr) (pieces : List Piece) :
    Yields (site.renderPieces unit previous pieces) fun _ text =>
      pieces.head?.any Piece.isPlain = true → Text.startsPlain text = true := by
  induction pieces with
  | nil => exact .pure fun _ hplain => absurd hplain Bool.false_ne_true
  | cons piece rest ih =>
    refine (renderPiece_keeps h previous piece).bind fun text => ih.bind fun more => ?_
    exact .pure fun _ _ htext hplain => Text.startsPlain_append (htext hplain) more

theorem render_frank (h : site.Keeps) (previous : Option Expr) {form : Template} (hform : form.isFrank = true) :
    Yields (site.render unit previous form) fun _ e => e.hiddenSign? = none := by
  refine (renderPieces_keeps h previous form.pieces).bind fun text => .pure fun _ htext => ?_
  rcases Bool.or_eq_true_iff.mp hform with hlevel | hplain
  · exact Expr.hiddenSign?_of_admits hlevel
  · exact Expr.hiddenSign?_of_plain (htext hplain)

theorem renderStages_frank (h : site.Keeps) {stages : List Template}
    (hstages : ∀ stage ∈ stages, stage.isFrank = true) (previous : Option Expr) :
    Yields (site.renderStages unit previous stages) fun _ e =>
      (previous.getD .absent).hiddenSign? = none → e.hiddenSign? = none := by
  induction stages generalizing previous with
  | nil => exact .pure fun _ hprevious => hprevious
  | cons stage rest ih =>
    obtain ⟨hstage, hrest⟩ := List.forall_mem_cons.mp hstages
    refine (render_frank h previous hstage).bind fun e => (ih hrest (some e)).imp ?_
    intro _ _ hrest he _
    exact hrest he

/-! ## selected operators and functions -/

theorem select_keeps (site : Site) {α : Type} (field noun : String) (table : List (String × α)) :
    Yields (site.select field noun table) fun _ entry => entry = site.selected field table := by
  unfold Site.select selected
  cases Field.text? field site.fields with
  | none => exact .pure fun _ => rfl
  | some name =>
    dsimp only
    cases Assoc.get? name table with
    | some entry => exact .pure fun _ => rfl
    | none => exact (report_yields site _ _).bind fun _ => .pure fun _ _ => rfl

/-- what is selected is the entry of the name in the field, or the first -/
theorem mem_of_selected {α : Type} {field : String} {table : List (String × α)} {entry : α}
    (h : site.selected field table = some entry) :
    ∃ name, (name, entry) ∈ table
      ∧ (Field.text? field site.fields = some name ∨ table.head? = some (name, entry)) := by
  have hfirst : table.head?.map Prod.snd = some entry →
      ∃ name, (name, entry) ∈ table ∧ table.head? = some (name, entry) := by
    intro hhead
    obtain ⟨⟨name, x⟩, hx, rfl⟩ := Option.map_eq_some_iff.mp hhead
    exact ⟨name, List.mem_of_mem_head? hx, hx⟩
  unfold selected at h
  split at h
  next =>
    obtain ⟨name, hmem, hhead⟩ := hfirst h
    exact ⟨name, hmem, .inr hhead⟩
  next name hname =>
    rcases Option.or_eq_some_iff.mp h with hget | ⟨-, hhead⟩
    · exact ⟨name, Assoc.mem_of_get? hget, .inl hname⟩
    · obtain ⟨first, hmem, hhead⟩ := hfirst hhead
      exact ⟨first, hmem, .inr hhead⟩

theorem operator_frank (h : site.Keeps) {table : OperatorTable}
    (hselected : ∀ op, site.selected table.field table.operators = some op → op.level.admitsSign = true) :
    Yields (site.operator unit table) fun _ e => e.hiddenSign? = none := by
  refine (select_keeps site table.field "operator" table.operators).bind fun entry => ?_
  cases entry with
  | none => exact .pure fun _ _ => Expr.hiddenSign?_absent
  | some op =>
    refine (operand_keeps h _ _ _).bind fun left => (operand_keeps h _ _ _).bind fun right => ?_
    exact .pure fun _ _ _ hop => Expr.hiddenSign?_of_admits (hselected op hop.symm)

theorem function_frank (h : site.Keeps) {table : FunctionTable}
    (htable : ∀ entry ∈ table.forms, entry.2.isFrank = true) :
    Yields (site.function unit table) fun _ e => e.hiddenSign? = none := by
  refine (select_keeps site table.field "function" table.forms).bind fun entry => ?_
  cases entry with
  | none => exact .pure fun _ _ => Expr.hiddenSign?_absent
  | some form =>
    refine (require_yields form.needs).bind fun _ => (operand_keeps h _ _ _).bind fun operand => ?_
    refine .pure fun _ _ _ hform => ?_
    obtain ⟨name, hmem, -⟩ := mem_of_selected hform.symm
    rcases Bool.or_eq_true_iff.mp (htable _ hmem) with hlevel | hplain
    · exact Expr.hiddenSign?_of_admits hlevel
    · exact Expr.hiddenSign?_of_plain (Text.startsPlain_append (Text.startsPlain_append hplain _) _)

/-! ## all rules that pass -/

theorem hiddenSign?_signed (text : String) : (signed text).hiddenSign? = none := by
  by_cases hminus : text.toList.head? = some '-'
  · refine Expr.hiddenSign?_of_admits ?_
    rw [signed, if_pos hminus]
    rfl
  · exact if_neg fun hides => hminus hides.1

theorem hiddenSign?_truth (b : Bool) : (Expr.atom (Literal.truth b)).hiddenSign? = none := by
  cases b <;> decide

theorem number_frank (site : Site) : Yields site.number fun _ e => e.hiddenSign? = none := by
  unfold Site.number
  split
  next => exact .pure fun _ => hiddenSign?_signed _
  next => exact .pure fun _ => hiddenSign?_signed _
  next text _ =>
    cases numberOfText? text with
    | some _ => exact .pure fun _ => hiddenSign?_signed _
    | none => exact (report_yields site _ _).bind fun _ => .pure fun _ _ => hiddenSign?_signed _
  next => exact (report_yields site _ _).bind fun _ => .pure fun _ _ => hiddenSign?_signed _

theorem truth_frank (site : Site) : Yields site.truth fun _ e => e.hiddenSign? = none := by
  unfold Site.truth
  split
  next => exact .pure fun _ => hiddenSign?_truth _
  next v _ =>
    cases Field.toFlag? v with
    | some _ => exact .pure fun _ => hiddenSign?_truth _
    | none => exact (report_yields site _ _).bind fun _ => .pure fun _ _ => hiddenSign?_truth _

theorem unknownValue_frank (site : Site) : Yields site.unknownValue fun _ e => e.hiddenSign? = none :=
  (report_yields site _ _).bind fun _ => .pure fun _ _ => Expr.hiddenSign?_absent

/-- no expression of a rule that passes the check hides a sign -/
theorem run_frank (h : site.Keeps) {rule : ValueRule} (hrule : rule.isFrank = true) :
    Yields (rule.run unit site) fun _ e => e.hiddenSign? = none := by
  cases rule with
  | operator table =>
    refine operator_frank h fun op hop => ?_
    obtain ⟨name, hmem, -⟩ := mem_of_selected hop
    exact List.all_eq_true.mp hrule _ hmem
  | function table => exact function_frank h (List.all_eq_true.mp hrule)
  | number => exact number_frank site
  | truth => exact truth_frank site
  | join => cases hrule
  | template form => exact render_frank h none hrule
  | staged stages =>
    refine (renderStages_frank h (List.all_eq_true.mp hrule) none).imp fun _ _ hshows => ?_
    exact hshows Expr.hiddenSign?_absent
  | unknown => exact unknownValue_frank site

theorem valueOf_of_rule {t : Toolchain} {rule : ValueRule} (h : t.rule? site.tag = some (.value rule)) :
    t.valueOf site = rule.run t.options.indent site := by
  unfold Toolchain.valueOf
  rw [h]

theorem valueOf_standard {tag : String} {rule : ValueRule} (htag : site.tag = tag)
    (hrule : Toolchain.standard.rule? tag = some (.value rule)) :
    Toolchain.standard.valueOf site = rule.run Toolchain.standard.options.indent site :=
  valueOf_of_rule (by rw [htag, hrule])

theorem valueOf_frank {t : Toolchain} (h : site.Keeps)
    (hrule : ∀ rule, t.rule? site.tag = some rule → rule.isFrank = true) :
    Yields (t.valueOf site) fun _ e => e.hiddenSign? = none := by
  unfold Toolchain.valueOf
  split
  next rule heq => exact run_frank h (hrule _ heq)
  next => exact (report_yields site _ _).bind fun _ => .pure fun _ _ => Expr.hiddenSign?_absent
  next => exact unknownValue_frank site

/-! ## texts -/

theorem valueOf_text (site : Site) (htag : site.tag = "text") :
    Yields (Toolchain.standard.valueOf site) fun _ e =>
      e.hiddenSign? = if (Assoc.get? "TEXT" site.fields).any Json.isSigned then some .atomic else none := by
  have hrule : Toolchain.standard.rule? "text" = some (.value (.template Rule.Standard.text)) := rfl
  have hfield : ((Assoc.get? "TEXT" site.fields).getD (.string "")).isSigned
      = (Assoc.get? "TEXT" site.fields).any Json.isSigned := by
    cases Assoc.get? "TEXT" site.fields <;> rfl
  rw [valueOf_standard htag hrule]
  simp only [ValueRule.run, render, Rule.Standard.text, renderPieces, renderPiece, pure_bind, String.append_empty]
  refine .pure fun _ => if_congr ?_ rfl rfl
  rw [Literal.head_render, hfield]
  exact and_iff_left rfl

/-! ## joined texts -/

theorem joinPart_keeps (h : site.Keeps) (index : Nat) : Yields (site.joinPart index) fun _ _ => True := by
  unfold Site.joinPart
  split
  next => exact .pure fun _ => trivial
  next child hc =>
    split
    next => exact h _ child hc _
    next => exact (h _ child hc _).bind fun _ => .pure fun _ _ => trivial

theorem joinParts_keeps (h : site.Keeps) (indices : List Nat) :
    Yields (site.joinParts indices) fun _ parts => parts.length = indices.length := by
  induction indices with
  | nil => exact .pure fun _ => rfl
  | cons index rest ih =>
    refine (joinPart_keeps h index).bind fun part => ih.bind fun more => .pure fun _ hmore _ => ?_
    rw [List.length_cons, hmore, List.length_cons]

/-- a single part is taken as it is, and a sum says what it is -/
theorem hiddenSign?_sumOf (part : Expr) (more : List Expr) :
    (sumOf (part :: more)).hiddenSign? = if more.length = 0 then part.hiddenSign? else none := by
  cases more with
  | nil => rfl
  | cons next more => exact Expr.hiddenSign?_of_admits rfl

theorem join_hides (h : site.Keeps) {first : Option Precedence}
    (hfirst : Yields (site.joinPart 0) fun _ e => e.hiddenSign? = first) :
    Yields site.join fun _ e => e.hiddenSign?
      = if clamped site.wantedParts (slotIndices "ADD" site.inputs).length = 1 then first else none := by
  have hclamp : Yields (site.clampSlots "ITEMS" site.wantedParts (slotIndices "ADD" site.inputs).length)
      fun _ count => count = clamped site.wantedParts (slotIndices "ADD" site.inputs).length :=
    clampSlots_yields site _ _ _
  refine hclamp.bind fun count => ?_
  cases count with
  | zero =>
    refine .pure fun _ hcount => ?_
    rw [if_neg fun hone => absurd (hcount.trans hone) Nat.zero_ne_one]
    decide
  | succ n =>
    rw [List.range_succ_eq_map, joinParts, bind_assoc]
    refine hfirst.bind fun part => ?_
    rw [bind_assoc]
    refine (joinParts_keeps h ((List.range n).map Nat.succ)).bind fun more => ?_
    rw [pure_bind]
    refine .pure fun _ hmore hpart hcount => ?_
    rw [List.length_map, List.length_range] at hmore
    rw [hiddenSign?_sumOf, hpart, hmore]
    exact if_congr (by rw [← hcount, Nat.add_eq_right]) rfl rfl

/-! ## powers -/

/-- only the operator of powers binds tighter than a sign -/
theorem admitsSign_of_selected {op : Operator} (hpower : Field.text? "OP" site.fields ≠ some "POWER")
    (hop : site.selected "OP" Rule.Standard.arithmetic.operators = some op) : op.level.admitsSign = true := by
  have hothers : ∀ entry ∈ Rule.Standard.arithmetic.operators, entry.1 ≠ "POWER" →
      entry.2.level.admitsSign = true := by decide
  obtain ⟨name, hmem, hname | hhead⟩ := mem_of_selected hop
  · refine hothers _ hmem fun heq => hpower ?_
    rw [hname]
    exact congrArg some heq
  · cases hhead
    rfl

theorem operator_power (hpower : Field.text? "OP" site.fields = some "POWER") :
    site.operator unit Rule.Standard.arithmetic = (do
      let base ← site.operand unit "A" .call Rule.Standard.arithmetic.fallback
      let exponent ← site.operand unit "B" .power Rule.Standard.arithmetic.fallback
      pure ⟨base ++ " ** " ++ exponent, .power⟩) := by
  have hselect : site.select Rule.Standard.arithmetic.field "operator" Rule.Standard.arithmetic.operators
      = pure (some ⟨" ** ", .power, .call, .power⟩) := by
    unfold Site.select
    rw [show Field.text? Rule.Standard.arithmetic.field site.fields = some "POWER" from hpower]
    rfl
  unfold Site.operator
  rw [hselect, pure_bind]
  rfl

end Site

/-! ## blocks -/

namespace Block

/-- a text that is a number with a sign -/
def isSignedText (b : Block) : Bool := b.tag = "text" && (Assoc.get? "TEXT" b.fields).any Json.isSigned

/-- a joined text with one part, and that is such a text -/
def isSignedJoin (b : Block) : Bool :=
  b.tag = "text_join" && (b.input? "ADD0").any isSignedText && SlotKind.declaredWord b .parts ≤ 1
    && (SlotKind.indices b .parts).all (· = 0)

/-- a power of one of these -/
def isSignedPower (b : Block) : Bool :=
  b.tag = "math_arithmetic" && Field.text? "OP" b.fields = some "POWER"
    && (b.input? "A").any fun base => base.isSignedText || base.isSignedJoin

/-- the level at which the expression of a block starts with a minus and does not say so -/
def hiddenSign? (b : Block) : Option Precedence :=
  if b.isSignedText ∨ b.isSignedJoin then some .atomic else if b.isSignedPower then some .power else none

section
variable {b : Block}

theorem hiddenSign?_text (htag : b.tag = "text") :
    b.hiddenSign? = if (Assoc.get? "TEXT" b.fields).any Json.isSigned then some .atomic else none := by
  simp [hiddenSign?, isSignedText, isSignedJoin, isSignedPower, htag]

theorem hiddenSign?_join (htag : b.tag = "text_join") :
    b.hiddenSign? = if b.isSignedJoin then some .atomic else none := by
  simp [hiddenSign?, isSignedText, isSignedPower, htag]

theorem hiddenSign?_arithmetic (htag : b.tag = "math_arithmetic") :
    b.hiddenSign? = if b.isSignedPower then some .power else none := by
  simp [hiddenSign?, isSignedText, isSignedJoin, htag]

theorem hiddenSign?_other (htag : b.tag ∉ ["math_arithmetic", "text", "text_join"]) : b.hiddenSign? = none := by
  simp only [List.mem_cons, List.not_mem_nil, or_false, not_or] at htag
  simp [hiddenSign?, isSignedText, isSignedJoin, isSignedPower, htag]

/-- in which positions a block hides a sign -/
theorem isSome_hiddenSign?_iff (b : Block) (required : Precedence) :
    (b.hiddenSign?.filter (·.rank ≤ required.rank)).isSome = true
      ↔ b.isSignedText = true ∨ b.isSignedJoin = true
        ∨ b.isSignedPower = true ∧ Precedence.power.rank ≤ required.rank := by
  unfold hiddenSign?
  by_cases hatom : b.isSignedText = true ∨ b.isSignedJoin = true
  · have htightest : Precedence.atomic.rank ≤ required.rank := Nat.zero_le _
    rw [if_pos hatom, Option.filter_some, if_pos (decide_eq_true htightest), ← or_assoc]
    exact iff_of_true rfl (.inl hatom)
  · rw [if_neg hatom, ← or_assoc, or_iff_right hatom]
    by_cases hpower : b.isSignedPower = true
    · rw [if_pos hpower, Option.filter_some, Option.isSome_ite, decide_eq_true_iff, and_iff_right hpower]
    · rw [if_neg hpower]
      exact iff_of_false Bool.false_ne_true fun h => hpower h.1

theorem operator_site (htag : b.tag = "math_arithmetic") :
    Toolchain.standard.valueOf (b.site .standard)
      = (b.site .standard).operator Toolchain.standard.options.indent Rule.Standard.arithmetic := by
  have hrule : Toolchain.standard.rule? "math_arithmetic"
      = some (.value (.operator Rule.Standard.arithmetic)) := rfl
  exact Site.valueOf_standard htag hrule

/-- with the first part connected, there is no other exactly if neither the field nor a socket asks for one -/
theorem partCount_eq_one_iff (t : Toolchain) {first : Block} (h : b.input? "ADD0" = some first) :
    Site.clamped (b.site t).wantedParts (Site.slotIndices "ADD" (b.site t).inputs).length = 1
      ↔ SlotKind.declaredWord b .parts ≤ 1 ∧ (SlotKind.indices b .parts).all (· = 0) = true := by
  have hconnected : SlotKind.Connected b 0 .parts := by
    show (b.input? "ADD0").isSome = true
    rw [h]
    rfl
  have hmem := SlotKind.mem_indices (Nat.zero_le _) hconnected
  obtain ⟨greatest, hmax⟩ := Option.ne_none_iff_exists'.mp
    (mt List.max?_eq_none_iff.mp (List.ne_nil_of_mem hmem))
  obtain ⟨hgreatest, hle⟩ := List.max?_eq_some_iff.mp hmax
  have hall : (SlotKind.indices b .parts).all (· = 0) = true ↔ greatest = 0 := by
    rw [List.all_eq_true]
    refine ⟨fun hzero => of_decide_eq_true (hzero greatest hgreatest), fun hzero n hn => ?_⟩
    exact decide_eq_true (Nat.le_zero.mp (hzero ▸ hle n hn))
  have hdeclared : SlotKind.declaredWord b .parts ≤ 1 ↔ (b.site t).declaredCount "ITEMS" ≤ 1 := by
    rw [UInt64.le_iff_toNat_le, SlotKind.toNat_declaredWord t]
    rfl
  rw [hall, hdeclared, Site.wantedParts, SlotKind.partIndices_site, Site.pastGreatest, hmax]
  show min (max _ (min (greatest + 1) Site.countLimit)) (_ + 8) = 1 ↔ _
  unfold Site.countLimit
  omega

end

/-- what is hidden where a block is compiled -/
def Tells (b : Block) : Prop :=
  ∀ required, Yields (b.compileValue .standard required) fun _ e =>
    e.level.rank ≤ required.rank ∧ e.hiddenSign? = b.hiddenSign?.filter (·.rank ≤ required.rank)

section
variable {b : Block} (hinputs : ∀ entry ∈ b.inputs, entry.2.Tells)
include hinputs

theorem keeps_site : (b.site .standard).Keeps := by
  intro socket child hchild required
  rw [get?_inputs_site] at hchild
  obtain ⟨a, ha, rfl⟩ := Option.map_eq_some_iff.mp hchild
  exact (hinputs _ (Assoc.mem_of_get? ha) required).imp fun _ _ _ => trivial

theorem joinPart_site : Yields ((b.site .standard).joinPart 0) fun _ e =>
    e.hiddenSign? = if (b.input? "ADD0").any isSignedText then some .atomic else none := by
  have hsocket : Assoc.get? (Site.slot "ADD" 0) (b.site .standard).inputs
      = (b.input? "ADD0").map (compile .standard) := get?_inputs_site _ b _
  unfold Site.joinPart
  rw [hsocket]
  cases ha : b.input? "ADD0" with
  | none => exact .pure fun _ => by decide
  | some a =>
    have htells := hinputs _ (Assoc.mem_of_get? ha)
    show Yields (if (a.compile .standard).tag = "text" then _ else _) _
    rw [tag_compile]
    split
    next htext =>
      refine (htells .sum).imp fun _ e he => ?_
      rw [he.2, hiddenSign?_text htext, Option.any_some, isSignedText, decide_eq_true htext, Bool.true_and]
      split <;> rfl
    next hother =>
      refine (htells .loosest).bind fun e => .pure fun _ _ => ?_
      have hplain : Text.startsPlain ("str(" ++ e.text ++ ")") = true :=
        Text.startsPlain_append (Text.startsPlain_append (by decide) _) _
      have hnone : (⟨"str(" ++ e.text ++ ")", .call⟩ : Expr).hiddenSign? = none :=
        Expr.hiddenSign?_of_plain hplain
      rw [hnone, Option.any_some, isSignedText, decide_eq_false hother]
      rfl

theorem valueOf_join (htag : b.tag = "text_join") :
    Yields (Toolchain.standard.valueOf (b.site .standard)) fun _ e => e.hiddenSign? = b.hiddenSign? := by
  have hrule : Toolchain.standard.rule? "text_join" = some (.value .join) := rfl
  rw [Site.valueOf_standard htag hrule]
  refine (Site.join_hides (keeps_site hinputs) (joinPart_site hinputs)).imp fun _ e he => ?_
  rw [he, hiddenSign?_join htag, isSignedJoin, decide_eq_true htag, Bool.true_and]
  cases ha : b.input? "ADD0" with
  | none => exact ite_self none
  | some a =>
    have hcount := partCount_eq_one_iff .standard ha
    rw [if_congr hcount rfl rfl, Option.any_some]
    cases a.isSignedText with
    | false => exact ite_self none
    | true => exact if_congr (by simp only [Bool.true_and, Bool.and_eq_true, decide_eq_true_iff]) rfl rfl

/-- the base of a power is asked for at a level tighter than that of a sign -/
theorem base_site (unit : String) :
    Yields ((b.site .standard).operand unit "A" .call Rule.Standard.arithmetic.fallback) fun _ left =>
      left.toList.head? = some '-'
        ↔ ((b.input? "A").any fun base => base.isSignedText || base.isSignedJoin) = true := by
  unfold Site.operand
  rw [get?_inputs_site]
  cases ha : b.input? "A" with
  | none =>
    refine .pure fun _ => ?_
    show (Literal.render unit 0 Rule.Standard.zero).toList.head? = _ ↔ _
    rw [Literal.head_render]
    exact iff_of_false (by decide) Bool.false_ne_true
  | some a =>
    refine (hinputs _ (Assoc.mem_of_get? ha) .call).bind fun e => .pure fun _ he => ?_
    have htight : e.level.admitsSign = false :=
      decide_eq_false (Nat.not_le.mpr (Nat.lt_of_le_of_lt he.1 (by decide)))
    rw [← Expr.isSome_hiddenSign? htight, he.2, isSome_hiddenSign?_iff, Option.any_some, Bool.or_eq_true]
    exact or_congr_right (or_iff_left fun h => absurd h.2 (by decide))

theorem valueOf_arithmetic (htag : b.tag = "math_arithmetic") :
    Yields (Toolchain.standard.valueOf (b.site .standard)) fun _ e => e.hiddenSign? = b.hiddenSign? := by
  rw [operator_site htag, hiddenSign?_arithmetic htag, isSignedPower, decide_eq_true htag, Bool.true_and]
  have hkeeps := keeps_site hinputs
  by_cases hpower : Field.text? "OP" b.fields = some "POWER"
  · rw [Site.operator_power hpower, decide_eq_true hpower, Bool.true_and]
    refine (base_site hinputs _).bind fun base => (Site.operand_keeps hkeeps _ _ _).bind fun exponent => ?_
    refine .pure fun _ _ hbase => if_congr ?_ rfl rfl
    exact (and_iff_left rfl).trans ((Text.head_append_of_plain base (by decide) exponent).trans hbase)
  · rw [decide_eq_false hpower]
    exact Site.operator_frank hkeeps fun op hop => Site.admitsSign_of_selected hpower hop

theorem valueOf_tells :
    Yields (Toolchain.standard.valueOf (b.site .standard)) fun _ e => e.hiddenSign? = b.hiddenSign? := by
  by_cases htext : b.tag = "text"
  · refine (Site.valueOf_text (b.site .standard) htext).imp fun _ e he => ?_
    exact he.trans (hiddenSign?_text htext).symm
  by_cases hjoin : b.tag = "text_join"
  · exact valueOf_join hinputs hjoin
  by_cases harithmetic : b.tag = "math_arithmetic"
  · exact valueOf_arithmetic hinputs harithmetic
  have hother : b.tag ∉ ["math_arithmetic", "text", "text_join"] := by
    simp only [List.mem_cons, List.not_mem_nil, or_false, not_or]
    exact ⟨harithmetic, htext, hjoin⟩
  rw [hiddenSign?_other hother]
  refine Site.valueOf_frank (keeps_site hinputs) fun rule hrule => ?_
  exact Rule.Standard.frank_of_mem _ (Assoc.mem_of_get? hrule) hother

theorem tells_of_inputs : b.Tells := by
  intro required
  rw [compileValue, compile_eq]
  refine (valueOf_tells hinputs).bind fun e => .pure fun _ he => ⟨e.rank_place required, ?_⟩
  rw [Expr.hiddenSign?_place, he]

end

mutual
theorem tells : (b : Block) → b.Tells
  | ⟨_, _, _, inputs, _, _⟩ => tells_of_inputs (tellsSockets inputs)

theorem tellsSockets : (sockets : List (String × Block)) → ∀ entry ∈ sockets, entry.2.Tells
  | [] => List.forall_mem_nil _
  | (_, child) :: rest => List.forall_mem_cons.mpr ⟨tells child, tellsSockets rest⟩
end

/-! ## all together -/

/-- a power starts with its base, compiled as the operand of a call is -/
theorem text_power {b base : Block} (htag : b.tag = "math_arithmetic")
    (hpower : Field.text? "OP" b.fields = some "POWER") (hbase : b.input? "A" = some base) (s : Session) :
    ∃ exponent, ((b.compileValue .standard .loosest).run s).1.text
      = ((base.compileValue .standard .call).run s).1.text ++ " ** " ++ exponent := by
  have hleft : (b.site .standard).operand Toolchain.standard.options.indent "A" .call
      Rule.Standard.arithmetic.fallback = base.compileValue .standard .call >>= fun e => pure e.text := by
    unfold Site.operand
    rw [get?_inputs_site, hbase]
    rfl
  rw [compileValue, compile_eq]
  show ∃ exponent, ((Toolchain.standard.valueOf (b.site .standard) >>= fun e =>
    pure (e.place .loosest)).run s).1.text = _
  rw [operator_site htag, Site.operator_power hpower, hleft]
  exact ⟨_, rfl⟩

/-- where a level tighter than a sign is asked for, all signs are hidden ones -/
theorem head_iff_of_tight (b : Block) {required : Precedence} (hrequired : required.rank < Precedence.sign.rank)
    {s : Session} (hs : s.Valid) :
    ((b.compileValue .standard required).run s).1.text.toList.head? = some '-'
      ↔ b.isSignedText = true ∨ b.isSignedJoin = true
        ∨ b.isSignedPower = true ∧ Precedence.power.rank ≤ required.rank := by
  obtain ⟨-, -, hpost⟩ := b.tells required s hs
  obtain ⟨hrank, hhidden⟩ := hpost _ (Session.agrees_nameOf _)
  have htight : ((b.compileValue .standard required).run s).1.level.admitsSign = false :=
    decide_eq_false (Nat.not_le.mpr (Nat.lt_of_le_of_lt hrank hrequired))
  rw [← Expr.isSome_hiddenSign? htight, hhidden, isSome_hiddenSign?_iff]

/-- a sign is hidden exactly by a number that is the text of a text block: the expression of a block starts with a
minus at a level tighter than that of a sign if and only if the block is a text whose field is a number with a sign,
or joins such a text with nothing, or is a power of one of these in a position where powers need no parentheses.  So
where a level tighter than a sign is asked for, an expression starts with a minus in these cases only, and the base
of a power is asked for at such a level -/
theorem sign_hidden_iff (b : Block) (required : Precedence) (s : Session) (hs : s.Reachable) :
    let e := ((b.compileValue .standard required).run s).1
    let hides := b.isSignedText = true ∨ b.isSignedJoin = true
      ∨ b.isSignedPower = true ∧ Precedence.power.rank ≤ required.rank
    (¬ (e.text.toList.head? = some '-' → Precedence.sign.rank ≤ e.level.rank) ↔ hides)
    ∧ (required.rank < Precedence.sign.rank → (e.text.toList.head? = some '-' ↔ hides))
    ∧ ∀ base, b.tag = "math_arithmetic" → Field.text? "OP" b.fields = some "POWER" → b.input? "A" = some base →
      ∃ left right, ((b.compileValue .standard .loosest).run s).1.text = left ++ " ** " ++ right
        ∧ left = ((base.compileValue .standard .call).run s).1.text
        ∧ (left.toList.head? = some '-' ↔ base.isSignedText = true ∨ base.isSignedJoin = true) := by
  intro e hides
  refine ⟨?_, fun hrequired => head_iff_of_tight b hrequired hs.valid, fun base htag hpower hbase => ?_⟩
  · obtain ⟨-, -, hpost⟩ := b.tells required s hs.valid
    obtain ⟨-, hhidden⟩ := hpost _ (Session.agrees_nameOf _)
    have hsome := isSome_hiddenSign?_iff b required
    rw [← hhidden, Expr.hiddenSign?, Option.isSome_ite, Precedence.admitsSign, decide_eq_false_iff_not] at hsome
    exact Classical.not_imp.trans hsome
  · obtain ⟨right, htext⟩ := text_power htag hpower hbase s
    refine ⟨_, right, htext, rfl, (head_iff_of_tight base (by decide) hs.valid).trans ?_⟩
    exact or_congr_right (or_iff_left fun h => absurd h.2 (by decide))

/-- a power whose base is a text block with a number in it -/
def signedText : Block := ⟨"t", "text", [("TEXT", .number (.whole (-5) (by decide)))], [], [], none⟩

def signedPower : Block :=
  let exponent : Block := ⟨"e", "math_number", [("NUM", .ofNat 2)], [], [], none⟩
  ⟨"p", "math_arithmetic", [("OP", .string "POWER")], [("A", signedText), ("B", exponent)], [], none⟩

theorem sign_hidden_iff_signedPower :
    let e := ((signedPower.compileValue .standard .power).run .initial).1
    Session.initial.Reachable ∧ e.text = "-5 ** 2" ∧ e.level = .power
    ∧ ¬ (e.text.toList.head? = some '-' → Precedence.sign.rank ≤ e.level.rank) := by
  obtain ⟨hhides, -⟩ := sign_hidden_iff signedPower .power .initial .initial
  exact ⟨.initial, by decide +kernel, by decide +kernel, hhides.mpr (by decide +kernel)⟩

/-- an expression that starts with a minus and is an atom by its level -/
theorem sign_not_shown :
    ¬ ∀ (b : Block) (required : Precedence) (s : Session), s.Reachable →
      ((b.compileValue .standard required).run s).1.text.toList.head? = some '-' →
      Precedence.sign.rank ≤ ((b.compileValue .standard required).run s).1.level.rank := by
  intro hshown
  have hrank := hshown signedText .call .initial .initial (by decide +kernel)
  exact absurd hrank (by decide +kernel)

end Block
end VisualProgram
