import VisualProgram.Proofs.Decimal.Reading
import VisualProgram.Proofs.Decimal.Sign
import VisualProgram.Proofs.Script.Signs

/-!
# Numbers in fields, in fallbacks and in texts

A number can be given in three ways: as the field of a block, as the fallback of the socket the block would be
plugged into, and as a text in the field.  They compile alike up to two corners:

* `number_like_fallback_iff`  a field shows its sign by the first character of its text, a fallback by the value
                              as a float, so they differ for the zero with a sign and for no other number;
* `text_like_number_iff`      whole numbers in a text are read in 63 bits and a sign, so from `2 ^ 63` on they are
                              rounded to a float.
-/

namespace VisualProgram

/-! ## two tests for a sign -/

/-- the float that is zero and has a sign -/
def Number.isNegativeZero : Number → Bool
  | .whole _ _ => false
  | .float x _ => x.toBits = 0x8000000000000000

theorem Number.toFloat_lt_zero_iff (n : Number) :
    n.toFloat < 0 ↔ n.isSigned = true ∧ n.isNegativeZero = false := by
  cases n with
  | whole n fits =>
    refine (Decimal.ofInt_lt_zero_iff n).trans ?_
    exact decide_eq_true_iff.symm.trans (and_iff_left rfl).symm
  | float x finite =>
    refine (Decimal.lt_zero_iff finite).trans (and_congr_right' ?_)
    exact decide_eq_false_iff_not.symm

theorem Number.isSigned_of_isNegativeZero {n : Number} (h : n.isNegativeZero = true) : n.isSigned = true := by
  cases n with
  | whole n fits => cases h
  | float x finite =>
    have hbits : x.toBits = 0x8000000000000000 := of_decide_eq_true h
    show Decimal.signBit x.toBits = true
    rw [hbits]
    rfl

theorem Json.isNegative_number (n : Number) : (Json.number n).isNegative = decide (n.toFloat < 0) := by
  cases n with
  | whole n fits => exact decide_eq_decide.mpr (Decimal.ofInt_lt_zero_iff n).symm
  | float x finite => rfl

theorem Site.signed_number (n : Number) :
    signed (Literal.number n) = ⟨Literal.number n, if n.isSigned then .sign else .atomic⟩ := by
  unfold signed
  rw [if_congr (Literal.head_number n) rfl rfl]

theorem Fallback.toExpr_number (unit : String) (n : Number) :
    (ofJson (.number n)).toExpr unit = ⟨Literal.number n, if n.toFloat < 0 then .sign else .atomic⟩ := by
  have hlevel : (ofJson (.number n)).level = if (Json.number n).isNegative then .sign else .atomic := rfl
  unfold toExpr
  rw [hlevel, Json.isNegative_number]
  exact congrArg _ (if_congr decide_eq_true_iff rfl rfl)

theorem Expr.text_place_eq_iff (text : String) (p required : Precedence) :
    ((⟨text, p⟩ : Expr).place required).text = text ↔ p.rank ≤ required.rank := by
  unfold place Precedence.needsParens
  by_cases htight : required.rank < p.rank
  · rw [if_pos (decide_eq_true htight)]
    refine iff_of_false (fun heq => ?_) (Nat.not_le.mpr htight)
    have hlength : ("(" ++ text ++ ")").length = text.length := congrArg String.length heq
    rw [String.length_append, String.length_append] at hlength
    have hone : "(".length = 1 := rfl
    omega
  · rw [if_neg (by simpa using htight)]
    exact iff_of_true rfl (Nat.not_lt.mp htight)

section
variable (unit : String) (n : Number)

/-- the two expressions of a number are the same but for the level of the zero with a sign -/
theorem Site.signed_number_eq (h : n.isNegativeZero = false) :
    signed (Literal.number n) = (Fallback.ofJson (.number n)).toExpr unit := by
  have hsides : n.toFloat < 0 ↔ n.isSigned = true := n.toFloat_lt_zero_iff.trans (and_iff_left h)
  rw [signed_number, Fallback.toExpr_number, if_congr hsides rfl rfl]

theorem Site.signed_number_negativeZero (h : n.isNegativeZero = true) :
    signed (Literal.number n) = ⟨Literal.number n, .sign⟩
      ∧ (Fallback.ofJson (.number n)).toExpr unit = ⟨Literal.number n, .atomic⟩ := by
  have hzero : ¬ n.toFloat < 0 := fun hlt => absurd (n.toFloat_lt_zero_iff.mp hlt).2 (by rw [h]; decide)
  rw [signed_number, Fallback.toExpr_number, if_pos (Number.isSigned_of_isNegativeZero h), if_neg hzero]
  exact ⟨rfl, rfl⟩

theorem Site.signed_number_eq_iff :
    signed (Literal.number n) = (Fallback.ofJson (.number n)).toExpr unit ↔ n.isNegativeZero = false := by
  refine ⟨fun heq => ?_, signed_number_eq unit n⟩
  by_contra hzero
  obtain ⟨hfield, hfallback⟩ := signed_number_negativeZero unit n (Bool.eq_true_of_not_eq_false hzero)
  rw [hfield, hfallback] at heq
  cases congrArg Expr.level heq

/-- parentheses tell the two apart where a sign needs them -/
theorem Site.place_number_eq_iff (required : Precedence) :
    ((signed (Literal.number n)).place required).text
      = (((Fallback.ofJson (.number n)).toExpr unit).place required).text
      ↔ n.isNegativeZero = false ∨ required.admitsSign = true := by
  by_cases hzero : n.isNegativeZero = true
  · obtain ⟨hfield, hfallback⟩ := signed_number_negativeZero unit n hzero
    have hatom : ((⟨Literal.number n, .atomic⟩ : Expr).place required).text = Literal.number n :=
      (Expr.text_place_eq_iff _ _ _).mpr (Nat.zero_le _)
    rw [hfield, hfallback, hatom, Expr.text_place_eq_iff, hzero]
    exact decide_eq_true_iff.symm.trans (or_iff_right Bool.noConfusion).symm
  · have hother := Bool.eq_false_of_not_eq_true hzero
    rw [signed_number_eq unit n hother]
    exact iff_of_true rfl (.inl hother)

end

/-! ## as a field and as a fallback -/

namespace Block

theorem compileValue_of_rule {t : Toolchain} {b : Block} {rule : ValueRule} (h : t.rule? b.tag = some (.value rule))
    (required : Precedence) :
    b.compileValue t required = rule.run t.options.indent (b.site t) >>= fun e => pure (e.place required) := by
  have hsite : t.rule? (b.site t).tag = some (.value rule) := h
  rw [compileValue, compile_eq]
  dsimp only
  rw [Site.valueOf_of_rule hsite]

section
variable {t : Toolchain} {b : Block} (hrule : t.rule? b.tag = some (.value .number))
include hrule

theorem compileValue_numberField {v : Json} {e : Expr}
    (h : ∀ site : Site, Assoc.get? "NUM" site.fields = some v → site.number = pure e) (required : Precedence) :
    (b.setField "NUM" v).compileValue t required = pure (e.place required) := by
  have hfield : Assoc.get? "NUM" ((b.setField "NUM" v).site t).fields = some v :=
    (Assoc.get?_put _ _ _ _).trans (if_pos rfl)
  have htag : t.rule? (b.setField "NUM" v).tag = some (.value .number) := hrule
  rw [compileValue_of_rule htag]
  show ((b.setField "NUM" v).site t).number >>= _ = _
  rw [h _ hfield, pure_bind]

theorem compileValue_number (n : Number) (required : Precedence) :
    (b.setField "NUM" (.number n)).compileValue t required
      = pure ((Site.signed (Literal.number n)).place required) := by
  refine compileValue_numberField hrule (fun site hfield => ?_) required
  unfold Site.number
  rw [hfield]

theorem compileValue_numberText {text number : String} (h : Site.numberOfText? text = some number)
    (required : Precedence) :
    (b.setField "NUM" (.string text)).compileValue t required = pure ((Site.signed number).place required) := by
  refine compileValue_numberField hrule (fun site hfield => ?_) required
  unfold Site.number
  rw [hfield]
  dsimp only
  rw [h]

theorem operand_number (n : Number) (parent : Block) (socket unit : String) (required : Precedence)
    (fallback : Fallback) :
    ((parent.setInput socket (b.setField "NUM" (.number n))).site t).operand unit socket required fallback
      = pure ((Site.signed (Literal.number n)).place required).text := by
  have hinput : (parent.setInput socket (b.setField "NUM" (.number n))).input? socket
      = some (b.setField "NUM" (.number n)) := (Assoc.get?_insert _ _ _ _).trans (if_pos rfl)
  unfold Site.operand
  rw [get?_inputs_site, hinput, Option.map_some]
  show (b.setField "NUM" (.number n)).compileValue t required >>= _ = _
  rw [compileValue_number hrule, pure_bind]

end

theorem operand_fallback (t : Toolchain) {parent : Block} {socket : String} (h : parent.input? socket = none)
    (unit : String) (required : Precedence) (fallback : Fallback) :
    (parent.site t).operand unit socket required fallback = pure ((fallback.toExpr unit).place required).text := by
  unfold Site.operand
  rw [get?_inputs_site, h, Option.map_none]

/-- a number compiles the same as a field and as a fallback, unless it is the zero with a sign; that one is the
same where a sign needs no parentheses -/
theorem number_like_fallback_iff {t : Toolchain} {b : Block} (hrule : t.rule? b.tag = some (.value .number))
    (n : Number) (unit : String) :
    (∀ required s, ((b.setField "NUM" (.number n)).compileValue t required).run s
      = ((⟨Literal.number n, if n.isSigned then .sign else .atomic⟩ : Expr).place required, s))
    ∧ (Fallback.ofJson (.number n)).toExpr unit = ⟨Literal.number n, if n.toFloat < 0 then .sign else .atomic⟩
    ∧ (∀ s, ((b.setField "NUM" (.number n)).compileValue t .loosest).run s
        = ((Fallback.ofJson (.number n)).toExpr unit, s) ↔ n.isNegativeZero = false)
    ∧ ∀ (parent : Block) (socket : String), parent.input? socket = none → ∀ (required : Precedence) (s : Session),
      (((parent.setInput socket (b.setField "NUM" (.number n))).site t).operand unit socket required
          (.ofJson (.number n))).run s
        = ((parent.site t).operand unit socket required (.ofJson (.number n))).run s
      ↔ n.isNegativeZero = false ∨ required.admitsSign = true := by
  refine ⟨fun required s => ?_, Fallback.toExpr_number unit n, fun s => ?_, fun parent socket hempty required s => ?_⟩
  · rw [compileValue_number hrule, Site.signed_number]
    rfl
  · have hloosest : (Site.signed (Literal.number n)).place .loosest = Site.signed (Literal.number n) := by
      rw [Site.signed_number]
      cases n.isSigned <;> rfl
    rw [compileValue_number hrule, hloosest, ← Site.signed_number_eq_iff unit n]
    exact Prod.mk_inj.trans (and_iff_left rfl)
  · rw [operand_number hrule, operand_fallback t hempty, ← Site.place_number_eq_iff unit n]
    exact Prod.mk_inj.trans (and_iff_left rfl)

def numberBlock : Block := ⟨"n", "math_number", [], [], [], none⟩

def powerBlock : Block := ⟨"p", "math_arithmetic", [("OP", .string "POWER")], [], [], none⟩

def leastNumber : Number := .whole (-0x8000000000000000) (by decide)

theorem isFinite_negativeZero : (-0.0 : Float).isFinite = true := by decide +kernel

def negativeZero : Number := .float (-0.0) isFinite_negativeZero

theorem number_like_fallback_iff_least :
    Toolchain.standard.rule? numberBlock.tag = some (.value .number) ∧ powerBlock.input? "A" = none
    ∧ leastNumber.isNegativeZero = false
    ∧ ((numberBlock.setField "NUM" (.number leastNumber)).compileValue .standard .loosest).run .initial
      = ((Fallback.ofJson (.number leastNumber)).toExpr "  ", .initial)
    ∧ (((powerBlock.setInput "A" (numberBlock.setField "NUM" (.number leastNumber))).site .standard).operand "  " "A"
          .call (.ofJson (.number leastNumber))).run .initial
      = ((powerBlock.site .standard).operand "  " "A" .call (.ofJson (.number leastNumber))).run .initial := by
  have hrule : Toolchain.standard.rule? numberBlock.tag = some (.value .number) := rfl
  obtain ⟨-, -, hvalue, hoperand⟩ := number_like_fallback_iff hrule leastNumber "  "
  exact ⟨hrule, rfl, rfl, (hvalue .initial).mpr rfl, (hoperand powerBlock "A" rfl .call .initial).mpr (.inl rfl)⟩

/-- the zero with a sign is a signed number as a field and an atom as a fallback -/
theorem zero_with_sign_differs :
    ¬ ∀ (n : Number) (unit : String) (s : Session),
      ((numberBlock.setField "NUM" (.number n)).compileValue .standard .loosest).run s
        = ((Fallback.ofJson (.number n)).toExpr unit, s) := by
  intro halike
  have hlevels : .sign = Precedence.atomic :=
    congrArg (fun result => result.1.level) (halike negativeZero "" .initial)
  cases hlevels

end Block

/-! ## numbers read from a text -/

/-- what a number in a text is spelled as, whatever blanks are around it -/
theorem Site.numberOfText?_toString {n : Int} (fits : -0x8000000000000000 ≤ n ∧ n < 0x10000000000000000)
    {before after : String} (hbefore : before.toList.all Text.isBlank = true)
    (hafter : after.toList.all Text.isBlank = true) :
    numberOfText? (before ++ (toString n ++ after))
      = some (if n < 0x8000000000000000 then toString n else Literal.float (Float.ofInt n)) := by
  have htrim : Text.trim (before ++ (toString n ++ after)).toList = (toString n).toList := by
    rw [String.toList_append, String.toList_append]
    refine Text.trim_pad hbefore hafter (fun c hc => ?_) ?_
    · rcases Decimal.mem_toString hc with rfl | hdigit
      · decide
      · exact (Decimal.plain_of_isDigit hdigit).1
    · rw [Python.toList_int]
      split
      next => exact List.cons_ne_nil _ _
      next => exact Nat.toDigits_ne_nil
  unfold numberOfText?
  rw [htrim, Decimal.integer?_toString]
  by_cases hn : n < 0x8000000000000000
  · rw [if_pos ⟨fits.1, hn⟩, if_pos hn]
  · obtain ⟨k, rfl⟩ := Int.eq_ofNat_of_zero_le (by omega : 0 ≤ n)
    have hdigits : (toString (k : Int)).toList = Nat.toDigits 10 k := by
      rw [Python.toList_int, if_neg (by omega)]
      rfl
    have hfinite : (Float.ofNat k).isFinite = true := Decimal.isFinite_ofNat (by omega)
    rw [if_neg (fun hrange => hn hrange.2), if_neg hn, hdigits, Decimal.float?_toDigits]
    exact if_pos hfinite

@[simp] theorem Site.text_signed (text : String) : (signed text).text = text := rfl

theorem Expr.mem_place {e : Expr} {c : Char} (h : c ∈ e.text.toList) (required : Precedence) :
    c ∈ (e.place required).text.toList := by
  unfold place
  split
  next =>
    show c ∈ ("(" ++ e.text ++ ")").toList
    rw [String.toList_append, String.toList_append]
    exact List.mem_append_left _ (List.mem_append_right _ h)
  next => exact h

/-- no position makes the text of a float that of a natural number -/
theorem Site.place_float_ne {x : Float} (h : x.isFinite = true) {n : Int} (hn : 0 ≤ n) (required : Precedence) :
    (signed (Literal.float x)).place required ≠ (signed (toString n)).place required := by
  obtain ⟨c, hc, hmark⟩ := Decimal.mem_float h
  have hatom : signed (toString n) = ⟨toString n, .atomic⟩ := by
    have hhead : ¬ (toString n).toList.head? = some '-' := by
      rw [Python.toList_int, if_neg (Int.not_lt.mpr hn)]
      intro hminus
      exact absurd (Decimal.allDigits_toDigits _ '-' (List.mem_of_head? hminus)) (by decide)
    unfold signed
    rw [if_neg hhead]
  have hplace : ((signed (toString n)).place required).text = toString n := by
    rw [hatom, Expr.text_place_eq_iff]
    exact Nat.zero_le _
  intro heq
  have hmem := Expr.mem_place (e := signed (Literal.float x)) (by rwa [text_signed]) required
  rw [heq, hplace] at hmem
  rcases hmark with rfl | rfl
  · exact absurd (Decimal.mem_toString hmem) (by decide)
  · exact absurd (Decimal.mem_toString hmem) (by decide)

namespace Block

/-- a whole number in a text, with blanks around it or not, compiles like the number below `2 ^ 63`; from there on
it is the float nearest to it.  Nothing is reported in either case -/
theorem text_like_number_iff {t : Toolchain} {b : Block} (hrule : t.rule? b.tag = some (.value .number)) (n : Int)
    (fits : -0x8000000000000000 ≤ n ∧ n < 0x10000000000000000) {before after : String}
    (hbefore : before.toList.all Text.isBlank = true) (hafter : after.toList.all Text.isBlank = true)
    (required : Precedence) (s : Session) :
    let ofText := ((b.setField "NUM" (.string (before ++ (toString n ++ after)))).compileValue t required).run s
    let ofNumber := ((b.setField "NUM" (.number (.whole n fits))).compileValue t required).run s
    (ofText = ofNumber ↔ n < 0x8000000000000000)
    ∧ ofNumber = ((Site.signed (toString n)).place required, s)
    ∧ ofText = ((Site.signed (if n < 0x8000000000000000 then toString n else Literal.float (Float.ofInt n))).place
        required, s) := by
  intro ofText ofNumber
  have hnumber : ofNumber = ((Site.signed (toString n)).place required, s) := by
    unfold ofNumber
    rw [compileValue_number hrule]
    rfl
  have htext : ofText = ((Site.signed
      (if n < 0x8000000000000000 then toString n else Literal.float (Float.ofInt n))).place required, s) := by
    unfold ofText
    rw [compileValue_numberText hrule (Site.numberOfText?_toString fits hbefore hafter)]
    rfl
  refine ⟨?_, hnumber, htext⟩
  rw [hnumber, htext]
  constructor
  · intro halike
    by_contra hbig
    rw [if_neg hbig] at halike
    have hfinite : (Float.ofInt n).isFinite = true := (Number.whole n fits).isFinite_toFloat
    exact Site.place_float_ne hfinite (by omega) required (congrArg Prod.fst halike)
  · intro hsmall
    rw [if_pos hsmall]

theorem text_like_number_iff_greatest :
    Toolchain.standard.rule? numberBlock.tag = some (.value .number)
    ∧ " \t".toList.all Text.isBlank = true ∧ "\n".toList.all Text.isBlank = true
    ∧ ((numberBlock.setField "NUM" (.string (" \t" ++ (toString (0x7fffffffffffffff : Int) ++ "\n")))).compileValue
          .standard .call).run .initial
      = ((numberBlock.setField "NUM" (.number (.whole 0x7fffffffffffffff (by decide)))).compileValue
          .standard .call).run .initial := by
  have hrule : Toolchain.standard.rule? numberBlock.tag = some (.value .number) := rfl
  have hbefore : " \t".toList.all Text.isBlank = true := by decide
  have hafter : "\n".toList.all Text.isBlank = true := by decide
  obtain ⟨hiff, -, -⟩ :=
    text_like_number_iff hrule 0x7fffffffffffffff (by decide) hbefore hafter .call .initial
  exact ⟨hrule, hbefore, hafter, hiff.mpr (by decide)⟩

/-- the greatest whole number that a field can hold is not the one that is read from its digits -/
theorem greatest_number_rounded :
    ¬ ∀ (n : Int) (fits : -0x8000000000000000 ≤ n ∧ n < 0x10000000000000000),
      ((numberBlock.setField "NUM" (.string (toString n))).compileValue .standard .loosest).run .initial
        = ((numberBlock.setField "NUM" (.number (.whole n fits))).compileValue .standard .loosest).run .initial := by
  intro halike
  have htext := congrArg (fun result => result.1.text) (halike 0xffffffffffffffff (by decide))
  revert htext
  decide +kernel

end Block
end VisualProgram
