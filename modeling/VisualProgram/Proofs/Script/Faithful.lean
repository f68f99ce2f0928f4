import VisualProgram.Proofs.Script.Values

/-!
# Expressions say what blocks mean

The text compiled from a block, in a position that asks for any level, is an expression of that level
with one syntax tree, and the tree is the meaning of the block up to the laws by which parentheses
may be dropped (`compileValue_faithful`).

Each standard rule is sound for the meaning of its tag (`Rule.Standard.Sound`), in any site whose
sockets are; the rest is an induction over the tree of blocks.
-/

namespace VisualProgram
open Python

/-- the text of a text block is text, or missing -/
def TextField (fields : List (String × Json)) : Prop :=
  (Assoc.get? "TEXT" fields).all (fun v => v matches .string _) = true

instance : DecidablePred TextField :=
  fun fields => inferInstanceAs (Decidable ((Assoc.get? "TEXT" fields).all _ = true))

theorem TextField.eq_string {fields : List (String × Json)} (h : TextField fields) :
    ∃ t, (Assoc.get? "TEXT" fields).getD (.string "") = .string t := by
  unfold TextField at h
  cases hv : Assoc.get? "TEXT" fields with
  | none => exact ⟨"", rfl⟩
  | some v =>
    rw [hv] at h
    cases v with
    | string t => exact ⟨t, rfl⟩
    | _ => cases h

namespace Rule.Standard
open Site

variable {unit : String} {s : Situation}

/-! ## fallbacks -/

theorem fallback_nat (n : Nat)
    (fits : -0x8000000000000000 ≤ (n : Int) ∧ (n : Int) < 0x10000000000000000) :
    FallbackDenotes unit (.ofJson (.number (.whole n fits))) (.int n) := by
  have hn : ¬(n : Int) < 0 := Int.not_lt.mpr (Int.natCast_nonneg n)
  have hlevel : (Fallback.ofJson (.number (.whole n fits))).level = .atomic := by
    show (if decide ((n : Int) < 0) = true then Precedence.sign else .atomic) = .atomic
    rw [decide_eq_false hn]
    rfl
  have htext : (Literal.render unit 0 (.number (.whole n fits))).toList = Nat.toDigits 10 n := by
    show (toString (n : Int)).toList = _
    rw [toList_int, if_neg hn, Int.natAbs_natCast]
  show Denotes (Fallback.ofJson (.number (.whole n fits))).level
    (Literal.render unit 0 (.number (.whole n fits))).toList _
  rw [hlevel, htext]
  exact (spells_nat n).denotes

theorem fallback_truth (b : Bool) : FallbackDenotes unit (.ofJson (.bool b)) (.truth b) :=
  (spells_truth b).denotes

theorem fallback_absent : FallbackDenotes unit .absent .none := spells_none.denotes

/-! ## templates -/

theorem text_sound (h : TextField s.fields) :
    TemplateSound unit text none s (.ofJson ((Assoc.get? "TEXT" s.fields).getD (.string ""))) := by
  intro parts hparts
  obtain _ | ⟨rfl, _ | _⟩ := hparts
  obtain ⟨t, ht⟩ := h.eq_string
  rw [List.flatten_singleton, ht]
  exact (spells_text t).denotes

theorem null_sound : TemplateSound unit null none s .none := by
  intro parts hparts
  obtain _ | ⟨rfl, _ | _⟩ := hparts
  exact spells_none.denotes

theorem negate_sound : TemplateSound unit negate none s (.not (s.operand "BOOL" (.truth true))) := by
  intro parts hparts
  obtain _ | ⟨rfl, _ | ⟨hb, _ | _⟩⟩ := hparts
  rw [List.flatten_cons, List.flatten_singleton]
  exact Denotes.not (hb _ (fallback_truth true))

theorem ternary_sound : TemplateSound unit ternary none s
    (.cond (s.operand "IF" (.truth false)) (s.operand "THEN" .none) (s.operand "ELSE" .none)) := by
  intro parts hparts
  obtain _ | ⟨hy, _ | ⟨rfl, _ | ⟨hc, _ | ⟨rfl, _ | ⟨hn, _ | _⟩⟩⟩⟩⟩ := hparts
  simp only [List.flatten_cons, List.flatten_nil, List.append_nil]
  exact Denotes.cond (hy _ fallback_absent) (hc _ (fallback_truth false)) (hn _ fallback_absent)

theorem modulo_sound : TemplateSound unit modulo none s
    (.binary .mod (s.operand "DIVIDEND" (.int 0)) (s.operand "DIVISOR" (.int 1))) := by
  intro parts hparts
  obtain _ | ⟨hl, _ | ⟨rfl, _ | ⟨hr, _ | _⟩⟩⟩ := hparts
  simp only [List.flatten_cons, List.flatten_nil, List.append_nil]
  exact Denotes.binary .mod (hl _ (fallback_nat 0 _)) (hr _ (fallback_nat 1 _))

theorem variableGet_sound : TemplateSound unit variableGet none s
    (.name (s.names ((Field.text? "VAR" s.fields).getD "item"))) := by
  intro parts hparts
  obtain _ | ⟨hname, _ | _⟩ := hparts
  rw [List.flatten_singleton]
  exact hname

theorem getInput_sound (hu : IsIndent unit) : TemplateSound unit getInput none s
    (namedCall "get_input" (.ofJson ((Assoc.get? "PORT" s.fields).getD (.string "input1")))) := by
  intro parts hparts
  obtain _ | ⟨rfl, _ | ⟨rfl, _ | ⟨rfl, _ | _⟩⟩⟩ := hparts
  have hname : IsName "get_input" := by decide
  have hport := (spells_render hu 0 ((Assoc.get? "PORT" s.fields).getD (.string "input1"))).denotes
  simp only [List.flatten_cons, List.flatten_nil, List.append_nil]
  exact Denotes.call hname.opens (hport.mono (by decide))

theorem scale_sound : TemplateSound unit scale none s
    (.binary .add (.binary .mul (s.operand "VALUE" (.int 0)) (s.operand "SCALE" (.int 1)))
      (s.operand "OFFSET" (.int 0))) := by
  intro parts hparts
  obtain _ | ⟨hv, _ | ⟨rfl, _ | ⟨hs, _ | ⟨rfl, _ | ⟨ho, _ | _⟩⟩⟩⟩⟩ := hparts
  have hmul := Denotes.binary .mul (hv _ (fallback_nat 0 _)) (hs _ (fallback_nat 1 _))
  have hadd := Denotes.flat .add Infix.flat_add (hmul.mono (by decide)) (ho _ (fallback_nat 0 _))
  simp only [List.flatten_cons, List.flatten_nil, List.append_nil]
  rw [List.append_assoc, List.append_assoc] at hadd
  exact hadd

/-! ## staged conversions -/

theorem denotes_positional {whole digits : List Char} (hne : whole ≠ []) (hw : AllDigits whole)
    (hd : AllDigits digits) :
    Denotes .atomic (whole ++ '.' :: digits) (.float (String.ofList (whole ++ '.' :: digits))) := by
  have hfloat := IsFloat.parts whole ('.' :: digits) [] hne hw (.point digits hd) .absent (by simp)
  rw [List.append_nil] at hfloat
  exact hfloat.spells.denotes

section
variable (op : Infix) {text : String} {cs : List Char} {t : Tree}
  (htext : text.toList = spaced op.spelling ++ cs) (ht : Denotes op.level.tighter cs t)
include htext ht

/-- an operator with a constant to its right, on a socket -/
theorem socket_sound {fallback : Fallback} {u : Tree} (socket : String)
    (hf : FallbackDenotes unit fallback u) :
    TemplateSound unit ⟨op.level, [.operand socket op.level fallback, .text text]⟩ none s
      (.binary op (s.operand socket u) t) := by
  intro parts hparts
  obtain _ | ⟨ha, _ | ⟨rfl, _ | _⟩⟩ := hparts
  rw [List.flatten_cons, List.flatten_singleton, htext]
  exact Denotes.binary op (ha u hf) ht

/-- the same on the stage before -/
theorem previous_sound :
    StageSound unit ⟨op.level, [.previous op.level, .text text]⟩ fun m => .binary op m t := by
  intro s e m he parts hparts
  obtain _ | ⟨hprev, _ | ⟨rfl, _ | _⟩⟩ := hparts
  rw [List.flatten_cons, List.flatten_singleton, htext, hprev e rfl]
  exact Denotes.binary op (he.place op.level).denotes ht

end

theorem ninths_sound : StageSound unit ⟨.product, [.previous .product, .text " * 5 / 9"]⟩
    fun m => .binary .div (.binary .mul m (.int 5)) (.int 9) := by
  intro s e m he parts hparts
  obtain _ | ⟨hprev, _ | ⟨rfl, _ | _⟩⟩ := hparts
  have hmul := Denotes.binary .mul (he.place .product).denotes ((spells_nat 5).denotes.mono (by decide))
  have hdiv := Denotes.binary .div hmul ((spells_nat 9).denotes.mono (by decide))
  rw [List.append_assoc, List.append_assoc] at hdiv
  rw [List.flatten_cons, List.flatten_singleton, hprev e rfl]
  exact hdiv

/-! ## the table -/

/-- a rule that makes the expression `m` of a block with the tag, whatever is in its sockets -/
def Sound (unit tag : String) (rule : Rule) (m : Situation → Tree) : Prop :=
  ∃ valueRule, rule = .value valueRule ∧ ∀ (site : Site) (situation : (String → String) → Situation),
    site.Means situation → (tag = "text" → TextField site.fields) →
      Yields (valueRule.run unit site) fun names e => e.Denotes (m (situation names))

theorem template_rule {template : Template} {m : Situation → Tree}
    (ht : ∀ s, TemplateSound unit template none s (m s)) (tag : String) :
    Sound unit tag (.value (.template template)) m := by
  refine ⟨_, rfl, fun site situation h _ => ?_⟩
  exact (render_yields h unit none template).imp fun names e he => he _ (ht _)

theorem text_rule : Sound unit "text" (.value (.template text))
    fun s => .ofJson ((Assoc.get? "TEXT" s.fields).getD (.string "")) := by
  refine ⟨_, rfl, fun site situation h htext => ?_⟩
  refine (render_yields h unit none text).imp fun names e he => he _ (text_sound ?_)
  rw [h.fields]
  exact htext rfl

theorem celsius_rule (tag : String) : Sound unit tag (.value (.staged celsiusToFahrenheit)) fun s =>
    .binary .add (.binary .mul (s.operand "CELSIUS" (.int 0)) (.float "1.8")) (.int 32) := by
  refine ⟨_, rfl, fun site situation h _ => ?_⟩
  have hfactor : Denotes .atomic _ (.float "1.8") :=
    denotes_positional (List.cons_ne_nil '1' []) (by decide) (show AllDigits ['8'] by decide)
  have hoffset := (spells_nat 32).denotes
  exact staged_yields h
    (fun s => socket_sound .mul rfl (hfactor.mono (by decide)) "CELSIUS" (fallback_nat 0 _))
    (.cons (previous_sound .add rfl (hoffset.mono (by decide))) .nil)

theorem kelvin_rule (tag : String) : Sound unit tag (.value (.staged fahrenheitToKelvin)) fun s =>
    .binary .add (.binary .div (.binary .mul
      (.binary .sub (s.operand "FAHRENHEIT" (.int 32)) (.int 32)) (.int 5)) (.int 9))
      (.float "273.15") := by
  refine ⟨_, rfl, fun site situation h _ => ?_⟩
  have hfreezing := (spells_nat 32).denotes
  have hoffset : Denotes .atomic _ (.float "273.15") :=
    denotes_positional (List.cons_ne_nil '2' ['7', '3']) (by decide)
      (show AllDigits ['1', '5'] by decide)
  exact staged_yields h
    (fun s => socket_sound .sub rfl (hfreezing.mono (by decide)) "FAHRENHEIT" (fallback_nat 32 _))
    (.cons ninths_sound (.cons (previous_sound .add rfl (hoffset.mono (by decide))) .nil))

/-- the value rules come first in the table -/
theorem values_sound (hu : IsIndent unit) : Matches (Sound unit) (table.take 18) meanings :=
  .cons ⟨rfl, _, rfl, fun _ _ h _ => operator_yields h (fallback_nat 0 _) arithmetic_sound⟩
    (.cons ⟨rfl, _, rfl, fun _ _ h _ => operator_yields h (fallback_nat 0 _) comparison_sound⟩
    (.cons ⟨rfl, _, rfl, fun _ _ h _ => operator_yields h (fallback_truth false) connective_sound⟩
    (.cons ⟨rfl, _, rfl, fun _ _ h _ => number_yields h⟩
    (.cons ⟨rfl, _, rfl, fun _ _ h _ => truth_yields h⟩
    (.cons ⟨rfl, _, rfl, fun _ _ h _ => join_yields h⟩
    (.cons ⟨rfl, _, rfl, fun _ _ h _ => function_yields h (fallback_nat 0 _) single_sound⟩
    (.cons ⟨rfl, _, rfl, fun _ _ h _ => function_yields h (fallback_nat 0 _) rounding_sound⟩
    (.cons ⟨rfl, text_rule⟩
    (.cons ⟨rfl, template_rule (fun _ => null_sound) _⟩
    (.cons ⟨rfl, template_rule (fun _ => negate_sound) _⟩
    (.cons ⟨rfl, template_rule (fun _ => ternary_sound) _⟩
    (.cons ⟨rfl, template_rule (fun _ => modulo_sound) _⟩
    (.cons ⟨rfl, template_rule (fun _ => variableGet_sound) _⟩
    (.cons ⟨rfl, template_rule (fun _ => getInput_sound hu) _⟩
    (.cons ⟨rfl, template_rule (fun _ => scale_sound) _⟩
    (.cons ⟨rfl, celsius_rule _⟩
    (.cons ⟨rfl, kelvin_rule _⟩ .nil)))))))))))))))))

/-- and the statement rules after them -/
theorem statements_last : ∀ entry ∈ table.drop 18, entry.2.isValue = false := by decide

end Rule.Standard

/-! ## blocks -/

/-- the rule of a tag is sound for its meaning; without a value rule the meaning is `None` -/
theorem rule_cases {unit : String} (hu : IsIndent unit) (tag : String) :
    (∃ rule m, Toolchain.standard.rule? tag = some rule ∧ Assoc.get? tag meanings = some m
      ∧ Rule.Standard.Sound unit tag rule m)
    ∨ ((∀ rule, Toolchain.standard.rule? tag = some rule → rule.isValue = false)
      ∧ Assoc.get? tag meanings = none) := by
  have htable : Toolchain.standard.rule? tag = (Assoc.get? tag (Rule.Standard.table.take 18)).or
      (Assoc.get? tag (Rule.Standard.table.drop 18)) := by
    rw [← Assoc.get?_append, List.take_append_drop]
    rfl
  rw [htable]
  rcases (Rule.Standard.values_sound hu).get? tag with ⟨hr, hm⟩ | ⟨rule, m, hr, hm, hsound⟩
  · refine .inr ⟨fun rule hrule => ?_, hm⟩
    rw [hr, Option.none_or] at hrule
    exact Rule.Standard.statements_last _ (Assoc.mem_of_get? hrule)
  · refine .inl ⟨rule, m, ?_, hm, hsound⟩
    rw [hr, Option.some_or]

theorem valueOf_yields {site : Site} {situation : (String → String) → Situation}
    (h : site.Means situation) (htext : site.tag = "text" → TextField site.fields) :
    Yields (Toolchain.standard.valueOf site) fun names e =>
      e.Denotes (meaningOf site.tag (situation names)) := by
  have hu : IsIndent Toolchain.standard.options.indent := by decide
  unfold Toolchain.valueOf meaningOf
  rcases rule_cases hu site.tag with ⟨rule, m, hr, hm, valueRule, rfl, hsound⟩ | ⟨hr, hm⟩
  · rw [hr, hm]
    exact hsound site situation h htext
  · rw [hm]
    split
    next rule hrule => cases hr _ hrule
    next => exact (Site.report_yields site _ _).bind fun _ => .pure fun _ _ => denotes_absent
    next => exact (Site.report_yields site _ _).bind fun _ => .pure fun _ _ => denotes_absent

namespace Block

theorem keys_meaningSockets (t : Toolchain) (names : String → String)
    (sockets : List (String × Block)) :
    Assoc.keys (meaningSockets names sockets) = Assoc.keys (compileSockets t sockets) := by
  induction sockets with
  | nil => rfl
  | cons entry rest ih =>
    obtain ⟨socket, child⟩ := entry
    simp [meaningSockets, compileSockets, ih]

@[simp] theorem tag_compile (t : Toolchain) (b : Block) : (b.compile t).tag = b.tag := by
  cases b
  rfl

mutual
theorem compile_means : (b : Block) → (∀ x ∈ b.walk, x.tag = "text" → TextField x.fields) →
    (b.compile .standard).Means fun names => b.meaning names
  | ⟨id, tag, fields, inputs, statements, next⟩, htext => by
    have hself := htext _ List.mem_cons_self
    have hinputs := compileSockets_means inputs fun x hx => htext x <| by
      simp only [walk, List.mem_cons, List.mem_append]
      exact .inr (.inl (.inl hx))
    have hsite : Site.Means ⟨id, tag, fields, compileSockets .standard inputs,
        compileSockets .standard statements⟩
        fun names => ⟨fields, meaningSockets names inputs, names⟩ :=
      ⟨fun _ => rfl, fun _ => rfl, fun names => keys_meaningSockets _ names inputs, hinputs⟩
    intro required
    refine (valueOf_yields hsite hself).bind fun e => .pure fun names he => ?_
    exact he.place required

theorem compileSockets_means : (sockets : List (String × Block)) →
    (∀ x ∈ walkSockets sockets, x.tag = "text" → TextField x.fields) →
    ∀ socket child, Assoc.get? socket (compileSockets .standard sockets) = some child →
      ∃ m, child.Means m
        ∧ ∀ names, Assoc.get? socket (meaningSockets names sockets) = some (child.tag, m names)
  | [], _, _, _, h => by cases h
  | (name, b) :: rest, htext, socket, child, h => by
    rw [compileSockets, Assoc.get?_cons] at h
    simp only [meaningSockets, Assoc.get?_cons]
    split at h
    next heq =>
      cases h
      refine ⟨_, compile_means b fun x hx => htext x (List.mem_append_left _ hx), fun names => ?_⟩
      rw [if_pos heq, tag_compile]
    next hne =>
      obtain ⟨m, hm, hget⟩ :=
        compileSockets_means rest (fun x hx => htext x (List.mem_append_right _ hx)) socket child h
      refine ⟨m, hm, fun names => ?_⟩
      rw [if_neg hne, hget]
end

/-- the expression of a block is its meaning, at the level that is asked for and under the names its variables have
got -/
theorem compileValue_faithful (b : Block) (htext : ∀ x ∈ b.walk, x.tag = "text" → TextField x.fields)
    (required : Precedence) (s : Session) (hs : s.Reachable) :
    ∃ tokens tree,
      lex ((b.compileValue .standard required).run s).1.text = some tokens
      ∧ Derives required tokens tree
      ∧ (∀ other, Derives required tokens other → other = tree)
      ∧ Equiv tree (b.meaning ((b.compileValue .standard required).run s).2.nameOf) := by
  obtain ⟨-, -, hpost⟩ := compile_means b htext required s hs.valid
  obtain ⟨tree, ⟨tokens, hreads, hderives⟩, hequiv⟩ := (hpost _ (Session.agrees_nameOf _)).denotes
  refine ⟨tokens, tree, lex_of_scans _ (hreads.scans 0), hderives, fun other ho => ?_, hequiv⟩
  exact ho.unique hderives

/-- a choice, by a truth value kept as text, between a text joined of a text, two floats and a part that is missing,
and a comparison: of a difference whose right side is a difference, of a power of a negative number and a variable,
with a text -/
def sampleBlock : Block :=
  let number (id : String) (v : Json) : Block := ⟨id, "math_number", [("NUM", v)], [], [], none⟩
  let arithmetic (id op : String) (left right : Block) : Block :=
    ⟨id, "math_arithmetic", [("OP", .string op)], [("A", left), ("B", right)], [], none⟩
  let base := number "base" (.number (.whole (-2) (by decide)))
  let power := arithmetic "power" "POWER" base (number "exponent" Rule.Standard.ten)
  let level : Block := ⟨"level", "variables_get", [("VAR", .string "level")], [], [], none⟩
  let inner := arithmetic "inner" "MINUS" power level
  let outer := arithmetic "outer" "MINUS" (number "one" Rule.Standard.one) inner
  let label : Block := ⟨"label", "text", [("TEXT", .string "a + b")], [], [], none⟩
  let compared : Block :=
    ⟨"compared", "logic_compare", [("OP", .string "NEQ")], [("A", outer), ("B", label)], [], none⟩
  let joined : Block := ⟨"joined", "text_join", [("ITEMS", .ofNat 4)],
    [("ADD0", label), ("ADD1", number "small" (.ofFloat (-2.5e-7))), ("ADD2", number "tenth" (.string " 0.10 "))], [],
    none⟩
  let test : Block := ⟨"test", "logic_boolean", [("BOOL", .string "False")], [], [], none⟩
  ⟨"root", "logic_ternary", [], [("ELSE", compared), ("IF", test), ("THEN", joined)], [], none⟩

theorem compileValue_faithful_sampleBlock :
    let s := (Session.initial.identify "speed").2
    let result := (sampleBlock.compileValue .standard .sum).run s
    (∀ x ∈ sampleBlock.walk, x.tag = "text" → TextField x.fields) ∧ s.Reachable
    ∧ result.1.text = "(\"a + b\" + str(-2.5e-7) + str(0.1) + \"\" if False "
      ++ "else 1 - ((-2) ** 10 - level) != \"a + b\")"
    ∧ ∃ tokens tree, lex result.1.text = some tokens ∧ Derives .sum tokens tree
      ∧ (∀ other, Derives .sum tokens other → other = tree)
      ∧ Equiv tree (sampleBlock.meaning result.2.nameOf) :=
  ⟨by decide, .identify "speed" .initial, by decide +kernel,
    compileValue_faithful sampleBlock (by decide) .sum _ (.identify "speed" .initial)⟩

end Block

end VisualProgram
