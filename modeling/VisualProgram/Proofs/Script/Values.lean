import VisualProgram.Proofs.Script.Readings
import VisualProgram.Proofs.Script.Session
import VisualProgram.Proofs.Script.Tables

/-!
# What the value rules yield

A rule sees a `Site`, the meaning of a block is made from a `Situation`.  `Site.Means` ties them
together: the same fields, and in each socket a compilation whose result denotes the tree there, at
whatever level it is asked for.  Under this, each kind of rule yields an expression that denotes what
the rule means, at the level the expression states.
-/

namespace VisualProgram
open Python

/-! ## placing -/

def Expr.Denotes (e : Expr) (m : Tree) : Prop := Python.Denotes e.level e.text.toList m

/-- the expression stands as it is where `required` is asked for -/
def Expr.Fits (e : Expr) (required : Precedence) (m : Tree) : Prop :=
  e.Denotes m ∧ e.level.rank ≤ required.rank

theorem Expr.Fits.denotes {e : Expr} {required : Precedence} {m : Tree} (h : e.Fits required m) :
    Python.Denotes required e.text.toList m := Python.Denotes.mono h.1 h.2

theorem Expr.Denotes.place {e : Expr} {m : Tree} (h : e.Denotes m) (required : Precedence) :
    (e.place required).Fits required m := by
  unfold Expr.place
  split
  next =>
    have hloose : e.level.rank ≤ Precedence.loosest.rank := by cases e.level <;> decide
    have hparen := (Python.Denotes.mono h hloose).paren
    exact ⟨by simpa [Expr.Denotes, Expr.atom] using hparen, Nat.zero_le _⟩
  next hfits => exact ⟨h, by simpa [Precedence.needsParens] using hfits⟩

theorem denotes_absent : Expr.absent.Denotes .none := spells_none.denotes

/-! ## sites -/

def Child.Means (child : Child) (m : (String → String) → Tree) : Prop :=
  ∀ required, Yields (child.value required) fun names e => e.Fits required (m names)

structure Site.Means (site : Site) (situation : (String → String) → Situation) : Prop where
  fields : ∀ names, (situation names).fields = site.fields
  names : ∀ names, (situation names).names = names
  sockets : ∀ names, Assoc.keys (situation names).operands = Assoc.keys site.inputs
  filled : ∀ socket child, Assoc.get? socket site.inputs = some child →
    ∃ m, child.Means m
      ∧ ∀ names, Assoc.get? socket (situation names).operands = some (child.tag, m names)

namespace Site
variable {site : Site} {situation : (String → String) → Situation}

theorem Means.empty (h : site.Means situation) {socket : String}
    (hs : Assoc.get? socket site.inputs = none) (names : String → String) :
    Assoc.get? socket (situation names).operands = none := by
  rw [Assoc.get?_eq_none_iff] at hs ⊢
  rwa [h.sockets]

/-- the fallback of a socket denotes its tree -/
def FallbackDenotes (unit : String) (fallback : Fallback) (t : Tree) : Prop :=
  Python.Denotes fallback.level (Literal.render unit 0 fallback.literal).toList t

theorem operand_yields (h : site.Means situation) (unit socket : String) (required : Precedence)
    (fallback : Fallback) :
    Yields (site.operand unit socket required fallback) fun names text =>
      ∀ t, FallbackDenotes unit fallback t →
        Python.Denotes required text.toList ((situation names).operand socket t) := by
  unfold Site.operand
  split
  next child hc =>
    obtain ⟨m, hm, hget⟩ := h.filled socket child hc
    refine (hm required).bind fun e => .pure fun names he t _ => ?_
    rw [Situation.operand, hget]
    exact he.denotes
  next hc =>
    refine .pure fun names t hf => ?_
    rw [Situation.operand, h.empty hc]
    exact (Expr.Denotes.place (e := fallback.toExpr unit) hf required).denotes

theorem report_yields (site : Site) (kind : Diagnostic.Kind) (message : String) :
    Yields (site.report kind message) fun _ _ => True := Yields.modify fun _ => rfl

/-! ## selected operators and functions -/

theorem select_yields {α β : Type} {R : α → β → Prop} (h : site.Means situation) (field noun : String)
    {table : List (String × α)} {first : String × β} {others : List (String × β)}
    (ht : Matches (fun _ => R) table (first :: others)) :
    Yields (site.select field noun table) fun names entry =>
      ∃ a, entry = some a ∧ R a ((situation names).select field first others) := by
  have hhead : ∃ a, table.head?.map Prod.snd = some a ∧ R a first.2 := by
    cases ht with
    | cons hxy _ => exact ⟨_, rfl, hxy.2⟩
  obtain ⟨a, hfirst, hr⟩ := hhead
  unfold Site.select
  split
  next hfield =>
    refine .pure fun names => ⟨a, hfirst, ?_⟩
    rw [Situation.select, h.fields, hfield]
    exact hr
  next name hfield =>
    rcases ht.get? name with ⟨hnone, hnone'⟩ | ⟨x, y, hx, hy, hxy⟩
    · rw [hnone]
      refine (report_yields site _ _).bind fun _ => .pure fun names _ => ⟨a, hfirst, ?_⟩
      rw [Situation.select, h.fields, hfield, Option.bind_some, hnone']
      exact hr
    · rw [hx]
      refine .pure fun names => ⟨x, rfl, ?_⟩
      rw [Situation.select, h.fields, hfield, Option.bind_some, hy]
      exact hxy

theorem operator_yields (h : site.Means situation) {unit : String} {table : OperatorTable} {t : Tree}
    {first : String × (Tree → Tree → Tree)} {others : List (String × (Tree → Tree → Tree))}
    (hf : FallbackDenotes unit table.fallback t)
    (ht : Matches (fun _ => Operator.Sound) table.operators (first :: others)) :
    Yields (site.operator unit table) fun names e =>
      e.Denotes ((situation names).select table.field first others
        ((situation names).operand table.leftSocket t)
        ((situation names).operand table.rightSocket t)) := by
  refine (select_yields h table.field "operator" ht).bind fun entry => ?_
  cases entry with
  | none =>
    refine .pure fun names hentry => ?_
    obtain ⟨a, ha, -⟩ := hentry
    cases ha
  | some op =>
    refine (operand_yields h unit table.leftSocket op.left table.fallback).bind fun left => ?_
    refine (operand_yields h unit table.rightSocket op.right table.fallback).bind fun right => ?_
    refine .pure fun names hright hleft hentry => ?_
    obtain ⟨a, ha, hsound⟩ := hentry
    cases ha
    have hd := hsound _ _ _ _ (hleft t hf) (hright t hf)
    simpa [Expr.Denotes] using hd

theorem require_yields (needs : Option String) : Yields (Site.require needs) fun _ _ => True := by
  cases needs with
  | none => exact .pure fun _ => trivial
  | some name => exact Yields.modify fun s => Session.identifiers_require s name

theorem function_yields (h : site.Means situation) {unit : String} {table : FunctionTable} {t : Tree}
    {first : String × (Tree → Tree)} {others : List (String × (Tree → Tree))}
    (hf : FallbackDenotes unit table.fallback t)
    (ht : Matches (fun _ => FunctionForm.Sound) table.forms (first :: others)) :
    Yields (site.function unit table) fun names e =>
      e.Denotes ((situation names).select table.field first others
        ((situation names).operand table.socket t)) := by
  refine (select_yields h table.field "function" ht).bind fun entry => ?_
  cases entry with
  | none =>
    refine .pure fun names hentry => ?_
    obtain ⟨a, ha, -⟩ := hentry
    cases ha
  | some form =>
    refine (require_yields form.needs).bind fun _ => ?_
    refine (operand_yields h unit table.socket form.operand table.fallback).bind fun operand => ?_
    refine .pure fun names hoperand _ hentry => ?_
    obtain ⟨a, ha, hsound⟩ := hentry
    cases ha
    have hd := hsound _ _ (hoperand t hf)
    simpa [Expr.Denotes] using hd

/-! ## numbers and truth values -/

theorem denotes_signed {text : String} {t : Tree} (h : Spells (numeralLevel text.toList) text.toList t) :
    (signed text).Denotes t := h.denotes

theorem denotes_zero : (signed "0").Denotes (.int 0) := denotes_signed (spells_nat 0)

/-- a text that is read as a number means the tree of it, any other text means zero -/
theorem number_of_text (text : String) :
    ∃ t, (∀ s : Situation, Assoc.get? "NUM" s.fields = some (.string text) → s.number = t)
      ∧ (∀ number, numberOfText? text = some number → Spells (numeralLevel number.toList) number.toList t)
      ∧ (numberOfText? text = none → t = .int 0) := by
  unfold numberOfText?
  cases hn : Decimal.integer? (Text.trim text.toList) with
  | some n =>
    refine ⟨.ofInt n, fun s hs => ?_, fun number hnumber => ?_, fun hnone => (by cases hnone)⟩
    · simp only [Situation.number, hs, ← integer?_eq_wholeNumber?, hn]
    · obtain rfl := Option.some.inj hnumber
      exact spells_int n
  | none =>
    cases hx : Decimal.float? (Text.trim text.toList) with
    | none =>
      refine ⟨.int 0, fun s hs => ?_, fun number hnumber => (by cases hnumber), fun _ => rfl⟩
      simp only [Situation.number, hs, ← integer?_eq_wholeNumber?, hn, hx]
    | some x =>
      dsimp only
      refine ⟨if x.isFinite then .ofFloat x else .int 0, fun s hs => ?_, fun number hnumber => ?_, fun hnone => ?_⟩
      · simp only [Situation.number, hs, ← integer?_eq_wholeNumber?, hn, hx]
      · obtain ⟨hfinite, hfloat⟩ := Option.ite_none_right_eq_some.mp hnumber
        obtain rfl := Option.some.inj hfloat
        rw [if_pos hfinite]
        exact spells_float hfinite
      · refine if_neg fun hfinite => ?_
        rw [if_pos hfinite] at hnone
        cases hnone

theorem number_yields (h : site.Means situation) :
    Yields site.number fun names e => e.Denotes (situation names).number := by
  have hfields : ∀ names, Assoc.get? "NUM" (situation names).fields = Assoc.get? "NUM" site.fields :=
    fun names => by rw [h.fields]
  unfold Site.number
  split
  next hf =>
    refine .pure fun names => ?_
    simp only [Situation.number, hfields, hf]
    exact denotes_zero
  next n hf =>
    refine .pure fun names => ?_
    simp only [Situation.number, hfields, hf]
    exact denotes_signed (spells_number n)
  next text hf =>
    obtain ⟨t, ht, hread, hunread⟩ := number_of_text text
    cases hn : numberOfText? text with
    | some number =>
      refine .pure fun names => ?_
      rw [ht _ ((hfields names).trans hf)]
      exact denotes_signed (hread number hn)
    | none =>
      refine (report_yields site _ _).bind fun _ => .pure fun names _ => ?_
      rw [ht _ ((hfields names).trans hf), hunread hn]
      exact denotes_zero
  next v hnum hstr hf =>
    refine (report_yields site _ _).bind fun _ => .pure fun names _ => ?_
    have hzero : (situation names).number = .int 0 := by
      unfold Situation.number
      rw [hfields, hf]
      cases v with
      | number n => exact absurd rfl (hnum n)
      | string s => exact absurd rfl (hstr s)
      | _ => rfl
    rw [hzero]
    exact denotes_zero

theorem truth_yields (h : site.Means situation) :
    Yields site.truth fun names e => e.Denotes (situation names).truthValue := by
  unfold Site.truth
  split
  next hf =>
    refine .pure fun names => ?_
    rw [Situation.truthValue, h.fields, hf]
    exact (spells_truth _).denotes
  next v hf =>
    have hvalue : ∀ names, (situation names).truthValue = .truth ((Field.toFlag? v).getD true) := by
      intro names
      rw [Situation.truthValue, h.fields, hf, toFlag?_eq]
      rfl
    cases hflag : Field.toFlag? v with
    | some b =>
      refine .pure fun names => ?_
      rw [hvalue, hflag]
      exact (spells_truth _).denotes
    | none =>
      refine (report_yields site _ _).bind fun _ => .pure fun names _ => ?_
      rw [hvalue, hflag]
      exact (spells_truth _).denotes

/-! ## joined text -/

theorem denotes_emptyText : (Expr.atom "\"\"").Denotes (.text "") := (spells_text "").denotes

theorem Situation.part_eq (s : Situation) (index : Nat) :
    s.part index = match Assoc.get? (slot "ADD" index) s.operands with
      | none => .text ""
      | some (tag, t) => if tag = "text" then t else .call (.name "str") [t] := rfl

theorem joinPart_yields (h : site.Means situation) (index : Nat) :
    Yields (site.joinPart index) fun names e => e.Fits .sum ((situation names).part index) := by
  unfold Site.joinPart
  split
  next hs =>
    refine .pure fun names => ?_
    rw [Situation.part_eq, h.empty hs]
    exact ⟨denotes_emptyText, by decide⟩
  next child hs =>
    obtain ⟨m, hm, hget⟩ := h.filled _ child hs
    split
    next htag =>
      refine (hm .sum).imp fun names e he => ?_
      simp only [Situation.part_eq, hget, htag, if_true]
      exact he
    next htag =>
      refine (hm .loosest).bind fun e => .pure fun names he => ?_
      have hstr : IsName "str" := by decide
      have hcall := he.denotes.call hstr.opens
      have hlevel : Precedence.call.rank ≤ Precedence.sum.rank := by decide
      simp only [Situation.part_eq, hget, if_neg htag]
      exact ⟨by simpa [Expr.Denotes] using hcall, hlevel⟩

theorem joinParts_yields (h : site.Means situation) (indices : List Nat) :
    Yields (site.joinParts indices) fun names parts =>
      List.Forall₂ (fun e t => e.Fits .sum t) parts (indices.map (situation names).part) := by
  induction indices with
  | nil => exact .pure fun _ => .nil
  | cons index rest ih =>
    refine (joinPart_yields h index).bind fun part => ih.bind fun more => ?_
    exact .pure fun names hmore hpart => .cons hpart hmore

/-- parts after a text that is a sum already -/
theorem denotes_intercalate {parts : List Expr} {trees : List Tree}
    (h : List.Forall₂ (fun e t => e.Fits .sum t) parts trees) :
    ∀ {text : String} {m : Tree}, Python.Denotes .sum text.toList m →
      Python.Denotes .sum (String.intercalate " + " (text :: parts.map Expr.text)).toList
        (trees.foldl (.binary .add) m) := by
  induction h with
  | nil =>
    intro text m hm
    rw [List.map_nil, String.intercalate_singleton]
    exact hm
  | @cons part tree parts trees hpart _ ih =>
    intro text m hm
    have hsum : Python.Denotes .sum (text ++ " + " ++ part.text).toList (.binary .add m tree) := by
      have hflat := Denotes.flat .add Infix.flat_add hm hpart.denotes
      simpa [spaced, Infix.spelling, Infix.level] using hflat
    have hmore := ih hsum
    rw [String.intercalate_cons_append] at hmore
    rw [List.map_cons, String.intercalate_cons_cons]
    exact hmore

theorem denotes_sumOf {parts : List Expr} {trees : List Tree}
    (h : List.Forall₂ (fun e t => e.Fits .sum t) parts trees) :
    (sumOf parts).Denotes (Situation.sumOf trees) := by
  cases h with
  | nil => exact denotes_emptyText
  | @cons first t rest ts hfirst hrest =>
    have hall := denotes_intercalate hrest hfirst.denotes
    cases hrest with
    | nil => exact hfirst.1
    | cons hnext hmore => exact hall

theorem clampSlots_yields (site : Site) (field : String) (wanted connected : Nat) :
    Yields (site.clampSlots field wanted connected) fun _ count =>
      count = min wanted (connected + spareSlots) := by
  simp only [Site.clampSlots]
  split
  next hle => exact .pure fun _ => (Nat.min_eq_left hle).symm
  next hgt =>
    refine (report_yields site _ _).bind fun _ => .pure fun _ _ => ?_
    exact (Nat.min_eq_right (Nat.le_of_lt (Nat.lt_of_not_le hgt))).symm

theorem join_yields (h : site.Means situation) :
    Yields site.join fun names e => e.Denotes (situation names).join := by
  refine (clampSlots_yields site _ _ _).bind fun count => ?_
  refine (joinParts_yields h (List.range count)).bind fun parts => .pure fun names hparts hcount => ?_
  have hslots : (Assoc.keys (situation names).operands).filterMap partNumber? = slotIndices "ADD" site.inputs := by
    rw [h.sockets, slotIndices]
    exact List.filterMap_congr fun name _ => (slotIndex?_eq_partNumber? name).symm
  have hpartCount : (situation names).partCount = count := by
    rw [hcount, pastGreatest_eq, Situation.partCount, hslots, h.fields]
    rfl
  rw [Situation.join, hpartCount]
  exact denotes_sumOf hparts

/-! ## templates -/

/-- what is known of the text of a piece -/
def PieceText (unit : String) (previous : Option Expr) (s : Situation) : Piece → List Char → Prop
  | .text text, cs => cs = text.toList
  | .operand socket level fallback, cs =>
    ∀ t, FallbackDenotes unit fallback t → Python.Denotes level cs (s.operand socket t)
  | .field name default, cs =>
    cs = (Literal.render unit 0 ((Assoc.get? name s.fields).getD default)).toList
  | .identifier _ _, _ => True
  | .variableName field, cs =>
    Python.Denotes .atomic cs (.name (s.names ((Field.text? field s.fields).getD "item")))
  | .previous level, cs => ∀ e, previous = some e → cs = (e.place level).text.toList

theorem renderPiece_yields (h : site.Means situation) (unit : String) (previous : Option Expr)
    (piece : Piece) :
    Yields (site.renderPiece unit previous piece) fun names text =>
      PieceText unit previous (situation names) piece text.toList := by
  cases piece with
  | text text => exact .pure fun _ => rfl
  | operand socket level fallback => exact operand_yields h unit socket level fallback
  | field name default =>
    refine .pure fun names => ?_
    rw [PieceText, h.fields]
  | identifier name default => exact .pure fun _ => trivial
  | variableName field =>
    refine (Yields.identify _).imp fun names identifier hi => ?_
    rw [PieceText, h.fields, h.names, hi.2]
    exact hi.1.spells.denotes
  | previous level =>
    cases previous with
    | none =>
      refine .pure fun names e he => ?_
      cases he
    | some e =>
      refine .pure fun names e' he => ?_
      cases he
      rfl

theorem renderPieces_yields (h : site.Means situation) (unit : String) (previous : Option Expr)
    (pieces : List Piece) :
    Yields (site.renderPieces unit previous pieces) fun names text =>
      ∃ parts, List.Forall₂ (PieceText unit previous (situation names)) pieces parts
        ∧ text.toList = parts.flatten := by
  induction pieces with
  | nil => exact .pure fun _ => ⟨[], .nil, rfl⟩
  | cons piece rest ih =>
    refine (renderPiece_yields h unit previous piece).bind fun text => ih.bind fun more => ?_
    refine .pure fun names hmore htext => ?_
    obtain ⟨parts, hparts, hflat⟩ := hmore
    refine ⟨text.toList :: parts, .cons htext hparts, ?_⟩
    rw [String.toList_append, hflat, List.flatten_cons]

/-- a template whose pieces always make up a text of its level that denotes `m` -/
def TemplateSound (unit : String) (template : Template) (previous : Option Expr)
    (s : Situation) (m : Tree) : Prop :=
  ∀ parts, List.Forall₂ (PieceText unit previous s) template.pieces parts →
    Python.Denotes template.level parts.flatten m

theorem render_yields (h : site.Means situation) (unit : String) (previous : Option Expr)
    (template : Template) :
    Yields (site.render unit previous template) fun names e =>
      ∀ m, TemplateSound unit template previous (situation names) m → e.Denotes m := by
  refine (renderPieces_yields h unit previous template.pieces).bind fun text => ?_
  refine .pure fun names hparts m hm => ?_
  obtain ⟨parts, hforall, htext⟩ := hparts
  rw [Expr.Denotes, htext]
  exact hm parts hforall

/-- a stage that makes `f m` from whatever `m` the stage before denotes -/
def StageSound (unit : String) (stage : Template) (f : Tree → Tree) : Prop :=
  ∀ s e m, e.Denotes m → TemplateSound unit stage (some e) s (f m)

theorem renderStages_yields (h : site.Means situation) {unit : String} {stages : List Template}
    {fs : List (Tree → Tree)} (hs : List.Forall₂ (StageSound unit) stages fs) (e : Expr) :
    Yields (site.renderStages unit (some e) stages) fun _ r =>
      ∀ m, e.Denotes m → r.Denotes (fs.foldl (fun t f => f t) m) := by
  induction hs generalizing e with
  | nil => exact .pure fun _ _ he => he
  | @cons stage f stages fs hstage _ ih =>
    refine (render_yields h unit (some e) stage).bind fun next => (ih next).imp ?_
    intro names r hr hnext m he
    exact hr (f m) (hnext (f m) (hstage (situation names) e m he))

theorem staged_yields (h : site.Means situation) {unit : String} {first : Template}
    {stages : List Template} {fs : List (Tree → Tree)} {m : Situation → Tree}
    (hfirst : ∀ s, TemplateSound unit first none s (m s))
    (hs : List.Forall₂ (StageSound unit) stages fs) :
    Yields (site.renderStages unit none (first :: stages)) fun names r =>
      r.Denotes (fs.foldl (fun t f => f t) (m (situation names))) := by
  refine (render_yields h unit none first).bind fun e => (renderStages_yields h hs e).imp ?_
  intro names r hr he
  exact hr _ (he _ (hfirst (situation names)))

end Site

end VisualProgram
