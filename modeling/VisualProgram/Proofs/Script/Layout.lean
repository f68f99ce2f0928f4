import VisualProgram.Script.Rules
import VisualProgram.Proofs.Literal.Layout
import VisualProgram.Proofs.Script.Session

/-!
# The texts of the value rules

`Leaves m post` is a logic of compilations beside `Yields`: from every session in which modules and
variables have names (`Session.Tidy`), `m` leaves such a session, and `post` holds of its result.

With it, every value rule whose fixed texts pass a check (`ValueRule.isLaid`) is seen to make a snippet,
if only snippets are in the sockets of its block: no user text that it takes up can end the line, open a
bracket or begin a comment.
-/

namespace VisualProgram
open Python

/-! ## sessions -/

/-- the modules and the variables of the session have names -/
structure Session.Tidy (s : Session) : Prop where
  imports : ∀ name ∈ s.imports, IsName name
  identifiers : ∀ v ∈ s.identifiers, IsName v.2

namespace Session

theorem tidy_initial : Session.initial.Tidy := ⟨by simp [initial], by simp [initial]⟩

theorem Tidy.valid {s : Session} (h : s.Tidy) : s.Valid :=
  fun _ _ hv => h.identifiers _ (Assoc.mem_of_get? hv)

theorem Tidy.identify {s : Session} (h : s.Tidy) (v : String) :
    (s.identify v).2.Tidy ∧ IsName (s.identify v).1 := by
  have hname := (identify_spec h.valid v).2.2.1
  refine ⟨?_, hname⟩
  unfold Session.identify at hname ⊢
  split
  next => exact h
  next hv =>
    simp only [hv] at hname
    refine ⟨h.imports, fun w hw => ?_⟩
    rcases List.mem_append.mp hw with hw | hw
    · exact h.identifiers w hw
    · rw [List.mem_singleton.mp hw]
      exact hname

theorem Tidy.require {s : Session} (h : s.Tidy) {name : String} (hname : IsName name) :
    (s.require name).Tidy := by
  unfold Session.require
  split
  next => exact h
  next =>
    refine ⟨fun other hother => ?_, h.identifiers⟩
    rcases List.mem_append.mp hother with hother | hother
    · exact h.imports other hother
    · rw [List.mem_singleton.mp hother]
      exact hname

end Session

/-! ## compilations -/

/-- what holds of the result of a compilation, from every tidy session -/
def Leaves {α : Type} (m : Script α) (post : α → Prop) : Prop :=
  ∀ s : Session, s.Tidy → (m.run s).2.Tidy ∧ post (m.run s).1

namespace Leaves
variable {α β : Type} {P Q : α → Prop} {R : β → Prop}

theorem pure {a : α} (h : P a) : Leaves (Pure.pure a) P := fun _ hs => ⟨hs, h⟩

theorem imp {m : Script α} (hm : Leaves m P) (h : ∀ a, P a → Q a) : Leaves m Q :=
  fun s hs => ⟨(hm s hs).1, h _ (hm s hs).2⟩

theorem bind {m : Script α} {k : α → Script β} (hm : Leaves m P) (hk : ∀ a, P a → Leaves (k a) R) :
    Leaves (m >>= k) R := by
  intro s hs
  obtain ⟨htidy, hp⟩ := hm s hs
  exact hk (m.run s).1 hp (m.run s).2 htidy

theorem identify (v : String) : Leaves (modifyGet (Session.identify v)) IsName :=
  fun _ hs => hs.identify v

theorem report (site : Site) (kind : Diagnostic.Kind) (message : String) :
    Leaves (site.report kind message) fun _ => True :=
  fun _ hs => ⟨⟨hs.imports, hs.identifiers⟩, trivial⟩

theorem require {needs : Option String} (h : ∀ name, needs = some name → IsName name) :
    Leaves (Site.require needs) fun _ => True := by
  cases needs with
  | none => exact .pure trivial
  | some name => exact fun _ hs => ⟨hs.require (h name rfl), trivial⟩

end Leaves

/-! ## what is fixed in a rule -/

def Operator.shape (op : Operator) : Shape := [none, some op.symbol.toList, none]

def FunctionForm.shape (form : FunctionForm) : Shape :=
  some form.opening.toList :: none :: if form.closing = "" then [] else [some form.closing.toList]

/-- the fixed text of a piece -/
def Piece.part : Piece → Option (List Char)
  | .text fixed => some fixed.toList
  | _ => none

def Template.shape (template : Template) : Shape := template.pieces.map Piece.part

/-- where a field is taken for an identifier, its default is one -/
def Piece.isLaid : Piece → Bool
  | .identifier _ default => decide (IsName default)
  | _ => true

def Template.isLaid (template : Template) : Bool :=
  template.pieces.all Piece.isLaid && template.shape.isSnippet

/-- the fixed texts of the rule make a snippet of the snippets between them -/
def ValueRule.isLaid : ValueRule → Bool
  | .operator table => table.operators.all fun entry => entry.2.shape.isSnippet
  | .function table => table.forms.all fun entry =>
    entry.2.shape.isSnippet && entry.2.needs.all fun name => decide (IsName name)
  | .template form => form.isLaid
  | .staged stages => stages.all Template.isLaid
  | .number | .truth | .join | .unknown => true

/-! ## operands -/

def Expr.IsSnippet (e : Expr) : Prop := Snippet e.text.toList

theorem Expr.IsSnippet.place {e : Expr} (h : e.IsSnippet) (required : Precedence) :
    (e.place required).IsSnippet := by
  unfold Expr.place
  split
  next =>
    have hparen := Shape.snippet (s := [some ['('], none, some [')']]) (by decide)
      (.cons rfl (.cons h (.cons rfl .nil)))
    simpa [Expr.IsSnippet, Expr.atom] using hparen
  next => exact h

theorem isSnippet_of_none : ∀ e : Expr, none = some e → e.IsSnippet := fun _ he => nomatch he

theorem isSnippet_absent : Expr.absent.IsSnippet := snippet_absent

/-- there are only snippets in the value sockets of the block -/
def Site.Fine (site : Site) : Prop :=
  ∀ socket child, Assoc.get? socket site.inputs = some child →
    ∀ required, Leaves (child.value required) Expr.IsSnippet

namespace Site
variable {site : Site}

theorem operand_leaves (h : site.Fine) {unit : String} {n : Nat}
    (hu : unit.toList = List.replicate n ' ') (socket : String) (required : Precedence)
    (fallback : Fallback) :
    Leaves (site.operand unit socket required fallback) fun text => Snippet text.toList := by
  unfold Site.operand
  split
  next child hc => exact (h socket child hc required).bind fun e he => .pure he
  next =>
    have hf : (fallback.toExpr unit).IsSnippet := snippet_render hu 0 fallback.literal
    exact .pure (hf.place required)

/-! ## selected operators and functions -/

theorem select_leaves {α : Type} (site : Site) (field noun : String) (table : List (String × α)) :
    Leaves (site.select field noun table) fun entry =>
      ∀ a, entry = some a → ∃ name, (name, a) ∈ table := by
  have hhead : ∀ a, table.head?.map Prod.snd = some a → ∃ name, (name, a) ∈ table := by
    intro a ha
    obtain ⟨entry, hentry, rfl⟩ := Option.map_eq_some_iff.mp ha
    exact ⟨entry.1, List.mem_of_head? hentry⟩
  unfold Site.select
  split
  next => exact .pure hhead
  next name _ =>
    split
    next entry hentry =>
      refine .pure fun a ha => ⟨name, ?_⟩
      rw [← Option.some.inj ha]
      exact Assoc.mem_of_get? hentry
    next => exact (Leaves.report site _ _).bind fun _ _ => .pure hhead

variable {unit : String} {n : Nat} (hu : unit.toList = List.replicate n ' ')
include hu

theorem operator_leaves (h : site.Fine) {table : OperatorTable}
    (ht : ∀ entry ∈ table.operators, entry.2.shape.isSnippet = true) :
    Leaves (site.operator unit table) Expr.IsSnippet := by
  refine (select_leaves site table.field "operator" table.operators).bind fun entry hentry => ?_
  cases entry with
  | none => exact .pure isSnippet_absent
  | some op =>
    obtain ⟨name, hmem⟩ := hentry op rfl
    refine (operand_leaves h hu table.leftSocket op.left table.fallback).bind fun left hleft => ?_
    refine (operand_leaves h hu table.rightSocket op.right table.fallback).bind fun right hright => ?_
    have hs := Shape.snippet (ht _ hmem) (.cons hleft (.cons rfl (.cons hright .nil)))
    exact .pure (by simpa [Expr.IsSnippet] using hs)

theorem function_leaves (h : site.Fine) {table : FunctionTable}
    (ht : ∀ entry ∈ table.forms, entry.2.shape.isSnippet = true
      ∧ ∀ name, entry.2.needs = some name → IsName name) :
    Leaves (site.function unit table) Expr.IsSnippet := by
  refine (select_leaves site table.field "function" table.forms).bind fun entry hentry => ?_
  cases entry with
  | none => exact .pure isSnippet_absent
  | some form =>
    obtain ⟨name, hmem⟩ := hentry form rfl
    obtain ⟨hshape, hneeds⟩ := ht _ hmem
    refine (Leaves.require hneeds).bind fun _ _ => ?_
    refine (operand_leaves h hu table.socket form.operand table.fallback).bind fun operand hop => ?_
    refine .pure ?_
    rw [FunctionForm.shape] at hshape
    split at hshape
    next hempty =>
      have hs := Shape.snippet hshape (.cons rfl (.cons hop .nil))
      have hclosing : form.closing.toList = [] := by rw [hempty]; rfl
      simpa [Expr.IsSnippet, hclosing] using hs
    next =>
      have hs := Shape.snippet hshape (.cons rfl (.cons hop (.cons rfl .nil)))
      simpa [Expr.IsSnippet] using hs

/-! ## numbers, truth values and joined text -/

omit hu

theorem snippet_numberOfText? {text number : String} (h : numberOfText? text = some number) :
    Snippet number.toList := by
  unfold numberOfText? at h
  split at h
  next n _ =>
    cases h
    exact snippet_int n
  next =>
    split at h
    next x _ =>
      split at h
      next hfinite =>
        cases h
        exact snippet_float hfinite
      next => cases h
    next => cases h

theorem number_leaves (site : Site) : Leaves site.number Expr.IsSnippet := by
  have hzero : (signed "0").IsSnippet := snippet_int 0
  unfold Site.number
  split
  next => exact .pure hzero
  next n _ => exact .pure (snippet_number n)
  next text _ =>
    split
    next number hn => exact .pure (snippet_numberOfText? hn)
    next => exact (Leaves.report site _ _).bind fun _ _ => .pure hzero
  next => exact (Leaves.report site _ _).bind fun _ _ => .pure hzero

theorem truth_leaves (site : Site) : Leaves site.truth Expr.IsSnippet := by
  unfold Site.truth
  split
  next => exact .pure (snippet_truth true)
  next v _ =>
    split
    next b _ => exact .pure (snippet_truth b)
    next => exact (Leaves.report site _ _).bind fun _ _ => .pure (snippet_truth true)

theorem isSnippet_emptyText : (Expr.atom "\"\"").IsSnippet := snippet_quote ""

theorem joinPart_leaves (h : site.Fine) (index : Nat) :
    Leaves (site.joinPart index) Expr.IsSnippet := by
  unfold Site.joinPart
  split
  next => exact .pure isSnippet_emptyText
  next child hc =>
    split
    next => exact h _ child hc .sum
    next =>
      refine (h _ child hc .loosest).bind fun e he => .pure ?_
      have hs := Shape.snippet (s := [some ['s', 't', 'r', '('], none, some [')']]) (by decide)
        (.cons rfl (.cons he (.cons rfl .nil)))
      simpa [Expr.IsSnippet] using hs

theorem joinParts_leaves (h : site.Fine) (indices : List Nat) :
    Leaves (site.joinParts indices) fun parts => ∀ part ∈ parts, part.IsSnippet := by
  induction indices with
  | nil => exact .pure (List.forall_mem_nil _)
  | cons index rest ih =>
    refine (joinPart_leaves h index).bind fun part hpart => ih.bind fun more hmore => ?_
    exact .pure (List.forall_mem_cons.mpr ⟨hpart, hmore⟩)

theorem snippet_intercalate {part : Expr} (hpart : part.IsSnippet) {parts : List Expr}
    (h : ∀ other ∈ parts, other.IsSnippet) :
    Snippet (String.intercalate " + " ((part :: parts).map Expr.text)).toList := by
  induction parts generalizing part with
  | nil =>
    rw [List.map_singleton, String.intercalate_singleton]
    exact hpart
  | cons next parts ih =>
    obtain ⟨hnext, hparts⟩ := List.forall_mem_cons.mp h
    have hs := Shape.snippet (s := [none, some [' ', '+', ' '], none]) (by decide)
      (.cons hpart (.cons rfl (.cons (ih hnext hparts) .nil)))
    rw [List.map_cons, List.map_cons, String.intercalate_cons_cons, ← List.map_cons]
    simpa using hs

theorem isSnippet_sumOf {parts : List Expr} (h : ∀ part ∈ parts, part.IsSnippet) :
    (sumOf parts).IsSnippet := by
  match parts with
  | [] => exact isSnippet_emptyText
  | [part] => exact h part List.mem_cons_self
  | part :: next :: rest =>
    obtain ⟨hpart, hrest⟩ := List.forall_mem_cons.mp h
    exact snippet_intercalate hpart hrest

theorem clampSlots_leaves (site : Site) (field : String) (wanted connected : Nat) :
    Leaves (site.clampSlots field wanted connected) fun count =>
      count = min wanted (connected + spareSlots) := by
  simp only [Site.clampSlots]
  split
  next hle => exact .pure (Nat.min_eq_left hle).symm
  next hgt =>
    refine (Leaves.report site _ _).bind fun _ _ => .pure ?_
    exact (Nat.min_eq_right (Nat.le_of_lt (Nat.lt_of_not_le hgt))).symm

theorem join_leaves (h : site.Fine) : Leaves site.join Expr.IsSnippet :=
  (clampSlots_leaves site _ _ _).bind fun count _ =>
    (joinParts_leaves h (List.range count)).bind fun _ hparts => .pure (isSnippet_sumOf hparts)

/-! ## templates -/

include hu

theorem renderPiece_leaves (h : site.Fine) {previous : Option Expr}
    (hprevious : ∀ e, previous = some e → e.IsSnippet) {piece : Piece} (hpiece : piece.isLaid = true) :
    Leaves (site.renderPiece unit previous piece) fun text => Fills piece.part text.toList := by
  cases piece with
  | text text => exact .pure rfl
  | operand socket level fallback => exact operand_leaves h hu socket level fallback
  | field name default => exact .pure (snippet_render hu 0 _)
  | identifier name default =>
    have hdefault : IsName default := of_decide_eq_true hpiece
    exact .pure (snippet_name (Identifier.isName_ofLabel hdefault _ _))
  | variableName field => exact (Leaves.identify _).imp fun _ hname => snippet_name hname
  | previous level =>
    cases previous with
    | none => exact .pure snippet_absent
    | some e => exact .pure ((hprevious e rfl).place level)

theorem renderPieces_leaves (h : site.Fine) {previous : Option Expr}
    (hprevious : ∀ e, previous = some e → e.IsSnippet) {pieces : List Piece}
    (hpieces : ∀ piece ∈ pieces, piece.isLaid = true) :
    Leaves (site.renderPieces unit previous pieces) fun text =>
      ∃ parts, List.Forall₂ Fills (pieces.map Piece.part) parts ∧ text.toList = parts.flatten := by
  induction pieces with
  | nil => exact .pure ⟨[], .nil, rfl⟩
  | cons piece rest ih =>
    obtain ⟨hpiece, hrest⟩ := List.forall_mem_cons.mp hpieces
    refine (renderPiece_leaves hu h hprevious hpiece).bind fun text htext => ?_
    refine (ih hrest).bind fun more hmore => .pure ?_
    obtain ⟨parts, hparts, hflat⟩ := hmore
    refine ⟨text.toList :: parts, .cons htext hparts, ?_⟩
    rw [String.toList_append, hflat, List.flatten_cons]

theorem render_leaves (h : site.Fine) {previous : Option Expr}
    (hprevious : ∀ e, previous = some e → e.IsSnippet) {template : Template}
    (ht : template.isLaid = true) :
    Leaves (site.render unit previous template) Expr.IsSnippet := by
  rw [Template.isLaid, Bool.and_eq_true, List.all_eq_true] at ht
  refine (renderPieces_leaves hu h hprevious ht.1).bind fun text htext => .pure ?_
  obtain ⟨parts, hparts, hflat⟩ := htext
  rw [Expr.IsSnippet, hflat]
  exact Shape.snippet ht.2 hparts

theorem renderStages_leaves (h : site.Fine) {previous : Option Expr}
    (hprevious : ∀ e, previous = some e → e.IsSnippet) {stages : List Template}
    (hs : ∀ stage ∈ stages, stage.isLaid = true) :
    Leaves (site.renderStages unit previous stages) Expr.IsSnippet := by
  induction stages generalizing previous with
  | nil =>
    cases previous with
    | none => exact .pure isSnippet_absent
    | some e => exact .pure (hprevious e rfl)
  | cons stage rest ih =>
    obtain ⟨hstage, hrest⟩ := List.forall_mem_cons.mp hs
    refine (render_leaves hu h hprevious hstage).bind fun e he => ih (fun other ho => ?_) hrest
    rw [← Option.some.inj ho]
    exact he

/-! ## rules -/

/-- a rule with proper fixed texts makes snippets of snippets -/
theorem valueRule_leaves (h : site.Fine) {rule : ValueRule} (hr : rule.isLaid = true) :
    Leaves (rule.run unit site) Expr.IsSnippet := by
  cases rule with
  | operator table => exact operator_leaves hu h (List.all_eq_true.mp hr)
  | function table =>
    refine function_leaves hu h fun entry hentry => ?_
    have hform := List.all_eq_true.mp hr entry hentry
    rw [Bool.and_eq_true] at hform
    refine ⟨hform.1, fun name hname => ?_⟩
    have hneeds := hform.2
    rw [hname] at hneeds
    exact of_decide_eq_true hneeds
  | number => exact number_leaves site
  | truth => exact truth_leaves site
  | join => exact join_leaves h
  | template template => exact render_leaves hu h isSnippet_of_none hr
  | staged stages => exact renderStages_leaves hu h isSnippet_of_none (List.all_eq_true.mp hr)
  | unknown => exact (Leaves.report site _ _).bind fun _ _ => .pure isSnippet_absent

end Site

end VisualProgram
