import VisualProgram.Script.Site
import VisualProgram.Proofs.Literal.Layout
import VisualProgram.Proofs.Text.Insets

/-!
# Lines put into a text

A text of whole lines (`Lined`) can be cut from what follows it: its lines, and the lines of the rest, are
those of both (`lines_append`), and so for indenting.  `Inserted own extra a b` says that `b` is `a` with the
lines `extra` put in right after the lines `own`.  The same is true of the bodies that are made of `a` and `b`
if nothing in `extra` runs (`Inserted.asBody`): a body says `pass` for both or for none.
-/

namespace VisualProgram.Text

/-! ## whole lines -/

/-- nothing, or lines of which the last has its newline too -/
def Lined (text : String) : Prop := text = "" ∨ ∃ front, text = front ++ "\n"

@[simp] theorem lined_empty : Lined "" := .inl rfl

@[simp] theorem lined_newline (front : String) : Lined (front ++ "\n") := .inr ⟨front, rfl⟩

theorem Lined.append {a b : String} (ha : Lined a) (hb : Lined b) : Lined (a ++ b) := by
  rcases hb with rfl | ⟨front, rfl⟩
  · rw [String.append_empty]
    exact ha
  · exact .inr ⟨a ++ front, String.append_assoc.symm⟩

theorem lined_join {texts : List String} (h : ∀ text ∈ texts, Lined text) : Lined (String.join texts) := by
  induction texts with
  | nil => exact lined_empty
  | cons text rest ih =>
    obtain ⟨htext, hrest⟩ := List.forall_mem_cons.mp h
    rw [String.join_cons]
    exact htext.append (ih hrest)

theorem lined_indentLines (unit code : String) : Lined (indentLines unit code) := by
  refine lined_join fun text htext => ?_
  obtain ⟨line, -, rfl⟩ := List.mem_map.mp htext
  unfold indentLine
  split
  · exact lined_newline ""
  · exact lined_newline _

theorem lined_terminated (text : String) : Lined (terminated text) := by
  unfold terminated
  split
  next => exact lined_empty
  next =>
    split
    next hlast =>
      obtain ⟨front, hfront⟩ := List.getLast?_eq_some_iff.mp hlast
      refine .inr ⟨String.ofList front, ?_⟩
      rw [← String.toList_inj, String.toList_append, String.toList_ofList, hfront]
      rfl
    next => exact lined_newline text

theorem Lined.terminated {text : String} (h : Lined text) : terminated text = text := by
  rcases h with rfl | ⟨front, rfl⟩
  · rfl
  · have hlast : (front ++ "\n").toList.getLast? = some '\n' := by
      rw [String.toList_append]
      exact List.getLast?_concat
    have hne : front ++ "\n" ≠ "" := fun h => by
      rw [h] at hlast
      cases hlast
    rw [Text.terminated, if_neg hne, if_pos hlast]

theorem lines_append {a : String} (h : Lined a) (b : String) : lines (a ++ b) = lines a ++ lines b := by
  rcases h with rfl | ⟨front, rfl⟩
  · rw [String.empty_append]
    rfl
  · have hlines : ∀ rest : String, lines (front ++ "\n" ++ rest)
        = (physical front.toList).map dropReturn ++ lines rest := by
      intro rest
      have hlist : (front ++ "\n" ++ rest).toList = front.toList ++ '\n' :: rest.toList := by
        rw [String.toList_append, String.toList_append, List.append_assoc]
        rfl
      rw [lines, hlist, segments_append]
      exact linesOf_append _ _ _ _
    have hfront := hlines ""
    rw [String.append_empty, show lines "" = [] from rfl, List.append_nil] at hfront
    rw [hlines, hfront]

theorem indentLines_append (unit : String) {a : String} (h : Lined a) (b : String) :
    indentLines unit (a ++ b) = indentLines unit a ++ indentLines unit b := by
  rw [indentLines, lines_append h, List.map_append, String.join_append]
  rfl

/-! ## levels -/

/-- the code indented by some levels -/
def indented (unit : String) : Nat → String → String
  | 0, code => code
  | level + 1, code => indentLines unit (indented unit level code)

theorem Lined.indented {code : String} (h : Lined code) (unit : String) (level : Nat) :
    Lined (indented unit level code) := by
  cases level with
  | zero => exact h
  | succ level => exact lined_indentLines _ _

/-- a line that is not empty, with its newline -/
theorem lines_flat {line : String} (hne : line ≠ "") (hn : '\n' ∉ line.toList) (hr : '\r' ∉ line.toList) :
    lines (line ++ "\n") = [line.toList] := by
  have hsolid : Solid line.toList := by
    cases hline : line.toList with
    | nil => exact absurd (String.toList_eq_nil_iff.mp hline) hne
    | cons c cs =>
      rw [hline] at hn hr
      exact solid_of_flat hr hn
  have hlines := lines_line hsolid []
  rw [physical_flat hn, show lines (String.ofList []) = [] from rfl, List.append_nil] at hlines
  have htext : line ++ "\n" = String.ofList (line.toList ++ '\n' :: []) := by
    rw [← String.toList_inj, String.toList_append]
    exact String.toList_ofList.symm
  rw [htext]
  exact hlines

section
variable {unit : String} {n : Nat} (hu : unit.toList = List.replicate n ' ')
include hu

/-- a comment is one line on every level, and none that runs -/
theorem indented_comment {comment : String} (hn : '\n' ∉ comment.toList) (hr : '\r' ∉ comment.toList)
    (hmark : comment.toList.head? = some '#') (level : Nat) :
    indented unit level (comment ++ "\n") = pad unit level ++ comment ++ "\n"
      ∧ lines (pad unit level ++ comment ++ "\n") = [(pad unit level ++ comment).toList]
      ∧ isExecutable (pad unit level ++ comment).toList = false := by
  have hpad := Python.toList_pad hu
  obtain ⟨cs, hcs⟩ := List.head?_eq_some_iff.mp hmark
  have hflat : ∀ level, lines (pad unit level ++ comment ++ "\n") = [(pad unit level ++ comment).toList] := by
    intro level
    have hblank : ∀ c ∈ List.replicate (level * n) ' ', c = ' ' := fun c hc => List.eq_of_mem_replicate hc
    refine lines_flat (fun hempty => ?_) ?_ ?_
    · have hlist := congrArg String.toList hempty
      rw [String.toList_append, hcs] at hlist
      simp at hlist
    · rw [String.toList_append, hpad, List.mem_append, not_or]
      exact ⟨fun h => absurd (hblank _ h) (by decide), hn⟩
    · rw [String.toList_append, hpad, List.mem_append, not_or]
      exact ⟨fun h => absurd (hblank _ h) (by decide), hr⟩
  refine ⟨?_, hflat level, ?_⟩
  · induction level with
    | zero => simp [indented]
    | succ level ih =>
      have hne : (pad unit level ++ comment).toList ≠ [] := by rw [String.toList_append, hcs]; simp
      rw [indented, ih, Text.indentLines, hflat, List.map_singleton, indentLine, if_neg hne, String.ofList_toList,
        pad_succ, String.join_cons, String.join_nil]
      simp only [String.append_assoc, String.append_empty]
  · rw [String.toList_append, hpad, hcs]
    induction level * n with
    | zero => exact isExecutable_cons (by decide) cs
    | succ k ih =>
      rw [List.replicate_succ, List.cons_append, isExecutable_blank (by decide)]
      exact ih

end

/-! ## lines put in -/

/-- the second text is the first with `extra` put in after `own`, between two lines -/
def Inserted (own extra a b : String) : Prop :=
  ∃ pre post, Lined pre ∧ a = pre ++ own ++ post ∧ b = pre ++ own ++ extra ++ post

namespace Inserted
variable {own extra a b : String}

theorem prepend {front : String} (hf : Lined front) (h : Inserted own extra a b) :
    Inserted own extra (front ++ a) (front ++ b) := by
  obtain ⟨pre, post, hpre, rfl, rfl⟩ := h
  refine ⟨front ++ pre, post, hf.append hpre, ?_, ?_⟩
  · simp only [String.append_assoc]
  · simp only [String.append_assoc]

theorem append (h : Inserted own extra a b) (rest : String) : Inserted own extra (a ++ rest) (b ++ rest) := by
  obtain ⟨pre, post, hpre, rfl, rfl⟩ := h
  refine ⟨pre, post ++ rest, hpre, ?_, ?_⟩
  · simp only [String.append_assoc]
  · simp only [String.append_assoc]

/-- one of several parts, with newlines between them -/
theorem intercalate (h : Inserted own extra a b) (left right : List String) :
    Inserted own extra (String.intercalate "\n" (left ++ a :: right))
      (String.intercalate "\n" (left ++ b :: right)) := by
  induction left with
  | nil =>
    cases right with
    | nil => simpa only [List.nil_append, String.intercalate_singleton] using h
    | cons next right =>
      simp only [List.nil_append, String.intercalate_cons_cons, String.append_assoc]
      exact h.append _
  | cons first left ih =>
    have hstep : ∀ part, String.intercalate "\n" (first :: left ++ part :: right)
        = first ++ "\n" ++ String.intercalate "\n" (left ++ part :: right) := by
      intro part
      cases left <;> rw [List.cons_append] <;> exact String.intercalate_cons_cons
    rw [hstep, hstep]
    exact ih.prepend (lined_newline first)

theorem indentLines (unit : String) (hown : Lined own) (hextra : Lined extra) (h : Inserted own extra a b) :
    Inserted (Text.indentLines unit own) (Text.indentLines unit extra) (Text.indentLines unit a)
      (Text.indentLines unit b) := by
  obtain ⟨pre, post, hpre, rfl, rfl⟩ := h
  refine ⟨Text.indentLines unit pre, Text.indentLines unit post, lined_indentLines unit pre, ?_, ?_⟩
  · rw [indentLines_append unit (hpre.append hown), indentLines_append unit hpre]
  · rw [indentLines_append unit ((hpre.append hown).append hextra),
      indentLines_append unit (hpre.append hown), indentLines_append unit hpre]

theorem any_executable (hown : Lined own) (hextra : Lined extra) (hquiet : (lines extra).any isExecutable = false)
    (h : Inserted own extra a b) : (lines b).any isExecutable = (lines a).any isExecutable := by
  obtain ⟨pre, post, hpre, rfl, rfl⟩ := h
  rw [lines_append ((hpre.append hown).append hextra), lines_append (hpre.append hown), lines_append (hpre.append hown),
    List.any_append, List.any_append, List.any_append, hquiet, Bool.or_false]

theorem asBody (unit : String) (hown : Lined own) (hextra : Lined extra)
    (hquiet : (lines extra).any isExecutable = false) (h : Inserted own extra a b) :
    Inserted (Text.indentLines unit own) (Text.indentLines unit extra) (Site.asBody unit a) (Site.asBody unit b) := by
  rw [Site.asBody, Site.asBody, h.any_executable hown hextra hquiet]
  split
  · exact h.indentLines unit hown hextra
  · exact (h.append "pass\n").indentLines unit hown hextra

end Inserted

end VisualProgram.Text
