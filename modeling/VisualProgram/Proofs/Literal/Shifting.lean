import VisualProgram.Program
import VisualProgram.Proofs.Text.Insertion
import VisualProgram.Proofs.Text.Shown

/-!
# Literals at every level

A literal can be made at the level it will stand at, as in the program of a graph, or at level zero and be
indented with the code around it, line by line and level by level, as in the body of a block.  Both give the
same text, whatever the unit of indentation, as long as it breaks no line:

* `render_shift` (in the layout of literals) says what a deeper level does to a literal;
* `indentLines_writeLine` is one step of indenting, for a literal anywhere in a line of code;
* `indented_writeLine` is the whole way up from level zero.
-/

namespace VisualProgram.Literal
open Text

/-- flat texts around a solid one -/
theorem solid_around {front body back : List Char} (hfront : IsFlat front) (hbody : Solid body)
    (hback : IsFlat back) : Solid (front ++ body ++ back) := by
  have hend : solidFrom false back = true := by
    have hflat := solidFrom_flat hback.return_not_mem hback.newline_not_mem (b := []) rfl
    rwa [List.append_nil] at hflat
  have hstart : solidFrom true (front ++ body) = true :=
    solidFrom_lead hfront.return_not_mem hfront.newline_not_mem hbody true
  exact solidFrom_append hstart hend

theorem writeLine_eq (unit : String) (level : Nat) (text : String) :
    Program.writeLine unit (level, text)
      = String.ofList (((pad unit level).toList ++ text.toList) ++ '\n' :: []) := by
  apply String.toList_injective
  rw [Program.writeLine, String.toList_ofList, String.toList_append, String.toList_append]
  rfl

section
variable {unit : String} (hunit : IsFlat unit.toList) (v : Json) {front back : String}
  (hfront : IsFlat front.toList) (hback : IsFlat back.toList)
include hunit hfront hback

/-- the text of a literal in a line, one level deeper -/
theorem shift_around (level : Nat) :
    shift unit.toList (front ++ render unit level v ++ back).toList
      = (front ++ render unit (level + 1) v ++ back).toList := by
  have hunits : (pad unit 1).toList = unit.toList := by rw [pad_succ, pad_zero, String.append_empty]
  have hdeeper := Python.render_shift hunit.newline_not_mem 1 level v
  rw [hunits, Nat.add_comm] at hdeeper
  simp [shift_flat hfront.newline_not_mem, shift_flat hback.newline_not_mem, hdeeper]

theorem indentLines_writeLine (level : Nat) :
    indentLines unit (Program.writeLine unit (level, front ++ render unit level v ++ back))
      = Program.writeLine unit (level + 1, front ++ render unit (level + 1) v ++ back) := by
  have hr := hunit.return_not_mem
  have hn := hunit.newline_not_mem
  have htext : Solid (front ++ render unit level v ++ back).toList := by
    rw [String.toList_append, String.toList_append]
    exact solid_around hfront (Python.solid_render hr hn level v) hback
  have hline : Solid ((pad unit level).toList ++ (front ++ render unit level v ++ back).toList) :=
    solidFrom_lead (not_mem_pad hr level) (not_mem_pad hn level) htext true
  have hnone : (indentLines unit (String.ofList [])).toList = [] := rfl
  apply String.toList_injective
  rw [writeLine_eq, indentLines_shift unit hline, shift_append, shift_flat (not_mem_pad hn level),
    shift_around hunit v hfront hback, writeLine_eq, pad_succ, String.toList_ofList, hnone]
  simp only [String.toList_append, List.append_assoc]

theorem indented_writeLine (level : Nat) :
    indented unit level (front ++ render unit 0 v ++ back ++ "\n")
      = Program.writeLine unit (level, front ++ render unit level v ++ back) := by
  induction level with
  | zero => simp [indented, Program.writeLine]
  | succ level ih => rw [indented, ih, indentLines_writeLine hunit v hfront hback]

end

/-- a literal at a level is the literal at level zero with the indentation of the level after each newline, and
it is what indenting the lines of the literal at level zero gives, alone or within a line of code -/
theorem layout_shift_invariant {unit : String} (hunit : IsFlat unit.toList) (v : Json) :
    (∀ level, (render unit level v).toList = shift (pad unit level).toList (render unit 0 v).toList)
    ∧ indentLines unit (render unit 0 v ++ "\n") = unit ++ render unit 1 v ++ "\n"
    ∧ ∀ level (front back : String), IsFlat front.toList → IsFlat back.toList →
        indented unit level (front ++ render unit 0 v ++ back ++ "\n")
          = Program.writeLine unit (level, front ++ render unit level v ++ back) := by
  have hempty : IsFlat "".toList := by decide
  refine ⟨fun level => ?_, ?_, fun level front back hfront hback => ?_⟩
  · exact Python.render_shift hunit.newline_not_mem level 0 v
  · have hstep := indented_writeLine hunit v hempty hempty 1
    simpa [indented, Program.writeLine, pad_succ, pad_zero] using hstep
  · exact indented_writeLine hunit v hfront hback level

/-- a container in another, with a newline in a text -/
def nestedValue : Json := .object [("k", .array [.string "a\nb", .array []])]

theorem layout_shift_invariant_tabs :
    IsFlat "\t".toList ∧ IsFlat "x = ".toList
    ∧ render "\t" 0 nestedValue = "\x7b\n\t\"k\": [\n\t\t\"a\\nb\",\n\t\t[]\n\t]\n\x7d"
    ∧ (render "\t" 2 nestedValue).toList = shift "\t\t".toList (render "\t" 0 nestedValue).toList
    ∧ indentLines "\t" (render "\t" 0 nestedValue ++ "\n") = "\t" ++ render "\t" 1 nestedValue ++ "\n"
    ∧ indented "\t" 2 ("x = " ++ render "\t" 0 nestedValue ++ "" ++ "\n")
      = "\t\tx = \x7b\n\t\t\t\"k\": [\n\t\t\t\t\"a\\nb\",\n\t\t\t\t[]\n\t\t\t]\n\t\t\x7d\n" := by
  have hunit : IsFlat "\t".toList := by decide
  have hfront : IsFlat "x = ".toList := by decide
  obtain ⟨hshift, hstep, hwhole⟩ := layout_shift_invariant hunit nestedValue
  refine ⟨hunit, hfront, by decide +kernel, hshift 2, hstep, ?_⟩
  rw [hwhole 2 "x = " "" hfront (by decide)]
  decide +kernel

end VisualProgram.Literal
