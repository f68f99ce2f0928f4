import VisualProgram.Proofs.Text.Lines

/-!
# A piece of a line in a longer text

An inset is a text without newlines between two double quotes.  Whatever the lines of a text are used for,
an inset in it stays a piece of one line, and nothing around it depends on what is in it:

* `lines_inset`        one line holds it, the other lines are the same for all insets;
* `executable_inset`   whether some line runs is the same for all insets;
* `indentLines_inset`, `terminated_inset`  so are the texts around it after indenting and after a newline
                       has been added.
-/

namespace VisualProgram.Text

/-- a text without newlines between two double quotes -/
structure Inset (q : List Char) : Prop where
  flat : '\n' ∉ q
  first : q.head? = some '"'
  last : q.getLast? = some '"'

theorem Inset.ne_nil {q : List Char} (h : Inset q) : q ≠ [] := by
  rintro rfl
  cases h.first

/-! ## lines -/

@[simp] theorem physical_newline (cs : List Char) : physical ('\n' :: cs) = [] :: physical cs := rfl

theorem physical_ne {c : Char} (hc : c ≠ '\n') {cs first : List Char} {others : List (List Char)}
    (h : physical cs = first :: others) : physical (c :: cs) = (c :: first) :: others := by
  rw [physical, List.cons.injEq] at h
  rw [physical, segments_cons, if_neg hc, h.1, h.2]

theorem physical_flat_append {q : List Char} (hq : '\n' ∉ q) (post : List Char) :
    physical (q ++ post) = (q ++ (segments post).1) :: (segments post).2 := by
  induction q with
  | nil => rfl
  | cons c q ih =>
    rw [List.mem_cons, not_or] at hq
    exact physical_ne (Ne.symm hq.1) (ih hq.2)

/-- a flat text within a text is within one of its lines -/
theorem physical_inset (pre post : List Char) :
    ∃ before left right after, ∀ q, '\n' ∉ q →
      physical (pre ++ (q ++ post)) = before ++ (left ++ (q ++ right)) :: after := by
  induction pre with
  | nil => exact ⟨[], [], (segments post).1, (segments post).2, fun q hq => physical_flat_append hq post⟩
  | cons c pre ih =>
    obtain ⟨before, left, right, after, h⟩ := ih
    by_cases hc : c = '\n'
    · subst hc
      refine ⟨[] :: before, left, right, after, fun q hq => ?_⟩
      rw [List.cons_append, physical_newline, h q hq]
      rfl
    · cases before with
      | nil => exact ⟨[], c :: left, right, after, fun q hq => physical_ne hc (h q hq)⟩
      | cons first before => exact ⟨(c :: first) :: before, left, right, after,
          fun q hq => physical_ne hc (h q hq)⟩

/-- only what stands behind an inset can lose a return at the end of the line -/
theorem dropReturn_inset {q : List Char} (hq : Inset q) (left right : List Char) :
    dropReturn (left ++ (q ++ right)) = left ++ (q ++ dropReturn right) := by
  have hne : q ++ right ≠ [] := by simp [hq.ne_nil]
  unfold dropReturn
  by_cases hr : right = []
  · subst hr
    have hlast : (left ++ (q ++ [])).getLast? = some '"' := by
      rw [List.append_nil, List.getLast?_append, hq.last]
      rfl
    rw [hlast, if_neg (by decide), if_neg (by decide)]
  · have hlast : (left ++ (q ++ right)).getLast? = right.getLast? := by
      obtain ⟨c, hc⟩ := Option.isSome_iff_exists.mp (List.getLast?_isSome.mpr hr)
      rw [List.getLast?_append, List.getLast?_append, hc]
      rfl
    rw [hlast]
    split
    · rw [List.dropLast_append_of_ne_nil hne, List.dropLast_append_of_ne_nil hr]
    · rfl

/-- the lines of a text that ends with its last line -/
theorem linesOf_physical (before : List (List Char)) (line : List Char) (after : List (List Char))
    {cs : List Char} (h : physical cs = before ++ line :: after) :
    lines (String.ofList cs) = before.map dropReturn ++ linesOf line after := by
  rw [lines, String.toList_ofList]
  rw [physical] at h
  cases before with
  | nil =>
    rw [List.nil_append, List.cons.injEq] at h
    rw [h.1, h.2]
    rfl
  | cons first before =>
    rw [List.cons_append, List.cons.injEq] at h
    rw [h.1, h.2, linesOf_append]

theorem lines_inset (pre post : List Char) :
    ∃ before left right after, ∀ q, Inset q →
      lines (String.ofList (pre ++ (q ++ post))) = before ++ (left ++ (q ++ right)) :: after := by
  obtain ⟨before, left, right, after, h⟩ := physical_inset pre post
  cases after with
  | nil =>
    refine ⟨before.map dropReturn, left, right, [], fun q hq => ?_⟩
    have hne : left ++ (q ++ right) ≠ [] := by simp [hq.ne_nil]
    rw [linesOf_physical _ _ _ (h q hq.flat), linesOf, if_neg hne]
  | cons second after =>
    refine ⟨before.map dropReturn, left, dropReturn right, linesOf second after, fun q hq => ?_⟩
    rw [linesOf_physical _ _ _ (h q hq.flat), linesOf, dropReturn_inset hq]

/-! ## code that runs -/

theorem isExecutable_blank {c : Char} (hc : isBlank c = true) (cs : List Char) :
    isExecutable (c :: cs) = isExecutable cs := by
  have htrim : trimLeft (c :: cs) = trimLeft cs := List.dropWhile_cons_of_pos hc
  rw [isExecutable, isExecutable, trim, trim, htrim]

/-- an inset is no comment, and what stands before it decides whether it is in one -/
theorem isExecutable_inset (left right : List Char) :
    ∃ runs, ∀ q, Inset q → isExecutable (left ++ (q ++ right)) = runs := by
  induction left with
  | nil =>
    refine ⟨true, fun q hq => ?_⟩
    obtain ⟨rest, rfl⟩ := List.head?_eq_some_iff.mp hq.first
    exact isExecutable_cons (by decide) _
  | cons c left ih =>
    cases hc : isBlank c with
    | true =>
      obtain ⟨runs, h⟩ := ih
      exact ⟨runs, fun q hq => (isExecutable_blank hc _).trans (h q hq)⟩
    | false => exact ⟨c != '#', fun q _ => isExecutable_cons hc _⟩

/-! ## texts around an inset -/

section
variable (pre post : String)

theorem lines_around : ∃ before left right after, ∀ q : String, Inset q.toList →
    lines (pre ++ q ++ post) = before ++ (left ++ (q.toList ++ right)) :: after := by
  obtain ⟨before, left, right, after, h⟩ := lines_inset pre.toList post.toList
  refine ⟨before, left, right, after, fun q hq => ?_⟩
  rw [← h q.toList hq, ← String.toList_append, ← String.toList_append, String.ofList_toList,
    String.append_assoc]

theorem executable_inset : ∃ runs, ∀ q : String, Inset q.toList →
    (lines (pre ++ q ++ post)).any isExecutable = runs := by
  obtain ⟨before, left, right, after, h⟩ := lines_around pre post
  obtain ⟨runs, hruns⟩ := isExecutable_inset left right
  refine ⟨before.any isExecutable || (runs || after.any isExecutable), fun q hq => ?_⟩
  rw [h q hq, List.any_append, List.any_cons, hruns q.toList hq]

theorem indentLines_inset (unit : String) : ∃ pre' post', ∀ q : String, Inset q.toList →
    indentLines unit (pre ++ q ++ post) = pre' ++ q ++ post' := by
  obtain ⟨before, left, right, after, h⟩ := lines_around pre post
  refine ⟨String.join (before.map (indentLine unit)) ++ unit ++ String.ofList left,
    String.ofList right ++ "\n" ++ String.join (after.map (indentLine unit)), fun q hq => ?_⟩
  have hne : left ++ (q.toList ++ right) ≠ [] := by simp [hq.ne_nil]
  rw [indentLines, h q hq, List.map_append, List.map_cons, indentLine, if_neg hne]
  apply String.toList_injective
  simp [String.toList_join]

theorem terminated_inset : ∃ post', ∀ q : String, Inset q.toList →
    terminated (pre ++ q ++ post) = pre ++ q ++ post' := by
  have hne : ∀ q : String, Inset q.toList → pre ++ q ++ post ≠ "" := by
    intro q hq he
    have hq' : q.toList = [] := by
      have hnil : (pre ++ q ++ post).toList = [] := by rw [he]; rfl
      simp only [String.toList_append, List.append_eq_nil_iff] at hnil
      exact hnil.1.2
    exact hq.ne_nil hq'
  by_cases hpost : post.toList.getLast? = some '\n'
  · refine ⟨post, fun q hq => ?_⟩
    rw [terminated, if_neg (hne q hq), if_pos]
    rw [String.toList_append, List.getLast?_append, hpost]
    rfl
  · refine ⟨post ++ "\n", fun q hq => ?_⟩
    have hlast : (pre ++ q ++ post).toList.getLast? ≠ some '\n' := by
      rw [String.toList_append, String.toList_append, List.getLast?_append, List.getLast?_append,
        hq.last]
      cases hend : post.toList.getLast? with
      | none =>
        show some '"' ≠ some '\n'
        decide
      | some c =>
        rw [hend] at hpost
        exact hpost
    rw [terminated, if_neg (hne q hq), if_neg hlast]
    exact String.append_assoc

end

end VisualProgram.Text
