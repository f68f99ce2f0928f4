import VisualProgram.Proofs.Program.Classes
import VisualProgram.Proofs.Program.Layout

/-!
# The docstring of a program

A program starts with a text in three quotes that holds the name, the version and the description of its
project.  `longText?` reads such a text: a backslash takes the next character with it, and the first three
quotes that are left to themselves close it.

`Inside cs contents` says that `cs` is passed over in search of these quotes, whatever follows, and that it
stands for `contents`.  A text that is `escaped` may end in one or two bare quotes, so it is `Inside` only
together with a character after it (`inside_escaped`); in the header there always is one, a blank or a newline.
So the docstring is closed by its last line and by nothing before it, and read back it has the texts of the
project unchanged (`docstring_closed`).
-/

namespace VisualProgram.Python

/-! ## reading texts in three quotes -/

/-- what is left of a text in three quotes, and what follows the quotes that close it -/
def closing? : List Char → Option (List Char × List Char)
  | '\\' :: c :: rest => (closing? rest).map fun r => ('\\' :: c :: r.1, r.2)
  | '"' :: '"' :: '"' :: rest => some ([], rest)
  | c :: rest => (closing? rest).map fun r => (c :: r.1, r.2)
  | [] => none

/-- the text in three quotes that some code starts with, and the code after it -/
def longText? : List Char → Option (List Char × List Char)
  | '"' :: '"' :: '"' :: rest => closing? rest
  | _ => none

/-- what a text in quotes stands for, if it escapes nothing but backslashes and quotes -/
def unescape? : List Char → Option (List Char)
  | '\\' :: c :: rest => if c = '\\' ∨ c = '"' then (unescape? rest).map (c :: ·) else none
  | c :: rest => if c = '\\' then none else (unescape? rest).map (c :: ·)
  | [] => some []

@[simp] theorem closing?_escape (c : Char) (rest : List Char) :
    closing? ('\\' :: c :: rest) = (closing? rest).map fun r => ('\\' :: c :: r.1, r.2) := by
  rw [closing?]

theorem closing?_cons {c : Char} (hslash : c ≠ '\\') {rest : List Char}
    (hquotes : c = '"' → ∀ more, rest ≠ '"' :: '"' :: more) :
    closing? (c :: rest) = (closing? rest).map fun r => (c :: r.1, r.2) := by
  rw [closing?]
  · intro _ _ hc
    exact absurd hc hslash
  · intro more hc hrest
    exact absurd hrest (hquotes hc more)

theorem unescape?_cons {c : Char} (h : c ≠ '\\') (rest : List Char) :
    unescape? (c :: rest) = (unescape? rest).map (c :: ·) := by
  rw [unescape?, if_neg h]
  intro _ _ hc
  exact absurd hc h

/-! ## texts that do not close it -/

/-- the text belongs to what is in the quotes, whatever follows, and stands for `contents` -/
structure Inside (cs contents : List Char) : Prop where
  closing : ∀ rest, closing? (cs ++ rest) = (closing? rest).map fun r => (cs ++ r.1, r.2)
  unescape : ∀ rest, unescape? (cs ++ rest) = (unescape? rest).map (contents ++ ·)

theorem inside_nil : Inside [] [] := ⟨fun _ => Option.map_id'.symm, fun _ => Option.map_id'.symm⟩

theorem Inside.append {a b x y : List Char} (ha : Inside a x) (hb : Inside b y) : Inside (a ++ b) (x ++ y) := by
  constructor
  · intro rest
    rw [List.append_assoc, ha.closing, hb.closing, Option.map_map]
    simp only [Function.comp_def, List.append_assoc]
  · intro rest
    rw [List.append_assoc, ha.unescape, hb.unescape, Option.map_map]
    simp only [Function.comp_def, List.append_assoc]

theorem inside_char {c : Char} (hquote : c ≠ '"') (hslash : c ≠ '\\') : Inside [c] [c] :=
  ⟨fun _ => closing?_cons hslash fun h => absurd h hquote, unescape?_cons hslash⟩

theorem inside_plain {cs : List Char} (h : cs.all (fun c => c ≠ '"' && c ≠ '\\') = true) : Inside cs cs := by
  induction cs with
  | nil => exact inside_nil
  | cons c cs ih =>
    rw [List.all_cons, Bool.and_eq_true, Bool.and_eq_true, decide_eq_true_iff, decide_eq_true_iff] at h
    exact (inside_char h.1.1 h.1.2).append (ih h.2)

theorem Inside.longText? {cs contents : List Char} (h : Inside cs contents) (rest : List Char) :
    longText? ('"' :: '"' :: '"' :: (cs ++ '"' :: '"' :: '"' :: rest)) = some (cs, rest) := by
  have hclosed : closing? ('"' :: '"' :: '"' :: rest) = some ([], rest) := by rw [closing?]
  rw [Python.longText?, h.closing, hclosed, Option.map_some, List.append_nil]

theorem Inside.unescape? {cs contents : List Char} (h : Inside cs contents) :
    unescape? cs = some contents := by
  have hall := h.unescape []
  rw [List.append_nil, Python.unescape?, Option.map_some, List.append_nil] at hall
  exact hall

end VisualProgram.Python

namespace VisualProgram.Program
open Python

/-! ## escaped texts -/

/-- a bare quote in front is one of the text itself -/
theorem quote_of_escaped {cs rest more : List Char} {c : Char} (hc : c ≠ '"')
    (h : escaped cs ++ c :: rest = '"' :: more) :
    ∃ tail, cs = '"' :: tail ∧ escaped tail ++ c :: rest = more := by
  fun_cases escaped cs with
  | case1 tail =>
    rw [escaped] at h
    exact absurd (List.cons.inj h).1 (by decide)
  | case2 tail =>
    rw [escaped] at h
    exact absurd (List.cons.inj h).1 (by decide)
  | case3 d tail htriple hslash =>
    rw [escaped] at h
    · obtain ⟨rfl, hmore⟩ := List.cons.inj h
      exact ⟨tail, rfl, hmore⟩
    · exact htriple
    · exact hslash
  | case4 => exact absurd (List.cons.inj h).1 hc

theorem inside_escaped (cs : List Char) {c : Char} (hquote : c ≠ '"') (hslash : c ≠ '\\') :
    Inside (escaped cs ++ [c]) (cs ++ [c]) := by
  constructor
  · intro rest
    rw [List.append_assoc, List.singleton_append]
    fun_induction escaped cs with
    | case1 tail ih => simp only [List.cons_append, closing?_escape, ih, Option.map_map, Function.comp_def]
    | case2 tail ih => simp only [List.cons_append, closing?_escape, ih, Option.map_map, Function.comp_def]
    | case3 d tail htriple hd ih =>
      -- two more bare quotes after this one would have been escaped together with it
      have hquotes : d = '"' → ∀ more, escaped tail ++ c :: rest ≠ '"' :: '"' :: more := by
        rintro rfl more hsecond
        obtain ⟨others, rfl, hthird⟩ := quote_of_escaped hquote hsecond
        obtain ⟨others, rfl, -⟩ := quote_of_escaped hquote hthird
        exact htriple others rfl rfl
      rw [List.cons_append, closing?_cons hd hquotes, ih, Option.map_map]
      rfl
    | case4 => exact (inside_char hquote hslash).closing rest
  · intro rest
    rw [List.append_assoc, List.singleton_append]
    fun_induction escaped cs with
    | case1 tail ih => simp [unescape?, ih, Function.comp_def]
    | case2 tail ih => simp [unescape?, ih, Function.comp_def]
    | case3 d tail htriple hd ih =>
      rw [List.cons_append, unescape?_cons hd, ih, Option.map_map]
      rfl
    | case4 => exact (inside_char hquote hslash).unescape rest

/-! ## the header -/

/-- the lines between the quotes -/
def docLines (info : Meta) : List Line :=
  [(0, docstringText info.name ++ " v" ++ docstringText info.version)]
    ++ (if info.description = "" then [] else [blank, (0, docstringText info.description)])
    ++ [blank, (0, "Generated from the project graph. Do not edit by hand.")]

/-- what the docstring says -/
def docContents (info : Meta) : String :=
  "\n" ++ (info.name ++ " v" ++ info.version ++ "\n")
    ++ (if info.description = "" then "" else "\n" ++ (info.description ++ "\n"))
    ++ ("\n" ++ ("Generated from the project graph. Do not edit by hand." ++ "\n"))

theorem header_eq (info : Meta) :
    header info = (0, "\"\"\"") :: docLines info ++ [(0, "\"\"\""), blank] := by
  simp only [header, docLines, List.append_assoc, List.cons_append, List.nil_append]

section
variable {unit : String}

theorem inside_line {text contents : String} (h : Inside (text.toList ++ ['\n']) contents.toList) :
    Inside (writeLines unit [(0, text)]).toList contents.toList := by
  rw [toList_writeLines_cons, Text.pad_zero]
  exact h

theorem inside_blank : Inside (writeLines unit [blank]).toList "\n".toList :=
  inside_line (inside_char (by decide) (by decide))

theorem toList_docstringText (text : String) : (docstringText text).toList = escaped text.toList :=
  String.toList_ofList.trans (docstring_eq text.toList)

variable (unit)

theorem inside_title (info : Meta) :
    Inside (writeLines unit [(0, docstringText info.name ++ " v" ++ docstringText info.version)]).toList
      (info.name ++ " v" ++ info.version ++ "\n").toList := by
  have hname := inside_escaped info.name.toList (c := ' ') (by decide) (by decide)
  have hversion := inside_escaped info.version.toList (c := '\n') (by decide) (by decide)
  have hline := (hname.append (inside_char (c := 'v') (by decide) (by decide))).append hversion
  refine inside_line ?_
  simp only [String.toList_append, toList_docstringText]
  simpa using hline

theorem inside_description (info : Meta) :
    Inside (writeLines unit (if info.description = "" then []
        else [blank, (0, docstringText info.description)])).toList
      (if info.description = "" then "" else "\n" ++ (info.description ++ "\n")).toList := by
  split
  next => exact inside_nil
  next =>
    have htext := inside_escaped info.description.toList (c := '\n') (by decide) (by decide)
    rw [← List.singleton_append, toList_writeLines_append, String.toList_append]
    refine inside_blank.append (inside_line ?_)
    rw [toList_docstringText, String.toList_append]
    exact htext

theorem inside_note (text : String) (h : text.toList.all (fun c => c ≠ '"' && c ≠ '\\') = true) :
    Inside (writeLines unit [blank, (0, text)]).toList ("\n" ++ (text ++ "\n")).toList := by
  rw [← List.singleton_append, toList_writeLines_append, String.toList_append]
  refine inside_blank.append (inside_line ?_)
  rw [String.toList_append]
  exact (inside_plain h).append (inside_char (by decide) (by decide))

theorem inside_docLines (info : Meta) :
    Inside ('\n' :: (writeLines unit (docLines info)).toList) (docContents info).toList := by
  have hlast := inside_note unit "Generated from the project graph. Do not edit by hand." (by decide)
  have htext := ((inside_title unit info).append (inside_description unit info)).append hlast
  rw [← toList_writeLines_append, ← toList_writeLines_append, ← docLines] at htext
  have hfirst : Inside ['\n'] "\n".toList := inside_char (by decide) (by decide)
  rw [docContents, String.append_assoc, String.append_assoc, String.toList_append]
  refine hfirst.append ?_
  rw [← String.append_assoc, String.toList_append, String.toList_append]
  exact htext

end

/-- the header of a program is one closed docstring: whatever the name, the version and the description of the
project are and whatever comes after the header, the text opened by the first line is closed by the last line of the
docstring and not before; what it says are the name and the version, the description if there is one, and the note
that the program is generated.  Every program starts with its header -/
theorem docstring_closed (info : Meta) (unit : String) :
    header info = (0, "\"\"\"") :: docLines info ++ [(0, "\"\"\""), blank]
    ∧ (∀ more, longText? ((writeLines unit (header info)).toList ++ more)
      = some ('\n' :: (writeLines unit (docLines info)).toList, '\n' :: '\n' :: more))
    ∧ unescape? ('\n' :: (writeLines unit (docLines info)).toList) = some (docContents info).toList
    ∧ ∀ (t : Toolchain) (g : Graph), ∃ rest,
      (compile t { g with info := info }).source = writeLines t.options.indent (header info) ++ rest := by
  have hinside := inside_docLines unit info
  refine ⟨header_eq info, fun more => ?_, hinside.unescape?, fun t g => ?_⟩
  · have hquotes : (writeLines unit [(0, "\"\"\"")]).toList = ['"', '"', '"', '\n'] := by
      rw [toList_writeLines_cons]
      rfl
    have hend : (writeLines unit [(0, "\"\"\""), blank]).toList = ['"', '"', '"', '\n', '\n'] := by
      rw [toList_writeLines_cons, toList_writeLines_cons]
      rfl
    rw [header_eq, ← List.singleton_append, toList_writeLines_append, toList_writeLines_append, hquotes, hend]
    simpa only [List.append_assoc, List.cons_append, List.nil_append] using hinside.longText? ('\n' :: '\n' :: more)
  · rw [source_compile]
    simp only [List.append_assoc, writeLines_append]
    exact ⟨_, rfl⟩

end VisualProgram.Program
