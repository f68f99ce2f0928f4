import VisualProgram.Proofs.Literal.Spelling
import VisualProgram.Proofs.Python.Snippet

/-!
# Literals in lines of code

Every literal is a snippet (`snippet_render`): texts keep newlines and returns behind escapes, and the
newlines of a container stand inside of its brackets.

Two facts hold for every unit of indentation that breaks no line: a literal has no empty line (`solid_render`),
and a literal at a deeper level is the one at level zero with its lines indented (`render_shift`, and
`render_deeper` where the unit is made of blanks).
-/

namespace VisualProgram.Python
open Text

/-! ## plain characters -/

/-- a character that means nothing to the lines of code -/
def isPlain (c : Char) : Bool :=
  c != '"' && c != '#' && !Mode.isOpening c && !Mode.isClosing c && c != '\n' && !Mode.isForeign c

theorem step_plain {c : Char} (h : isPlain c = true) (depth : Nat) :
    (Mode.code depth).step c = some (.code depth) := by
  simp only [isPlain, Bool.and_eq_true, bne_iff_ne, ne_eq, Bool.not_eq_true'] at h
  obtain ⟨⟨⟨⟨⟨hquote, hcomment⟩, hopening⟩, hclosing⟩, hnewline⟩, hforeign⟩ := h
  simp [Mode.step, Mode.stepCode, hquote, hcomment, hopening, hclosing, hnewline, hforeign]

theorem after_plain {cs : List Char} (h : ∀ c ∈ cs, isPlain c = true) (depth : Nat) :
    (Mode.code depth).after cs = some (.code depth) := by
  induction cs with
  | nil => rfl
  | cons c cs ih =>
    obtain ⟨hc, hcs⟩ := List.forall_mem_cons.mp h
    simp [step_plain hc, ih hcs]

theorem solid_plain {cs : List Char} (h : ∀ c ∈ cs, isPlain c = true) (hne : cs ≠ []) : Solid cs := by
  obtain ⟨c, cs, rfl⟩ := List.exists_cons_of_ne_nil hne
  refine solid_of_flat ?_ ?_
  · intro hr
    exact absurd (h '\r' hr) (by decide)
  · intro hn
    exact absurd (h '\n' hn) (by decide)

/-- characters without a colon that begin well -/
theorem snippet_plain {cs : List Char} (h : ∀ c ∈ cs, isPlain c = true) (hcolon : ':' ∉ cs)
    (hbegins : begins cs = true) : Snippet cs := by
  have hne : cs ≠ [] := by
    rintro rfl
    cases hbegins
  refine ⟨⟨_, after_plain h 0, Or.inl rfl⟩, solid_plain h hne, hbegins, fun hlast => ?_⟩
  exact hcolon (List.mem_of_getLast? hlast)

/-! ## words and numbers -/

theorem isPlain_of_word {c : Char} (h : isWordChar c = true) : isPlain c = true ∧ c ≠ ':' :=
  forall_ascii (p := fun c => isWordChar c = true → isPlain c = true ∧ c ≠ ':') (by decide)
    (toNat_lt_of_word h) h

theorem isWord_chars {cs : List Char} (h : isWord cs = true) : ∀ c ∈ cs, isWordChar c = true := by
  cases cs with
  | nil => simp
  | cons c cs =>
    rw [isWord, Bool.and_eq_true] at h
    exact List.all_eq_true.mp h.2

theorem snippet_word {s : String} (h : isWord s.toList = true) (hw : s ∉ headWords) :
    Snippet s.toList := by
  have hchars := isWord_chars h
  have hfirst : firstWord s.toList = s := by
    rw [firstWord, List.takeWhile_eq_self_iff.mpr hchars, String.ofList_toList]
  refine snippet_plain (fun c hc => (isPlain_of_word (hchars c hc)).1)
    (fun hc => (isPlain_of_word (hchars _ hc)).2 rfl) ?_
  cases hs : s.toList with
  | nil =>
    rw [hs] at h
    cases h
  | cons c cs =>
    rw [hs] at h hchars hfirst
    have hstart := hchars c List.mem_cons_self
    refine begins_cons.mpr ⟨?_, isBlank_of_word hstart, hfirst ▸ hw⟩
    rintro rfl
    cases hstart

theorem snippet_name {s : String} (h : IsName s) : Snippet s.toList := by
  refine snippet_word h.1 fun hw => ?_
  have key : ∀ w ∈ headWords, Assoc.get? w keywords ≠ none := by decide
  exact key s hw h.2

/-- the characters of numbers -/
def isNumeral (c : Char) : Bool := c.isDigit || c == '.' || c == '-' || c == 'e'

theorem isPlain_of_numeral {c : Char} (h : isNumeral c = true) : isPlain c = true ∧ c ≠ ':' := by
  simp only [isNumeral, Bool.or_eq_true, beq_iff_eq] at h
  rcases h with ((h | rfl) | rfl) | rfl
  · exact isPlain_of_word (by simp [isWordChar, Char.isAlphanum, h])
  all_goals decide

/-- no head starts with a digit or a sign -/
theorem snippet_numeral {c : Char} {cs : List Char} (hc : c.isDigit = true ∨ c = '-')
    (h : ∀ x ∈ c :: cs, isNumeral x = true) : Snippet (c :: cs) := by
  refine snippet_plain (fun x hx => (isPlain_of_numeral (h x hx)).1)
    (fun hx => (isPlain_of_numeral (h _ hx)).2 rfl) ?_
  rcases hc with hc | rfl
  · have hword : isWordChar c = true := by simp [isWordChar, Char.isAlphanum, hc]
    refine begins_cons.mpr ⟨?_, isBlank_of_word hword, fun hw => ?_⟩
    · rintro rfl
      cases hc
    · have key : ∀ w ∈ headWords, w.toList.head?.any Char.isDigit = false := by decide
      have hfirst := key _ hw
      rw [firstWord, String.toList_ofList, List.takeWhile_cons_of_pos hword, List.head?_cons,
        Option.any_some, hc] at hfirst
      cases hfirst
  · exact begins_cons.mpr ⟨by decide, by decide, firstWord_not_mem (by decide) cs⟩

theorem isNumeral_of_digits {cs : List Char} (h : AllDigits cs) : ∀ c ∈ cs, isNumeral c = true := by
  intro c hc
  simp [isNumeral, h c hc]

theorem isNumeral_of_float {cs : List Char} (h : IsFloat cs) : ∀ c ∈ cs, isNumeral c = true := by
  obtain ⟨whole, frac, expo, -, hw, hf, he, -⟩ := h
  have hfrac : ∀ c ∈ frac, isNumeral c = true := by
    cases hf with
    | absent => simp
    | point digits hd => exact List.forall_mem_cons.mpr ⟨rfl, isNumeral_of_digits hd⟩
  have hexpo : ∀ c ∈ expo, isNumeral c = true := by
    cases he with
    | absent => simp
    | mark sign digits hs hne hd =>
      refine List.forall_mem_cons.mpr ⟨rfl, List.forall_mem_append.mpr ⟨?_, isNumeral_of_digits hd⟩⟩
      rcases hs with rfl | rfl
      · simp
      · exact List.forall_mem_cons.mpr ⟨rfl, by simp⟩
  exact List.forall_mem_append.mpr
    ⟨isNumeral_of_digits hw, List.forall_mem_append.mpr ⟨hfrac, hexpo⟩⟩

theorem isNumeral_int (n : Int) : ∀ c ∈ (toString n).toList, isNumeral c = true := by
  have hdigits := isNumeral_of_digits (Decimal.allDigits_toDigits n.natAbs)
  rw [toList_int]
  split
  · exact List.forall_mem_cons.mpr ⟨rfl, hdigits⟩
  · exact hdigits

theorem isNumeral_float {x : Float} (h : x.isFinite = true) :
    ∀ c ∈ (Literal.float x).toList, isNumeral c = true := by
  obtain ⟨s, hs, htext⟩ := Decimal.float_spelling h
  rw [htext]
  split
  · exact List.forall_mem_cons.mpr ⟨rfl, isNumeral_of_float hs⟩
  · exact isNumeral_of_float hs

theorem snippet_int (n : Int) : Snippet (toString n).toList := by
  have hdigits := Decimal.allDigits_toDigits n.natAbs
  have hchars := isNumeral_int n
  rw [toList_int] at hchars ⊢
  split at hchars
  next hneg =>
    rw [if_pos hneg]
    exact snippet_numeral (Or.inr rfl) hchars
  next hpos =>
    rw [if_neg hpos]
    obtain ⟨c, cs, hcs⟩ := List.exists_cons_of_ne_nil (Nat.toDigits_ne_nil (b := 10) (n := n.natAbs))
    rw [hcs] at hchars hdigits ⊢
    exact snippet_numeral (Or.inl (hdigits c List.mem_cons_self)) hchars

theorem snippet_float {x : Float} (h : x.isFinite = true) : Snippet (Literal.float x).toList := by
  obtain ⟨s, hs, htext⟩ := Decimal.float_spelling h
  have hchars := isNumeral_float h
  rw [htext] at hchars ⊢
  split at hchars
  next hsign =>
    rw [if_pos hsign]
    exact snippet_numeral (Or.inr rfl) hchars
  next hsign =>
    rw [if_neg hsign]
    obtain ⟨c, tail, rfl, hc⟩ := hs.head
    exact snippet_numeral (Or.inl hc) hchars

theorem snippet_number (n : Number) : Snippet (Literal.number n).toList := by
  cases n with
  | whole n fits => exact snippet_int n
  | float x finite => exact snippet_float finite

theorem newline_not_mem_number (n : Number) : '\n' ∉ (Literal.number n).toList := by
  intro h
  cases n with
  | whole n fits => exact absurd (isNumeral_int n _ h) (by decide)
  | float x finite => exact absurd (isNumeral_float finite _ h) (by decide)

theorem snippet_absent : Snippet Literal.absent.toList := snippet_word (by decide) (by decide)

theorem snippet_truth (b : Bool) : Snippet (Literal.truth b).toList := by
  cases b <;> exact snippet_word (by decide) (by decide)

theorem newline_not_mem_absent : '\n' ∉ Literal.absent.toList := by decide

theorem newline_not_mem_truth (b : Bool) : '\n' ∉ (Literal.truth b).toList := by
  cases b <;> decide

/-! ## texts -/

/-- a character inside of a text that stands for itself -/
def isInner (c : Char) : Bool := c != '"' && c != '\\' && !Mode.isBreak c

theorem stepText_inner {c : Char} (h : isInner c = true) (depth : Nat) :
    Mode.stepText depth c = some (.text depth) := by
  simp only [isInner, Bool.and_eq_true, bne_iff_ne, ne_eq, Bool.not_eq_true'] at h
  simp [Mode.stepText, h]

/-- a character of a text is written as itself, or behind a backslash -/
theorem quoteChar_cases (c : Char) :
    (Literal.quoteChar c = [c] ∧ isInner c = true)
    ∨ ∃ x hex, Literal.quoteChar c = '\\' :: x :: hex ∧ Mode.isBreak x = false
      ∧ ∀ y ∈ hex, isInner y = true := by
  unfold Literal.quoteChar
  split_ifs with hback hquote hn hr ht hhex
  · exact Or.inr ⟨'\\', [], rfl, by decide, by simp⟩
  · exact Or.inr ⟨'"', [], rfl, by decide, by simp⟩
  · exact Or.inr ⟨'n', [], rfl, by decide, by simp⟩
  · exact Or.inr ⟨'r', [], rfl, by decide, by simp⟩
  · exact Or.inr ⟨'t', [], rfl, by decide, by simp⟩
  · have key : ∀ n < 128, (Json.hexText 2 n).all isInner = true := by decide
    exact Or.inr ⟨'x', _, rfl, by decide, List.all_eq_true.mp (key c.toNat (by omega))⟩
  · have hnull : c ≠ '\x00' := by
      rintro rfl
      exact hhex (Or.inl (by decide))
    exact Or.inl ⟨rfl, by simp [isInner, Mode.isBreak, hback, hquote, hn, hr, hnull]⟩

theorem after_inner {cs : List Char} (h : ∀ c ∈ cs, isInner c = true) (depth : Nat) :
    (Mode.text depth).after cs = some (.text depth) := by
  induction cs with
  | nil => rfl
  | cons c cs ih =>
    obtain ⟨hc, hcs⟩ := List.forall_mem_cons.mp h
    simp [Mode.step, stepText_inner hc, ih hcs]

theorem after_quoteChar (c : Char) (depth : Nat) :
    (Mode.text depth).after (Literal.quoteChar c) = some (.text depth)
    ∧ (Mode.opened depth).after (Literal.quoteChar c) = some (.text depth) := by
  rcases quoteChar_cases c with ⟨heq, hc⟩ | ⟨x, hex, heq, hx, hhex⟩
  · have hquote : c ≠ '"' := by
      rintro rfl
      cases hc
    rw [heq]
    refine ⟨after_inner (List.forall_mem_cons.mpr ⟨hc, by simp⟩) depth, ?_⟩
    rw [Mode.after_cons, Mode.step, if_neg hquote, stepText_inner hc]
    rfl
  · have hescaped : (Mode.escaped depth).after (x :: hex) = some (.text depth) := by
      rw [Mode.after_cons, Mode.step, if_neg (by simp [hx]), Option.bind_some, after_inner hhex]
    rw [heq]
    exact ⟨hescaped, hescaped⟩

theorem after_quoted (cs : List Char) (depth : Nat) :
    (Mode.text depth).after (cs.flatMap Literal.quoteChar) = some (.text depth) := by
  induction cs with
  | nil => rfl
  | cons c cs ih =>
    simp [(after_quoteChar c depth).1, ih]

theorem toList_quote (s : String) :
    (Literal.quote s).toList = '"' :: (s.toList.flatMap Literal.quoteChar ++ ['"']) := by
  rw [Literal.quote, String.toList_ofList]
  rfl

theorem rests_quote (s : String) : Rests (Literal.quote s).toList := by
  rw [toList_quote]
  cases s.toList with
  | nil => exact ⟨.closed 0, rfl, Or.inr rfl⟩
  | cons c cs =>
    refine ⟨.code 0, ?_, Or.inl rfl⟩
    show (Mode.opened 0).after (((c :: cs).flatMap Literal.quoteChar) ++ ['"']) = _
    rw [Mode.after_append, List.flatMap_cons, Mode.after_append, (after_quoteChar c 0).2,
      Option.bind_some, after_quoted, Option.bind_some]
    rfl

theorem not_mem_quote {x : Char} (hx : Mode.isBreak x = true) (s : String) :
    x ∉ (Literal.quote s).toList := by
  have hne : x ≠ '"' ∧ x ≠ '\\' := by
    constructor
    · rintro rfl
      cases hx
    · rintro rfl
      cases hx
  have hinner : isInner x = false := by simp [isInner, hx]
  have hchar : ∀ c, x ∉ Literal.quoteChar c := by
    intro c hmem
    rcases quoteChar_cases c with ⟨heq, hc⟩ | ⟨y, hex, heq, hy, hhex⟩
    · rw [heq, List.mem_singleton] at hmem
      rw [← hmem, hinner] at hc
      cases hc
    · rw [heq, List.mem_cons, List.mem_cons] at hmem
      rcases hmem with hmem | rfl | hmem
      · exact hne.2 hmem
      · rw [hy] at hx
        cases hx
      · rw [hhex x hmem] at hinner
        cases hinner
  rw [toList_quote, List.mem_cons, List.mem_append, List.mem_singleton, not_or, not_or]
  refine ⟨hne.1, fun hmem => ?_, hne.1⟩
  obtain ⟨c, -, hc⟩ := List.mem_flatMap.mp hmem
  exact hchar c hc

theorem snippet_quote (s : String) : Snippet (Literal.quote s).toList := by
  refine ⟨rests_quote s, ?_, ?_, ?_⟩
  · have hr := not_mem_quote (x := '\r') rfl s
    have hn := not_mem_quote (x := '\n') rfl s
    rw [toList_quote] at hr hn ⊢
    exact solid_of_flat hr hn
  · rw [toList_quote]
    exact begins_cons.mpr ⟨by decide, by decide, firstWord_not_mem (by decide) _⟩
  · rw [toList_quote, ← List.cons_append, List.getLast?_append]
    exact fun h => nomatch h

/-! ## containers -/

/-- a line inside of a container -/
structure IsElement (line : List Char) : Prop where
  rests : ∃ m, (Mode.code 1).after line = some m ∧ m.Resting 1
  solid : Solid line

theorem Snippet.element {cs : List Char} (h : Snippet cs) (n : Nat) :
    IsElement (List.replicate n ' ' ++ cs) := by
  have hblanks : ∀ c ∈ List.replicate n ' ', isPlain c = true := by
    intro c hc
    rw [List.eq_of_mem_replicate hc]
    rfl
  refine ⟨?_, solidFrom_blanks n h.solid true⟩
  rw [Mode.after_append, after_plain hblanks, Option.bind_some]
  exact h.rests.inside 1

theorem solid_intercalate {lines : List String} (hne : lines ≠ []) (h : ∀ line ∈ lines, Solid line.toList) :
    Solid (String.intercalate ",\n" lines).toList := by
  induction lines with
  | nil => exact absurd rfl hne
  | cons line rest ih =>
    obtain ⟨hline, hrest⟩ := List.forall_mem_cons.mp h
    cases rest with
    | nil =>
      rw [String.intercalate_singleton]
      exact hline
    | cons next more =>
      have hcomma : Solid (line.toList ++ [',']) := hline.append (by decide)
      have hbelow := hcomma.newline (ih (List.cons_ne_nil _ _) hrest)
      rw [String.intercalate_cons_cons, String.toList_append, String.toList_append, List.append_assoc]
      rw [List.append_assoc] at hbelow
      exact hbelow

/-- a newline may follow an element, or a comma and a newline -/
theorem isElement_intercalate {lines : List String} (hne : lines ≠ [])
    (h : ∀ line ∈ lines, IsElement line.toList) :
    IsElement (String.intercalate ",\n" lines).toList := by
  refine ⟨?_, solid_intercalate hne fun line hline => (h line hline).solid⟩
  induction lines with
  | nil => exact absurd rfl hne
  | cons line rest ih =>
    obtain ⟨hline, hrest⟩ := List.forall_mem_cons.mp h
    cases rest with
    | nil =>
      rw [String.intercalate_singleton]
      exact hline.rests
    | cons next more =>
      obtain ⟨m, hm, hresting⟩ := hline.rests
      rw [String.intercalate_cons_cons, String.toList_append, String.toList_append, List.append_assoc,
        Mode.after_append, hm, Option.bind_some]
      show ∃ m', m.after (',' :: '\n' :: _) = some m' ∧ _
      rw [hresting.after_eq (by decide)]
      exact ih (List.cons_ne_nil _ _) hrest

theorem toList_pad {unit : String} {n : Nat} (hu : unit.toList = List.replicate n ' ') (level : Nat) :
    (Text.pad unit level).toList = List.replicate (level * n) ' ' := by
  rw [Text.pad, String.toList_join]
  induction level with
  | zero => rw [Nat.zero_mul]; rfl
  | succ level ih =>
    rw [List.replicate_succ, List.flatMap_cons, ih, hu, List.replicate_append_replicate, Nat.succ_mul,
      Nat.add_comm]

/-- a bracket with its partner -/
inductive Brackets : String → String → Prop where
  | square : Brackets "[" "]"
  | curly : Brackets "\x7b" "\x7d"

namespace Brackets
variable {opening closing : String}

theorem after_opening (h : Brackets opening closing) :
    (Mode.code 0).after opening.toList = some (.code 1) := by cases h <;> rfl

theorem after_closing (h : Brackets opening closing) :
    (Mode.code 1).after closing.toList = some (.code 0) := by cases h <;> rfl

theorem solid (h : Brackets opening closing) : Solid opening.toList ∧ Solid closing.toList := by
  cases h <;> decide

theorem begins_append (h : Brackets opening closing) (rest : List Char) :
    begins (opening.toList ++ rest) = true := by
  cases h <;> exact begins_cons.mpr ⟨by decide, by decide, firstWord_not_mem (by decide) _⟩

theorem getLast?_append (h : Brackets opening closing) (front : List Char) :
    (front ++ closing.toList).getLast? ≠ some ':' := by
  rw [List.getLast?_append]
  cases h <;> exact fun h => nomatch h

end Brackets

theorem toList_enclose {lines : List String} (hne : lines ≠ []) (unit opening closing : String) (level : Nat) :
    (Json.enclose unit level opening closing lines).toList
      = opening.toList ++ '\n' :: ((String.intercalate ",\n" lines).toList
          ++ '\n' :: ((Text.pad unit level).toList ++ closing.toList)) := by
  cases lines with
  | nil => exact absurd rfl hne
  | cons line lines => simp [Json.enclose]

theorem solid_enclose {unit opening closing : String} (hr : '\r' ∉ unit.toList) (hn : '\n' ∉ unit.toList)
    (hb : Brackets opening closing) (level : Nat) {lines : List String}
    (h : ∀ line ∈ lines, Solid line.toList) :
    Solid (Json.enclose unit level opening closing lines).toList := by
  by_cases hne : lines = []
  · subst hne
    rw [Json.enclose, String.toList_append]
    exact hb.solid.1.append hb.solid.2
  · rw [toList_enclose hne]
    have hclosing := solidFrom_lead (not_mem_pad hr level) (not_mem_pad hn level) hb.solid.2 true
    exact hb.solid.1.newline ((solid_intercalate hne h).newline hclosing)

theorem snippet_enclose {unit opening closing : String} {n : Nat}
    (hu : unit.toList = List.replicate n ' ') (hb : Brackets opening closing) (level : Nat)
    {lines : List String} (h : ∀ line ∈ lines, IsElement line.toList) :
    Snippet (Json.enclose unit level opening closing lines).toList := by
  have hsolid : Solid (Json.enclose unit level opening closing lines).toList :=
    solid_enclose (hu ▸ return_not_mem_blanks n) (hu ▸ newline_not_mem_blanks n) hb level
      fun line hline => (h line hline).solid
  by_cases hne : lines = []
  · subst hne
    rw [Json.enclose, String.toList_append] at hsolid ⊢
    refine ⟨⟨.code 0, ?_, Or.inl rfl⟩, hsolid, hb.begins_append _, hb.getLast?_append _⟩
    rw [Mode.after_append_of hb.after_opening, hb.after_closing]
  · obtain ⟨m, hm, hresting⟩ := (isElement_intercalate hne h).rests
    rw [toList_enclose hne, toList_pad hu] at hsolid ⊢
    generalize (String.intercalate ",\n" lines).toList = body at hm hsolid ⊢
    have hblanks : (Mode.code 1).after (List.replicate (level * n) ' ') = some (.code 1) :=
      Mode.after_blanks (m := .code 1) rfl _
    have hend : m.after ('\n' :: (List.replicate (level * n) ' ' ++ closing.toList))
        = some (.code 0) := by
      rw [hresting.after_eq (by decide)]
      show (Mode.code 1).after (List.replicate (level * n) ' ' ++ closing.toList) = _
      rw [Mode.after_append_of hblanks, hb.after_closing]
    refine ⟨⟨.code 0, ?_, Or.inl rfl⟩, hsolid, hb.begins_append _, ?_⟩
    · rw [Mode.after_append_of hb.after_opening]
      show (Mode.code 1).after (body ++ _) = _
      rw [Mode.after_append_of hm, hend]
    · have hlast := hb.getLast?_append
        (opening.toList ++ '\n' :: (body ++ '\n' :: List.replicate (level * n) ' '))
      simpa using hlast

/-! ## values -/

section
variable {unit : String} {n : Nat} (hu : unit.toList = List.replicate n ' ')
include hu

mutual
theorem snippet_render (level : Nat) : (v : Json) → Snippet (Literal.render unit level v).toList
  | .null => snippet_absent
  | .bool b => snippet_truth b
  | .number n => snippet_number n
  | .string s => snippet_quote s
  | .array items => snippet_enclose hu .square level (isElement_items (level + 1) items)
  | .object members => snippet_enclose hu .curly level (isElement_members (level + 1) members)

theorem isElement_items (level : Nat) : (items : List Json) →
    ∀ line ∈ Json.spreadItems Literal.dialect unit level items, IsElement line.toList
  | [] => by
    intro line hline
    cases hline
  | v :: rest => by
    have hv := (snippet_render level v).element (level * n)
    rw [← toList_pad hu, ← String.toList_append] at hv
    rw [Json.spreadItems]
    exact List.forall_mem_cons.mpr ⟨hv, isElement_items level rest⟩

theorem isElement_members (level : Nat) : (members : List (String × Json)) →
    ∀ line ∈ Json.spreadMembers Literal.dialect unit level members, IsElement line.toList
  | [] => by
    intro line hline
    cases hline
  | (k, v) :: rest => by
    have hentry : List.Forall₂ Fills [none, some [':', ' '], none]
        [(Literal.quote k).toList, [':', ' '], (Literal.render unit level v).toList] :=
      .cons (snippet_quote k) (.cons rfl (.cons (snippet_render level v) .nil))
    have hv := (Shape.snippet (by decide) hentry).element (level * n)
    rw [← toList_pad hu] at hv
    have hline : IsElement
        (Text.pad unit level ++ Literal.quote k ++ ": " ++ Literal.render unit level v).toList := by
      simpa using hv
    rw [Json.spreadMembers]
    exact List.forall_mem_cons.mpr ⟨hline, isElement_members level rest⟩
end

end

/-! ## any unit of indentation -/

section
variable {unit : String} (hr : '\r' ∉ unit.toList) (hn : '\n' ∉ unit.toList)
include hr hn

theorem solid_padded (level : Nat) {line : String} (h : Solid line.toList) :
    Solid (Text.pad unit level ++ line).toList := by
  rw [String.toList_append]
  exact solidFrom_lead (not_mem_pad hr level) (not_mem_pad hn level) h true

mutual
theorem solid_render (level : Nat) : (v : Json) → Solid (Literal.render unit level v).toList
  | .null => snippet_absent.solid
  | .bool b => (snippet_truth b).solid
  | .number n => (snippet_number n).solid
  | .string s => (snippet_quote s).solid
  | .array items => solid_enclose hr hn .square level (solid_items (level + 1) items)
  | .object members => solid_enclose hr hn .curly level (solid_members (level + 1) members)

theorem solid_items (level : Nat) : (items : List Json) →
    ∀ line ∈ Json.spreadItems Literal.dialect unit level items, Solid line.toList
  | [] => List.forall_mem_nil _
  | v :: rest =>
    List.forall_mem_cons.mpr ⟨solid_padded hr hn level (solid_render level v), solid_items level rest⟩

theorem solid_members (level : Nat) : (members : List (String × Json)) →
    ∀ line ∈ Json.spreadMembers Literal.dialect unit level members, Solid line.toList
  | [] => List.forall_mem_nil _
  | (k, v) :: rest => by
    have hentry : Solid (Literal.quote k ++ (": " ++ Literal.render unit level v)).toList := by
      rw [String.toList_append, String.toList_append]
      exact (snippet_quote k).solid.append (Solid.append (by decide) (solid_render level v))
    have hline := solid_padded hr hn level hentry
    rw [← String.append_assoc, ← String.append_assoc] at hline
    exact List.forall_mem_cons.mpr ⟨hline, solid_members level rest⟩
end

end

/-! ## deeper values -/

/-- a line and the same line behind `lead`, as are the lines below it -/
def Shifted (lead : List Char) (line shifted : String) : Prop :=
  shifted.toList = lead ++ shift lead line.toList

theorem intercalate_shifted {lead : List Char} {lines shifted : List String}
    (h : List.Forall₂ (Shifted lead) lines shifted) (hne : lines ≠ []) :
    (String.intercalate ",\n" shifted).toList
      = lead ++ shift lead (String.intercalate ",\n" lines).toList := by
  induction h with
  | nil => exact absurd rfl hne
  | @cons line line' lines shifted hline hmore ih =>
    cases hmore with
    | nil =>
      rw [String.intercalate_singleton, String.intercalate_singleton]
      exact hline
    | cons hnext hmore =>
      have hcomma : shift lead ",\n".toList = ',' :: '\n' :: (lead ++ []) := rfl
      rw [String.intercalate_cons_cons, String.intercalate_cons_cons, String.toList_append,
        String.toList_append, String.toList_append, String.toList_append, ih (List.cons_ne_nil _ _),
        hline, shift_append, shift_append, hcomma]
      simp

section
variable {unit : String} (hn : '\n' ∉ unit.toList) (k : Nat)
include hn

theorem shifted_padded (level : Nat) {line line' : String}
    (h : line'.toList = shift (Text.pad unit k).toList line.toList) :
    Shifted (Text.pad unit k).toList (Text.pad unit level ++ line) (Text.pad unit (k + level) ++ line') := by
  simp [Shifted, pad_add, shift_flat (not_mem_pad hn level), h]

theorem enclose_shift {opening closing : String} (hb : Brackets opening closing) (level : Nat)
    {lines shifted : List String} (h : List.Forall₂ (Shifted (Text.pad unit k).toList) lines shifted) :
    (Json.enclose unit (k + level) opening closing shifted).toList
      = shift (Text.pad unit k).toList (Json.enclose unit level opening closing lines).toList := by
  have hflat : ∀ lead,
      shift lead opening.toList = opening.toList ∧ shift lead closing.toList = closing.toList := by
    intro lead
    cases hb <;> exact ⟨rfl, rfl⟩
  cases h with
  | nil =>
    show (opening ++ closing).toList = shift _ (opening ++ closing).toList
    simp [(hflat _).1, (hflat _).2]
  | cons hline hmore =>
    have hbody := intercalate_shifted (.cons hline hmore) (List.cons_ne_nil _ _)
    rw [toList_enclose (List.cons_ne_nil _ _), toList_enclose (List.cons_ne_nil _ _), hbody, shift_append,
      shift_newline, shift_append, shift_newline, shift_append, (hflat _).1, (hflat _).2,
      shift_flat (not_mem_pad hn level), pad_add, String.toList_append]
    simp only [List.append_assoc]

mutual
/-- a literal some levels deeper has the indentation of these levels after each of its newlines -/
theorem render_shift (level : Nat) : (v : Json) →
    (Literal.render unit (k + level) v).toList
      = shift (Text.pad unit k).toList (Literal.render unit level v).toList
  | .null => (shift_flat newline_not_mem_absent _).symm
  | .bool b => (shift_flat (newline_not_mem_truth b) _).symm
  | .number n => (shift_flat (newline_not_mem_number n) _).symm
  | .string s => (shift_flat (not_mem_quote rfl s) _).symm
  | .array items => enclose_shift hn k .square level (items_shifted (level + 1) items)
  | .object members => enclose_shift hn k .curly level (members_shifted (level + 1) members)

theorem items_shifted (level : Nat) : (items : List Json) →
    List.Forall₂ (Shifted (Text.pad unit k).toList) (Json.spreadItems Literal.dialect unit level items)
      (Json.spreadItems Literal.dialect unit (k + level) items)
  | [] => .nil
  | v :: rest => by
    exact .cons (shifted_padded hn k level (render_shift level v)) (items_shifted level rest)

theorem members_shifted (level : Nat) : (members : List (String × Json)) →
    List.Forall₂ (Shifted (Text.pad unit k).toList) (Json.spreadMembers Literal.dialect unit level members)
      (Json.spreadMembers Literal.dialect unit (k + level) members)
  | [] => .nil
  | (key, v) :: rest => by
    have hentry : (Literal.quote key ++ (": " ++ Literal.render unit (k + level) v)).toList
        = shift (Text.pad unit k).toList (Literal.quote key ++ (": " ++ Literal.render unit level v)).toList := by
      have hcolon : ∀ lead, shift lead ": ".toList = ": ".toList := fun lead => shift_flat (by decide) lead
      rw [String.toList_append, String.toList_append, String.toList_append, String.toList_append,
        shift_append, shift_append, shift_flat (not_mem_quote rfl key), hcolon, render_shift level v]
    have hline := shifted_padded hn k level hentry
    rw [← String.append_assoc, ← String.append_assoc, ← String.append_assoc,
      ← String.append_assoc] at hline
    exact .cons hline (members_shifted level rest)
end

end

theorem render_deeper {unit : String} {n : Nat} (hu : unit.toList = List.replicate n ' ') (level : Nat)
    (v : Json) :
    (Literal.render unit (level + 1) v).toList = deepen n (Literal.render unit level v).toList := by
  have hn : '\n' ∉ unit.toList := hu ▸ newline_not_mem_blanks n
  rw [Nat.add_comm, render_shift hn 1, toList_pad hu, Nat.one_mul, deepen_eq_shift]

end VisualProgram.Python
