import VisualProgram.Text.Lines
import Mathlib.Data.List.Basic

/-!
# Indenting text that is already there

Code is indented by putting a unit in front of its lines, level by level, after it has been made.  For
a text of several lines that is `shift`: the unit after each of its newlines.  `indentLines_shift` says
so for a text with no empty line (`Solid`) at the front of a longer one.  Where the unit is made of blanks
the shift is `deepen`, and `dedent` takes the blanks away again.

Whether code runs is told from its lines; a text that begins with no blank runs exactly if it does not
begin with `#` (`isExecutable_cons`).
-/

namespace VisualProgram.Text

/-! ## blanks around a text -/

theorem trimLeft_pad {pad text : List Char} (hpad : pad.all isBlank = true)
    (htext : ∀ c ∈ text, isBlank c = false) (rest : List Char) (hne : text ≠ []) :
    trimLeft (pad ++ (text ++ rest)) = text ++ rest := by
  obtain ⟨c, cs, rfl⟩ := List.exists_cons_of_ne_nil hne
  have hc : isBlank c = false := htext c List.mem_cons_self
  unfold trimLeft
  rw [List.dropWhile_append_of_pos (List.all_eq_true.mp hpad)]
  exact List.dropWhile_cons_of_neg (by simp [hc])

/-- blanks around a text without blanks are cut off -/
theorem trim_pad {before text after : List Char} (hbefore : before.all isBlank = true)
    (hafter : after.all isBlank = true) (htext : ∀ c ∈ text, isBlank c = false) (hne : text ≠ []) :
    trim (before ++ (text ++ after)) = text := by
  have hback : trimLeft (after.reverse ++ (text.reverse ++ [])) = text.reverse ++ [] :=
    trimLeft_pad (by rwa [List.all_reverse]) (fun c hc => htext c (List.mem_reverse.mp hc)) []
      (by rwa [ne_eq, List.reverse_eq_nil_iff])
  rw [List.append_nil] at hback
  rw [trim, trimLeft_pad hbefore htext after hne, List.reverse_append, hback, List.reverse_reverse]

/-! ## deeper and back -/

/-- a text after every newline -/
def shift (lead cs : List Char) : List Char :=
  cs.flatMap fun c => if c = '\n' then '\n' :: lead else [c]

/-- blanks after every newline -/
def deepen (n : Nat) (cs : List Char) : List Char :=
  cs.flatMap fun c => if c = '\n' then '\n' :: List.replicate n ' ' else [c]

/-- without the blanks after newlines, `n` at most for each; `left` are still to go -/
def dedentFrom (n : Nat) : Nat → List Char → List Char
  | _, [] => []
  | left, c :: cs =>
    if c = '\n' then '\n' :: dedentFrom n n cs
    else if c = ' ' ∧ 0 < left then dedentFrom n (left - 1) cs
    else c :: dedentFrom n 0 cs

def dedent (n : Nat) (cs : List Char) : List Char := dedentFrom n 0 cs

@[simp] theorem shift_newline (lead cs : List Char) : shift lead ('\n' :: cs) = '\n' :: (lead ++ shift lead cs) := rfl

theorem shift_cons {c : Char} (h : c ≠ '\n') (lead cs : List Char) :
    shift lead (c :: cs) = c :: shift lead cs := by
  rw [shift, List.flatMap_cons, if_neg h]
  rfl

@[simp] theorem shift_append (lead a b : List Char) : shift lead (a ++ b) = shift lead a ++ shift lead b :=
  List.flatMap_append

theorem shift_flat {cs : List Char} (h : '\n' ∉ cs) (lead : List Char) : shift lead cs = cs := by
  induction cs with
  | nil => rfl
  | cons c cs ih =>
    rw [List.mem_cons, not_or] at h
    rw [shift_cons (Ne.symm h.1), ih h.2]

theorem shift_shift {inner : List Char} (h : '\n' ∉ inner) (outer cs : List Char) :
    shift outer (shift inner cs) = shift (outer ++ inner) cs := by
  induction cs with
  | nil => rfl
  | cons c cs ih =>
    by_cases hc : c = '\n'
    · subst hc
      simp [shift_flat h, ih]
    · rw [shift_cons hc, shift_cons hc, shift_cons hc, ih]

/-! ## deeper by blanks -/

theorem deepen_eq_shift (n : Nat) (cs : List Char) : deepen n cs = shift (List.replicate n ' ') cs := rfl

@[simp] theorem deepen_newline (n : Nat) (cs : List Char) :
    deepen n ('\n' :: cs) = '\n' :: (List.replicate n ' ' ++ deepen n cs) := rfl

theorem deepen_cons {c : Char} (h : c ≠ '\n') (n : Nat) (cs : List Char) :
    deepen n (c :: cs) = c :: deepen n cs := shift_cons h _ cs

@[simp] theorem deepen_append (n : Nat) (a b : List Char) : deepen n (a ++ b) = deepen n a ++ deepen n b :=
  List.flatMap_append

theorem deepen_flat {cs : List Char} (h : '\n' ∉ cs) (n : Nat) : deepen n cs = cs := shift_flat h _

@[simp] theorem deepen_zero (cs : List Char) : deepen 0 cs = cs := by
  induction cs with
  | nil => rfl
  | cons c cs ih =>
    by_cases hc : c = '\n'
    · subst hc
      rw [deepen_newline, ih]
      rfl
    · rw [deepen_cons hc, ih]

theorem newline_not_mem_blanks (n : Nat) : '\n' ∉ List.replicate n ' ' := by
  intro h
  exact absurd (List.eq_of_mem_replicate h) (by decide)

theorem return_not_mem_blanks (n : Nat) : '\r' ∉ List.replicate n ' ' := by
  intro h
  exact absurd (List.eq_of_mem_replicate h) (by decide)

theorem deepen_deepen (m n : Nat) (cs : List Char) : deepen m (deepen n cs) = deepen (m + n) cs := by
  rw [deepen_eq_shift, deepen_eq_shift, deepen_eq_shift, shift_shift (newline_not_mem_blanks n),
    List.replicate_append_replicate]

theorem dedentFrom_blanks (n left : Nat) (cs : List Char) :
    dedentFrom n left (List.replicate left ' ' ++ cs) = dedentFrom n 0 cs := by
  induction left with
  | zero => rfl
  | succ left ih =>
    rw [List.replicate_succ, List.cons_append, dedentFrom, if_neg (by decide),
      if_pos ⟨rfl, Nat.succ_pos left⟩]
    exact ih

theorem dedent_deepen (n : Nat) (cs : List Char) : dedent n (deepen n cs) = cs := by
  unfold dedent
  induction cs with
  | nil => rfl
  | cons c cs ih =>
    by_cases hc : c = '\n'
    · subst hc
      simp [dedentFrom, dedentFrom_blanks, ih]
    · have hblank : ¬(c = ' ' ∧ 0 < 0) := fun h => absurd h.2 (Nat.lt_irrefl 0)
      rw [deepen_cons hc, dedentFrom, if_neg hc, if_neg hblank, ih]

/-! ## solid text -/

/-- no line is empty and there is no return; at the start of a line the text is `fresh` -/
def solidFrom : Bool → List Char → Bool
  | fresh, [] => !fresh
  | fresh, c :: cs =>
    if c = '\r' then false else if c = '\n' then !fresh && solidFrom true cs else solidFrom false cs

def Solid (cs : List Char) : Prop := solidFrom true cs = true

instance : DecidablePred Solid := fun cs => inferInstanceAs (Decidable (solidFrom true cs = true))

@[simp] theorem solidFrom_newline (fresh : Bool) (cs : List Char) :
    solidFrom fresh ('\n' :: cs) = (!fresh && solidFrom true cs) := rfl

theorem solidFrom_cons {c : Char} (hr : c ≠ '\r') (hn : c ≠ '\n') (fresh : Bool) (cs : List Char) :
    solidFrom fresh (c :: cs) = solidFrom false cs := by
  rw [solidFrom, if_neg hr, if_neg hn]

theorem solidFrom_ne_return {fresh : Bool} {c : Char} {cs : List Char}
    (h : solidFrom fresh (c :: cs) = true) : c ≠ '\r' := by
  rintro rfl
  cases h

theorem solidFrom_false {cs : List Char} (h : solidFrom true cs = true) :
    solidFrom false cs = true := by
  cases cs with
  | nil => cases h
  | cons c cs =>
    have hr := solidFrom_ne_return h
    by_cases hn : c = '\n'
    · subst hn
      cases h
    · rw [solidFrom_cons hr hn] at h ⊢
      exact h

@[simp] theorem solidFrom_concat (fresh : Bool) (cs : List Char) : solidFrom fresh (cs ++ ['\n']) = false := by
  induction cs generalizing fresh with
  | nil => cases fresh <;> rfl
  | cons c cs ih => simp [solidFrom, ih]

theorem Solid.getLast?_ne {cs : List Char} (h : Solid cs) : cs.getLast? ≠ some '\n' := by
  intro hlast
  obtain ⟨before, rfl⟩ := List.getLast?_eq_some_iff.mp hlast
  rw [Solid, solidFrom_concat] at h
  cases h

theorem solidFrom_append {fresh : Bool} {a b : List Char} (ha : solidFrom fresh a = true)
    (hb : solidFrom false b = true) : solidFrom fresh (a ++ b) = true := by
  induction a generalizing fresh with
  | nil =>
    cases fresh with
    | true => cases ha
    | false => exact hb
  | cons c a ih =>
    have hr := solidFrom_ne_return ha
    rw [List.cons_append]
    by_cases hn : c = '\n'
    · subst hn
      rw [solidFrom_newline, Bool.and_eq_true] at ha ⊢
      exact ⟨ha.1, ih ha.2⟩
    · rw [solidFrom_cons hr hn] at ha ⊢
      exact ih ha

theorem Solid.append {a b : List Char} (ha : Solid a) (hb : Solid b) : Solid (a ++ b) :=
  solidFrom_append ha (solidFrom_false hb)

/-- solid texts one below the other -/
theorem Solid.newline {a b : List Char} (ha : Solid a) (hb : Solid b) : Solid (a ++ '\n' :: b) := by
  have hbelow : ∀ {fresh : Bool} {a : List Char}, solidFrom fresh a = true →
      solidFrom fresh (a ++ '\n' :: b) = true := by
    intro fresh a ha
    induction a generalizing fresh with
    | nil =>
      rw [List.nil_append, solidFrom_newline, Bool.and_eq_true]
      exact ⟨ha, hb⟩
    | cons c a ih =>
      have hr := solidFrom_ne_return ha
      rw [List.cons_append]
      by_cases hn : c = '\n'
      · subst hn
        rw [solidFrom_newline, Bool.and_eq_true] at ha ⊢
        exact ⟨ha.1, ih ha.2⟩
      · rw [solidFrom_cons hr hn] at ha ⊢
        exact ih ha
  exact hbelow ha

/-- characters of one line in front of anything that may go on with the line -/
theorem solidFrom_flat {a b : List Char} (hr : '\r' ∉ a) (hn : '\n' ∉ a)
    (hb : solidFrom false b = true) : solidFrom false (a ++ b) = true := by
  induction a with
  | nil => exact hb
  | cons c a ih =>
    rw [List.mem_cons, not_or] at hr hn
    rw [List.cons_append, solidFrom_cons (Ne.symm hr.1) (Ne.symm hn.1)]
    exact ih hr.2 hn.2

theorem solid_of_flat {c : Char} {cs : List Char} (hr : '\r' ∉ c :: cs) (hn : '\n' ∉ c :: cs) :
    Solid (c :: cs) := by
  rw [List.mem_cons, not_or] at hr hn
  have hcs := solidFrom_flat hr.2 hn.2 (b := []) rfl
  rw [List.append_nil] at hcs
  rw [Solid, solidFrom_cons (Ne.symm hr.1) (Ne.symm hn.1)]
  exact hcs

/-- a solid text behind something on its first line -/
theorem solidFrom_lead {lead : List Char} (hr : '\r' ∉ lead) (hn : '\n' ∉ lead) {cs : List Char} (h : Solid cs)
    (fresh : Bool) : solidFrom fresh (lead ++ cs) = true := by
  cases lead with
  | nil =>
    cases fresh with
    | true => exact h
    | false => exact solidFrom_false h
  | cons c lead =>
    rw [List.mem_cons, not_or] at hr hn
    rw [List.cons_append, solidFrom_cons (Ne.symm hr.1) (Ne.symm hn.1)]
    exact solidFrom_flat hr.2 hn.2 (solidFrom_false h)

theorem solidFrom_blanks (n : Nat) {cs : List Char} (h : solidFrom true cs = true) (fresh : Bool) :
    solidFrom fresh (List.replicate n ' ' ++ cs) = true :=
  solidFrom_lead (return_not_mem_blanks n) (newline_not_mem_blanks n) h fresh

theorem solidFrom_deepen (n : Nat) {cs : List Char} {fresh : Bool} (h : solidFrom fresh cs = true) :
    solidFrom fresh (deepen n cs) = true := by
  induction cs generalizing fresh with
  | nil => exact h
  | cons c cs ih =>
    have hr := solidFrom_ne_return h
    by_cases hn : c = '\n'
    · subst hn
      rw [solidFrom_newline, Bool.and_eq_true] at h
      rw [deepen_newline, solidFrom_newline, Bool.and_eq_true]
      exact ⟨h.1, solidFrom_blanks n (ih h.2) true⟩
    · rw [solidFrom_cons hr hn] at h
      rw [deepen_cons hn, solidFrom_cons hr hn]
      exact ih h

/-! ## lines of a solid text -/

/-- the lines of a text without a newline at its end -/
def physical (cs : List Char) : List (List Char) := (segments cs).1 :: (segments cs).2

theorem segments_append (a b : List Char) :
    segments (a ++ '\n' :: b) = ((segments a).1, (segments a).2 ++ physical b) := by
  induction a with
  | nil => rfl
  | cons c a ih =>
    rw [List.cons_append, segments_cons, segments_cons, ih]
    split <;> rfl

theorem linesOf_append (first : List Char) (others : List (List Char)) (s : List Char)
    (more : List (List Char)) :
    linesOf first (others ++ s :: more) = (first :: others).map dropReturn ++ linesOf s more := by
  induction others generalizing first with
  | nil => rfl
  | cons second others ih =>
    rw [List.cons_append, linesOf, ih]
    rfl

theorem not_mem_physical {x : Char} {cs : List Char} (h : x ∉ cs) :
    ∀ line ∈ physical cs, x ∉ line := by
  induction cs with
  | nil =>
    intro line hline
    rw [List.mem_singleton.mp hline]
    exact List.not_mem_nil
  | cons c cs ih =>
    rw [List.mem_cons, not_or] at h
    have hlines := ih h.2
    rw [physical, List.forall_mem_cons] at hlines
    rw [physical, segments_cons]
    split
    · exact List.forall_mem_cons.mpr ⟨List.not_mem_nil, List.forall_mem_cons.mpr hlines⟩
    · refine List.forall_mem_cons.mpr ⟨?_, hlines.2⟩
      rw [List.mem_cons, not_or]
      exact ⟨h.1, hlines.1⟩

theorem return_not_mem {fresh : Bool} {cs : List Char} (h : solidFrom fresh cs = true) : '\r' ∉ cs := by
  induction cs generalizing fresh with
  | nil => exact List.not_mem_nil
  | cons c cs ih =>
    have hr := solidFrom_ne_return h
    rw [List.mem_cons, not_or]
    refine ⟨Ne.symm hr, ?_⟩
    by_cases hn : c = '\n'
    · subst hn
      rw [solidFrom_newline, Bool.and_eq_true] at h
      exact ih h.2
    · rw [solidFrom_cons hr hn] at h
      exact ih h

theorem dropReturn_eq {line : List Char} (h : '\r' ∉ line) : dropReturn line = line := by
  unfold dropReturn
  refine if_neg fun hlast => h ?_
  exact List.mem_of_getLast? hlast

theorem lines_line {cs : List Char} (h : Solid cs) (rest : List Char) :
    lines (String.ofList (cs ++ '\n' :: rest)) = physical cs ++ lines (String.ofList rest) := by
  have hkeep : (physical cs).map dropReturn = physical cs := by
    refine (List.map_congr_left fun line hline => ?_).trans (List.map_id _)
    exact dropReturn_eq (not_mem_physical (return_not_mem h) line hline)
  rw [lines, lines, String.toList_ofList, String.toList_ofList, segments_append]
  show linesOf (segments cs).1 ((segments cs).2 ++ (segments rest).1 :: (segments rest).2) = _
  rw [linesOf_append]
  exact congrArg (· ++ _) hkeep

/-! ## indenting -/

@[simp] theorem pad_succ (unit : String) (level : Nat) : pad unit (level + 1) = unit ++ pad unit level := by
  rw [pad, List.replicate_succ, String.join_cons]
  rfl

theorem pad_add (unit : String) (a b : Nat) : pad unit (a + b) = pad unit a ++ pad unit b := by
  induction a with
  | zero => simp
  | succ a ih => rw [Nat.succ_add, pad_succ, pad_succ, ih, String.append_assoc]

theorem not_mem_pad {unit : String} {c : Char} (h : c ∉ unit.toList) (level : Nat) :
    c ∉ (pad unit level).toList := by
  induction level with
  | zero => exact List.not_mem_nil
  | succ level ih =>
    rw [pad_succ, String.toList_append, List.mem_append, not_or]
    exact ⟨h, ih⟩

theorem toList_indentLine (unit : String) {line : List Char} (h : line ≠ []) :
    (indentLine unit line).toList = unit.toList ++ (line ++ ['\n']) := by
  rw [indentLine, if_neg h, String.toList_append, String.toList_append, String.toList_ofList, List.append_assoc]
  rfl

/-- the first line without its indentation, then the others -/
theorem indent_segments (unit : String) {fresh : Bool} {cs : List Char} (h : solidFrom fresh cs = true) :
    (fresh = true → (segments cs).1 ≠ [])
    ∧ (segments cs).1 ++ '\n' :: (String.join ((segments cs).2.map (indentLine unit))).toList
      = shift unit.toList cs ++ ['\n'] := by
  induction cs generalizing fresh with
  | nil =>
    refine ⟨fun hf => ?_, rfl⟩
    subst hf
    cases h
  | cons c cs ih =>
    have hr := solidFrom_ne_return h
    rw [segments_cons]
    by_cases hn : c = '\n'
    · subst hn
      rw [solidFrom_newline, Bool.and_eq_true, Bool.not_eq_true'] at h
      obtain ⟨hne, hrest⟩ := ih h.2
      refine ⟨fun hf => absurd (hf.symm.trans h.1) (by decide), ?_⟩
      rw [if_pos rfl, shift_newline]
      show '\n' :: (String.join (indentLine unit (segments cs).1
        :: (segments cs).2.map (indentLine unit))).toList = _
      rw [String.join_cons, String.toList_append, toList_indentLine unit (hne rfl), List.append_assoc,
        List.append_assoc, List.singleton_append, hrest, List.cons_append, List.append_assoc]
    · rw [solidFrom_cons hr hn] at h
      obtain ⟨-, hrest⟩ := ih h
      rw [if_neg hn, shift_cons hn]
      refine ⟨fun _ => List.cons_ne_nil _ _, ?_⟩
      rw [List.cons_append, List.cons_append, hrest]

theorem indentLines_shift (unit : String) {cs : List Char} (h : Solid cs) (rest : List Char) :
    (indentLines unit (String.ofList (cs ++ '\n' :: rest))).toList
      = unit.toList
        ++ (shift unit.toList cs ++ '\n' :: (indentLines unit (String.ofList rest)).toList) := by
  obtain ⟨hne, hsegments⟩ := indent_segments unit h
  have hbody : (String.join ((physical cs).map (indentLine unit))).toList
      = unit.toList ++ (shift unit.toList cs ++ ['\n']) := by
    rw [physical, List.map_cons, String.join_cons, String.toList_append,
      toList_indentLine unit (hne rfl), List.append_assoc, List.append_assoc, List.singleton_append,
      hsegments]
  have hjoin : ∀ a b : List String, (String.join (a ++ b)).toList
      = (String.join a).toList ++ (String.join b).toList := by
    intro a b
    rw [String.toList_join, String.toList_join, String.toList_join, List.flatMap_append]
  rw [indentLines, lines_line h, List.map_append, hjoin, hbody, List.append_assoc, List.append_assoc]
  rfl

theorem indentLines_line {unit : String} {n : Nat} (hu : unit.toList = List.replicate n ' ')
    {cs : List Char} (h : Solid cs) (rest : List Char) :
    (indentLines unit (String.ofList (cs ++ '\n' :: rest))).toList
      = List.replicate n ' ' ++ (deepen n cs ++ '\n' :: (indentLines unit (String.ofList rest)).toList) := by
  rw [indentLines_shift unit h, hu, deepen_eq_shift]

/-! ## code that runs -/

theorem trimLeft_concat {c : Char} (hc : isBlank c = false) (cs : List Char) :
    ∃ kept, trimLeft (cs ++ [c]) = kept ++ [c] := by
  induction cs with
  | nil => exact ⟨[], List.dropWhile_cons_of_neg (by simp [hc])⟩
  | cons x cs ih =>
    by_cases hx : isBlank x = true
    · obtain ⟨kept, hkept⟩ := ih
      exact ⟨kept, (List.dropWhile_cons_of_pos hx).trans hkept⟩
    · exact ⟨x :: cs, List.dropWhile_cons_of_neg hx⟩

theorem isExecutable_cons {c : Char} (hc : isBlank c = false) (cs : List Char) :
    isExecutable (c :: cs) = (c != '#') := by
  have hleft : trimLeft (c :: cs) = c :: cs := List.dropWhile_cons_of_neg (by simp [hc])
  obtain ⟨kept, hkept⟩ := trimLeft_concat hc cs.reverse
  have htrim : trim (c :: cs) = c :: kept.reverse := by
    rw [trim, hleft, List.reverse_cons, hkept, List.reverse_append]
    rfl
  rw [isExecutable, htrim]

theorem physical_flat {cs : List Char} (h : '\n' ∉ cs) : physical cs = [cs] := by
  induction cs with
  | nil => rfl
  | cons c cs ih =>
    rw [List.mem_cons, not_or] at h
    have hcs := ih h.2
    rw [physical, List.cons.injEq] at hcs
    rw [physical, segments_cons, if_neg (Ne.symm h.1), hcs.1, hcs.2]

theorem physical_cons {c : Char} (hc : c ≠ '\n') (cs : List Char) :
    ∃ line others, physical (c :: cs) = (c :: line) :: others := by
  rw [physical, segments_cons, if_neg hc]
  exact ⟨_, _, rfl⟩

theorem isControl_commentText (text : String) :
    ∀ c ∈ (commentText text).toList, isControl c = false := by
  intro c hc
  rw [commentText, String.toList_ofList] at hc
  obtain ⟨x, -, rfl⟩ := List.mem_map.mp hc
  by_cases hx : isControl x = true
  · rw [if_pos hx]
    rfl
  · rw [if_neg hx]
    exact Bool.eq_false_iff.mpr hx

end VisualProgram.Text
