import VisualProgram.Proofs.Text.Lines
import Mathlib.Tactic.SplitIfs

/-!
# Logical lines of Python

A newline ends a line unless it stands inside of brackets or inside of a text of several lines.
`Mode.step` follows the characters of one such logical line: code with its open brackets, text with its
escapes, text in three quotes, comments.  It has no step for what cannot stand there, which includes
the newline that ends the line.  Texts in single quotes, lines joined by a backslash and returns
outside of a text in three quotes are left out: code that has them is not read at all.

`cut` splits a whole text into its logical lines; `cut_line` takes one off the front.
-/

namespace VisualProgram.Python
open Text

/-- where a character of a logical line stands, with the number of brackets that are open -/
inductive Mode where
  | code (depth : Nat)
  /-- after the quote that opens a text -/
  | opened (depth : Nat)
  /-- after a text without characters; one more quote would open a text of several lines -/
  | closed (depth : Nat)
  | text (depth : Nat)
  | escaped (depth : Nat)
  /-- in a text of several lines, after a number of quotes -/
  | long (depth quotes : Nat)
  | longEscaped (depth : Nat)
  | comment (depth : Nat)
deriving DecidableEq, Repr

namespace Mode

def isOpening (c : Char) : Bool := c == '(' || c == '[' || c == '\x7b'

def isClosing (c : Char) : Bool := c == ')' || c == ']' || c == '\x7d'

/-- what ends a text in quotes before its time -/
def isBreak (c : Char) : Bool := c == '\n' || c == '\r' || c == '\x00'

/-- what code is not read with: a return, a null, a single quote, a backslash -/
def isForeign (c : Char) : Bool := c == '\r' || c == '\x00' || c == '\x27' || c == '\\'

/-- a newline inside of brackets goes on with the line -/
def inBrackets (depth : Nat) : Option Mode := if depth = 0 then none else some (.code depth)

def stepCode (depth : Nat) (c : Char) : Option Mode :=
  if c = '"' then some (.opened depth)
  else if c = '#' then some (.comment depth)
  else if isOpening c then some (.code (depth + 1))
  else if isClosing c then if depth = 0 then none else some (.code (depth - 1))
  else if c = '\n' then inBrackets depth
  else if isForeign c then none
  else some (.code depth)

def stepText (depth : Nat) (c : Char) : Option Mode :=
  if c = '"' then some (.code depth)
  else if c = '\\' then some (.escaped depth)
  else if isBreak c then none
  else some (.text depth)

def step : Mode → Char → Option Mode
  | .code depth, c => stepCode depth c
  | .opened depth, c => if c = '"' then some (.closed depth) else stepText depth c
  | .closed depth, c => if c = '"' then some (.long depth 0) else stepCode depth c
  | .text depth, c => stepText depth c
  | .escaped depth, c => if isBreak c then none else some (.text depth)
  | .long depth quotes, c =>
    if c = '"' then some (if quotes = 2 then .code depth else .long depth (quotes + 1))
    else if c = '\\' then some (.longEscaped depth)
    else some (.long depth 0)
  | .longEscaped depth, _ => some (.long depth 0)
  | .comment depth, c =>
    if c = '\n' then inBrackets depth else if isBreak c then none else some (.comment depth)

/-- where the characters of a part of a line lead -/
def after : Mode → List Char → Option Mode
  | m, [] => some m
  | m, c :: cs => (m.step c).bind fun m => after m cs

@[simp] theorem after_cons (m : Mode) (c : Char) (cs : List Char) :
    m.after (c :: cs) = (m.step c).bind fun m => m.after cs := rfl

@[simp] theorem after_append (m : Mode) (a b : List Char) :
    m.after (a ++ b) = (m.after a).bind fun m => m.after b := by
  induction a generalizing m with
  | nil => rfl
  | cons c a ih =>
    rw [List.cons_append, after_cons, after_cons, Option.bind_assoc]
    cases m.step c with
    | none => rfl
    | some m => exact ih m

theorem after_append_of {m m' : Mode} {a : List Char} (h : m.after a = some m') (b : List Char) :
    m.after (a ++ b) = m'.after b := by
  simp [h]

/-! ## the end of a line -/

/-- a newline would end the line here -/
def atEnd : Mode → Bool
  | .code 0 | .closed 0 | .comment 0 => true
  | _ => false

theorem step_newline {m : Mode} (h : m.atEnd = true) : m.step '\n' = none := by
  unfold atEnd at h
  split at h
  · rfl
  · rfl
  · rfl
  · cases h

/-- blanks after a newline make no difference -/
theorem after_blanks {m m' : Mode} (h : m.step '\n' = some m') (n : Nat) :
    m'.after (List.replicate n ' ') = some m' := by
  have hstay : m'.step ' ' = some m' := by
    have hbrackets : ∀ {depth : Nat}, inBrackets depth = some m' → m' = .code depth := by
      intro depth hd
      unfold inBrackets at hd
      split at hd
      · cases hd
      · cases hd
        rfl
    cases m with
    | code depth => rw [hbrackets h]; rfl
    | closed depth => rw [hbrackets h]; rfl
    | comment depth => rw [hbrackets h]; rfl
    | opened depth => cases h
    | text depth => cases h
    | escaped depth => cases h
    | long depth quotes => cases h; rfl
    | longEscaped depth => cases h; rfl
  induction n with
  | zero => rfl
  | succ n ih => simp [List.replicate_succ, hstay, ih]

theorem after_deepen (m : Mode) (n : Nat) (cs : List Char) : m.after (deepen n cs) = m.after cs := by
  induction cs generalizing m with
  | nil => rfl
  | cons c cs ih =>
    by_cases hc : c = '\n'
    · subst hc
      rw [deepen_newline, after_cons, after_cons]
      cases hstep : m.step '\n' with
      | none => rfl
      | some m' => rw [Option.bind_some, Option.bind_some, after_append_of (after_blanks hstep n), ih]
    · rw [deepen_cons hc, after_cons, after_cons]
      cases m.step c with
      | none => rfl
      | some m' => exact ih m'

theorem after_indent (n : Nat) (cs : List Char) :
    after (.code 0) (List.replicate n ' ' ++ cs) = after (.code 0) cs := by
  have hblanks : after (.code 0) (List.replicate n ' ') = some (.code 0) := by
    induction n with
    | zero => rfl
    | succ n ih =>
      rw [List.replicate_succ, after_cons]
      exact ih
  exact after_append_of hblanks cs

/-! ## more brackets around -/

/-- the same place inside of more brackets -/
def lift (k : Nat) : Mode → Mode
  | .code depth => .code (depth + k)
  | .opened depth => .opened (depth + k)
  | .closed depth => .closed (depth + k)
  | .text depth => .text (depth + k)
  | .escaped depth => .escaped (depth + k)
  | .long depth quotes => .long (depth + k) quotes
  | .longEscaped depth => .longEscaped (depth + k)
  | .comment depth => .comment (depth + k)

theorem inBrackets_lift {depth : Nat} {m : Mode} (h : inBrackets depth = some m) (k : Nat) :
    inBrackets (depth + k) = some (m.lift k) := by
  unfold inBrackets at h ⊢
  split at h
  · cases h
  next hne =>
    cases h
    rw [if_neg (by omega)]
    rfl

theorem stepCode_lift {depth : Nat} {c : Char} {m : Mode} (h : stepCode depth c = some m) (k : Nat) :
    stepCode (depth + k) c = some (m.lift k) := by
  unfold stepCode at h ⊢
  split_ifs at h ⊢
  · cases h
    rfl
  · cases h
    rfl
  · cases h
    exact congrArg (some <| Mode.code ·) (Nat.add_right_comm depth k 1)
  · omega
  · cases h
    exact congrArg (some <| Mode.code ·) (by omega)
  · exact inBrackets_lift h k
  · cases h
    rfl

theorem stepText_lift {depth : Nat} {c : Char} {m : Mode} (h : stepText depth c = some m) (k : Nat) :
    stepText (depth + k) c = some (m.lift k) := by
  unfold stepText at h ⊢
  split_ifs at h ⊢ <;> cases h <;> rfl

theorem step_lift {m m' : Mode} {c : Char} (h : m.step c = some m') (k : Nat) :
    (m.lift k).step c = some (m'.lift k) := by
  cases m with
  | code depth => exact stepCode_lift h k
  | text depth => exact stepText_lift h k
  | opened depth =>
    simp only [lift, step] at h ⊢
    split_ifs at h ⊢
    · cases h
      rfl
    · exact stepText_lift h k
  | closed depth =>
    simp only [lift, step] at h ⊢
    split_ifs at h ⊢
    · cases h
      rfl
    · exact stepCode_lift h k
  | escaped depth =>
    simp only [lift, step] at h ⊢
    split_ifs at h ⊢
    cases h
    rfl
  | long depth quotes =>
    simp only [lift, step] at h ⊢
    split_ifs at h ⊢ <;> cases h <;> rfl
  | longEscaped depth =>
    cases h
    rfl
  | comment depth =>
    simp only [lift, step] at h ⊢
    split_ifs at h ⊢
    · exact inBrackets_lift h k
    · cases h
      rfl

theorem after_lift {m m' : Mode} {cs : List Char} (h : m.after cs = some m') (k : Nat) :
    (m.lift k).after cs = some (m'.lift k) := by
  induction cs generalizing m with
  | nil =>
    cases h
    rfl
  | cons c cs ih =>
    rw [after_cons, Option.bind_eq_some_iff] at h
    obtain ⟨next, hstep, hrest⟩ := h
    rw [after_cons, step_lift hstep k, Option.bind_some]
    exact ih hrest

end Mode

/-! ## cutting -/

/-- the logical lines of a text, the first of which has been read up to a mode; `line` are its
characters backwards -/
def cutFrom (m : Mode) (line : List Char) : List Char → Option (List (List Char))
  | [] => if line = [] then some [] else none
  | c :: cs =>
    if c = '\n' ∧ m.atEnd = true then (cutFrom (.code 0) [] cs).map (line.reverse :: ·)
    else (m.step c).bind fun m => cutFrom m (c :: line) cs

/-- the logical lines of a text, each of which ends with a newline -/
def cut (cs : List Char) : Option (List (List Char)) := cutFrom (.code 0) [] cs

theorem cutFrom_after {m m' : Mode} {cs : List Char} (h : m.after cs = some m')
    (line rest : List Char) : cutFrom m line (cs ++ rest) = cutFrom m' (cs.reverse ++ line) rest := by
  induction cs generalizing m line with
  | nil =>
    cases h
    rfl
  | cons c cs ih =>
    rw [Mode.after_cons, Option.bind_eq_some_iff] at h
    obtain ⟨next, hstep, hrest⟩ := h
    have hinside : ¬(c = '\n' ∧ m.atEnd = true) := by
      rintro ⟨rfl, hend⟩
      rw [Mode.step_newline hend] at hstep
      cases hstep
    rw [List.cons_append, cutFrom, if_neg hinside, hstep, Option.bind_some, ih hrest]
    rw [List.reverse_cons, List.append_assoc, List.singleton_append]

theorem cut_line {m : Mode} {cs : List Char} (h : Mode.after (.code 0) cs = some m)
    (hend : m.atEnd = true) (rest : List Char) :
    cut (cs ++ '\n' :: rest) = (cut rest).map (cs :: ·) := by
  rw [cut, cutFrom_after h, List.append_nil, cutFrom, if_pos ⟨rfl, hend⟩, List.reverse_reverse, cut]

end VisualProgram.Python
