import VisualProgram.Text.Chars
import VisualProgram.Proofs.Json.Scanning

/-!
# Reading a shown name

A name in quotes can be read back, whatever its characters are: `unquote?` reads the text after the opening
quote up to the closing one, and gives the name and what follows (`unquote?_shown`).  Nothing in the quotes
breaks a line (`isFlat_shown`).
-/

namespace VisualProgram.Text

/-! ## reading -/

/-- where the reader is: at a character, after a backslash, before the brace of a number or in the number -/
inductive QuoteMode where
  | plain
  | escape
  | brace
  | number (n : Nat)

/-- what a backslash and a letter stand for -/
def escaped? (c : Char) : Option Char :=
  if c = '0' then some '\x00'
  else if c = 't' then some '\t'
  else if c = 'r' then some '\r'
  else if c = 'n' then some '\n'
  else if c = '"' then some '"'
  else if c = '\\' then some '\\'
  else none

/-- one more character before the closing quote -/
def prepend (c : Char) (read : List Char × List Char) : List Char × List Char := (c :: read.1, read.2)

/-- the characters up to the closing quote, and what comes after it -/
def unquoteFrom : QuoteMode → List Char → Option (List Char × List Char)
  | _, [] => none
  | .plain, c :: cs =>
    if c = '"' then some ([], cs)
    else if c = '\\' then unquoteFrom .escape cs
    else (unquoteFrom .plain cs).map (prepend c)
  | .escape, c :: cs =>
    if c = 'u' then unquoteFrom .brace cs
    else (escaped? c).bind fun x => (unquoteFrom .plain cs).map (prepend x)
  | .brace, c :: cs => if c = '\x7b' then unquoteFrom (.number 0) cs else none
  | .number n, c :: cs =>
    if c = '\x7d' then (unquoteFrom .plain cs).map (prepend (Char.ofNat n))
    else (Json.hexDigit? c).bind fun d => unquoteFrom (.number (16 * n + d)) cs

/-- the name that a text starts with in quotes, and the rest of the text -/
def unquote? : List Char → Option (String × List Char)
  | [] => none
  | c :: cs => if c = '"' then (unquoteFrom .plain cs).map fun read => (String.ofList read.1, read.2) else none

/-! ## hexadecimal numbers -/

theorem toDigits_sixteen {n : Nat} (h : ¬ n < 16) :
    Nat.toDigits 16 n = Nat.toDigits 16 (n / 16) ++ [Nat.digitChar (n % 16)] := by
  have hdigit : n % 16 < 16 := Nat.mod_lt n (by decide)
  have happend := Nat.toDigits_append_toDigits (b := 16) (n := n / 16) (d := n % 16) (by decide) (by omega) hdigit
  rw [Nat.toDigits_of_lt_base hdigit, Nat.div_add_mod] at happend
  exact happend.symm

theorem exists_digitChar {n : Nat} {c : Char} (h : c ∈ Nat.toDigits 16 n) : ∃ d < 16, c = Nat.digitChar d := by
  induction n using Nat.strongRecOn with
  | ind n ih =>
    by_cases hn : n < 16
    · rw [Nat.toDigits_of_lt_base hn] at h
      exact ⟨n, hn, List.mem_singleton.mp h⟩
    · rw [toDigits_sixteen hn] at h
      rcases List.mem_append.mp h with h | h
      · exact ih (n / 16) (by omega) h
      · exact ⟨n % 16, Nat.mod_lt n (by decide), List.mem_singleton.mp h⟩

/-! ## one character -/

theorem unquoteFrom_digit {d : Nat} (hd : d < 16) (n : Nat) (rest : List Char) :
    unquoteFrom (.number n) (Nat.digitChar d :: rest) = unquoteFrom (.number (16 * n + d)) rest := by
  have hbrace : ∀ d < 16, Nat.digitChar d ≠ '\x7d' := by decide
  rw [unquoteFrom, if_neg (hbrace d hd), Json.hexDigit?_digitChar d hd, Option.bind_some]

/-- the digits of a number are read as the number -/
theorem unquoteFrom_number (n : Nat) (rest : List Char) :
    unquoteFrom (.number 0) (Nat.toDigits 16 n ++ rest) = unquoteFrom (.number n) rest := by
  induction n using Nat.strongRecOn generalizing rest with
  | ind n ih =>
    by_cases hn : n < 16
    · rw [Nat.toDigits_of_lt_base hn, List.singleton_append, unquoteFrom_digit hn, Nat.mul_zero, Nat.zero_add]
    · rw [toDigits_sixteen hn, List.append_assoc, ih (n / 16) (by omega), List.singleton_append,
        unquoteFrom_digit (Nat.mod_lt n (by decide)), Nat.div_add_mod]

/-- a shown character is read as itself -/
theorem unquoteFrom_showChar (c : Char) (rest : List Char) :
    unquoteFrom .plain (showChar c ++ rest) = (unquoteFrom .plain rest).map (prepend c) := by
  unfold showChar
  split_ifs with hnul htab hreturn hnewline hquote hbackslash hhidden
  · rw [hnul]; rfl
  · rw [htab]; rfl
  · rw [hreturn]; rfl
  · rw [hnewline]; rfl
  · rw [hquote]; rfl
  · rw [hbackslash]; rfl
  · show unquoteFrom (.number 0) (Nat.toDigits 16 c.toNat ++ ['\x7d'] ++ rest) = _
    rw [List.append_assoc, unquoteFrom_number]
    show (unquoteFrom .plain rest).map (prepend (Char.ofNat c.toNat)) = _
    rw [Char.ofNat_toNat]
  · rw [List.singleton_append, unquoteFrom, if_neg hquote, if_neg hbackslash]

/-! ## names -/

theorem unquoteFrom_shown (name rest : List Char) :
    unquoteFrom .plain (name.flatMap showChar ++ '"' :: rest) = some (name, rest) := by
  induction name with
  | nil => rfl
  | cons c cs ih =>
    rw [List.flatMap_cons, List.append_assoc, unquoteFrom_showChar, ih]
    rfl

theorem unquote?_shown (name : String) (rest : List Char) :
    unquote? ((shown name).toList ++ rest) = some (name, rest) := by
  have hlist : (shown name).toList ++ rest = '"' :: (name.toList.flatMap showChar ++ '"' :: rest) := by
    rw [shown, String.toList_ofList, List.append_assoc]
    rfl
  rw [hlist, unquote?, if_pos rfl, unquoteFrom_shown, Option.map_some, String.ofList_toList]

/-! ## lines -/

/-- neither a newline nor a return -/
def IsFlat (cs : List Char) : Prop := ∀ c ∈ cs, c ≠ '\n' ∧ c ≠ '\r'

theorem isFlat_iff_all (cs : List Char) : IsFlat cs ↔ (cs.all fun c => c ≠ '\n' ∧ c ≠ '\r') = true := by
  rw [List.all_eq_true]
  exact forall₂_congr fun c _ => decide_eq_true_iff.symm

instance : DecidablePred IsFlat := fun cs => decidable_of_iff _ (isFlat_iff_all cs).symm

theorem IsFlat.newline_not_mem {cs : List Char} (h : IsFlat cs) : '\n' ∉ cs := fun hn => (h _ hn).1 rfl

theorem IsFlat.return_not_mem {cs : List Char} (h : IsFlat cs) : '\r' ∉ cs := fun hr => (h _ hr).2 rfl

theorem IsFlat.append {a b : List Char} (ha : IsFlat a) (hb : IsFlat b) : IsFlat (a ++ b) :=
  List.forall_mem_append.mpr ⟨ha, hb⟩

theorem isFlat_toDigits (n : Nat) : IsFlat (Nat.toDigits 16 n) := by
  have key : ∀ d < 16, Nat.digitChar d ≠ '\n' ∧ Nat.digitChar d ≠ '\r' := by decide
  intro c hc
  obtain ⟨d, hd, rfl⟩ := exists_digitChar hc
  exact key d hd

theorem isFlat_showChar (c : Char) : IsFlat (showChar c) := by
  unfold showChar
  split_ifs with hnul htab hreturn hnewline hquote hbackslash hhidden
  · decide
  · decide
  · decide
  · decide
  · decide
  · decide
  · have hopening : IsFlat ['\\', 'u', '\x7b'] := by decide
    have hclosing : IsFlat ['\x7d'] := by decide
    exact hopening.append ((isFlat_toDigits _).append hclosing)
  · exact List.forall_mem_singleton.mpr ⟨hnewline, hreturn⟩

theorem isFlat_shown (name : String) : IsFlat (shown name).toList := by
  have hquote : IsFlat ['"'] := by decide
  rw [shown, String.toList_ofList]
  refine hquote.append (IsFlat.append ?_ hquote)
  intro c hc
  obtain ⟨x, -, hx⟩ := List.mem_flatMap.mp hc
  exact isFlat_showChar x c hx

end VisualProgram.Text
