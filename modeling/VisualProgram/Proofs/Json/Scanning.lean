import VisualProgram.Json.Text
import VisualProgram.Proofs.Decimal.Reading

/-!
# Scanning what was written

The scanner goes over a text character by character.  A string, a bracket or a blank is closed by its own
last character; a number or a word is closed by what follows it.  Hence two notions:

* `Passes cs ts`  from between two tokens, the scanner finds `ts` in `cs` and is between tokens again;
* `Reads cs ts`   it finds `ts` as soon as the text ends or goes on with a delimiter (`Scanner.Ready`).

Both are put together by `append`.  With them the text of every leaf is scanned: the words, strings
(`passes_quote`), whole numbers (`numeral?_whole`) and every other number whose text is a numeral
(`reads_numeral`).
-/

namespace VisualProgram.Json

/-! ## scanning in parts -/

namespace Scanner

/-- where the scanner stands after some characters -/
def after (s : Scanner) (cs : List Char) : Option Scanner := cs.foldlM step s

@[simp] theorem after_cons (s : Scanner) (c : Char) (cs : List Char) :
    s.after (c :: cs) = (s.step c).bind (·.after cs) := rfl

@[simp] theorem after_append (s : Scanner) (a b : List Char) :
    s.after (a ++ b) = (s.after a).bind (·.after b) :=
  List.foldlM_append

end Scanner

/-- a character that extends neither a number nor a word -/
def isDelimiter (c : Char) : Bool := !extendsNumeral c && !c.isLower

/-- whether the text ends here or goes on with a delimiter, the scanner has found these tokens -/
structure Scanner.Ready (s : Scanner) (tokens : List Token) : Prop where
  close : s.close = some ⟨tokens, .between⟩
  step : ∀ c, isDelimiter c = true → s.step c = Scanner.start ⟨tokens, .between⟩ c

def Passes (cs : List Char) (ts : List Token) : Prop :=
  ∀ tokens, Scanner.after ⟨tokens, .between⟩ cs = some ⟨ts.reverse ++ tokens, .between⟩

def Reads (cs : List Char) (ts : List Token) : Prop :=
  ∀ tokens, ∃ s, Scanner.after ⟨tokens, .between⟩ cs = some s ∧ s.Ready (ts.reverse ++ tokens)

section
variable {a b : List Char} {s t : List Token}

theorem Passes.reads (h : Passes a s) : Reads a s :=
  fun tokens => ⟨_, h tokens, rfl, fun _ _ => rfl⟩

theorem passes_nil : Passes [] [] := fun _ => rfl

theorem Passes.append (ha : Passes a s) (hb : Passes b t) : Passes (a ++ b) (s ++ t) := by
  intro tokens
  rw [Scanner.after_append, ha tokens, Option.bind_some, hb, List.reverse_append, List.append_assoc]

theorem Passes.append_reads (ha : Passes a s) (hb : Reads b t) : Reads (a ++ b) (s ++ t) := by
  intro tokens
  obtain ⟨last, hlast, hready⟩ := hb (s.reverse ++ tokens)
  refine ⟨last, ?_, ?_⟩
  · simp [ha tokens, hlast]
  · rw [List.reverse_append, List.append_assoc]
    exact hready

/-- a delimiter closes what is still open -/
theorem Reads.append {c : Char} (ha : Reads a s) (hc : isDelimiter c = true) (hb : Passes (c :: b) t) :
    Passes (a ++ c :: b) (s ++ t) := by
  intro tokens
  obtain ⟨last, hlast, hready⟩ := ha tokens
  have hstep : last.after (c :: b) = Scanner.after ⟨s.reverse ++ tokens, .between⟩ (c :: b) := by
    rw [Scanner.after_cons, hready.step c hc]
    rfl
  rw [Scanner.after_append, hlast, Option.bind_some, hstep, hb, List.reverse_append, List.append_assoc]

theorem scan_of_reads (h : Reads a s) : scan a = some s := by
  obtain ⟨last, hlast, hready⟩ := h []
  show ((Scanner.after ⟨[], .between⟩ a).bind Scanner.close).map _ = _
  rw [hlast, Option.bind_some, hready.close]
  simp

end

/-! ## blanks and brackets -/

theorem passes_blanks {cs : List Char} (h : ∀ c ∈ cs, c = ' ' ∨ c = '\n') : Passes cs [] := by
  induction cs with
  | nil => exact passes_nil
  | cons c cs ih =>
    obtain ⟨hc, hcs⟩ := List.forall_mem_cons.mp h
    intro tokens
    rcases hc with rfl | rfl
    · exact ih hcs tokens
    · exact ih hcs tokens

/-! ## words -/

section
variable (tokens : List Token)

theorem step_word (seen : List Char) (c : Char) :
    Scanner.step ⟨tokens, .word seen⟩ c
      = if c.isLower then some ⟨tokens, .word (c :: seen)⟩
        else (Scanner.close ⟨tokens, .word seen⟩).bind (·.start c) := rfl

theorem step_numeral (seen : List Char) (c : Char) :
    Scanner.step ⟨tokens, .numeral seen⟩ c
      = if extendsNumeral c then some ⟨tokens, .numeral (c :: seen)⟩
        else (Scanner.close ⟨tokens, .numeral seen⟩).bind (·.start c) := rfl

theorem not_extends_of_delimiter {c : Char} (h : isDelimiter c = true) :
    extendsNumeral c = false ∧ c.isLower = false := by
  simpa [isDelimiter] using h

theorem ready_word {seen : List Char} {t : Token} (h : word? seen.reverse = some t) :
    Scanner.Ready ⟨tokens, .word seen⟩ (t :: tokens) := by
  have hclose : Scanner.close ⟨tokens, .word seen⟩ = some ⟨t :: tokens, .between⟩ := by
    show (word? seen.reverse).map _ = _
    rw [h]
    rfl
  refine ⟨hclose, fun c hc => ?_⟩
  rw [step_word, (not_extends_of_delimiter hc).2, hclose]
  rfl

theorem ready_numeral {seen : List Char} {n : Decimal.Numeral} (h : numeral? seen.reverse = some n) :
    Scanner.Ready ⟨tokens, .numeral seen⟩ (.number (Number.ofNumeral? n) :: tokens) := by
  have hclose : Scanner.close ⟨tokens, .numeral seen⟩
      = some ⟨.number (Number.ofNumeral? n) :: tokens, .between⟩ := by
    show (numeral? seen.reverse).map _ = _
    rw [h]
    rfl
  refine ⟨hclose, fun c hc => ?_⟩
  rw [step_numeral, (not_extends_of_delimiter hc).1, hclose]
  rfl

end

theorem reads_null : Reads "null".toList [.null] :=
  fun tokens => ⟨⟨tokens, .word ['l', 'l', 'u', 'n']⟩, rfl, ready_word tokens rfl⟩

theorem reads_truth (b : Bool) : Reads (truthText b).toList [.bool b] := by
  intro tokens
  cases b with
  | true => exact ⟨⟨tokens, .word ['e', 'u', 'r', 't']⟩, rfl, ready_word tokens rfl⟩
  | false => exact ⟨⟨tokens, .word ['e', 's', 'l', 'a', 'f']⟩, rfl, ready_word tokens rfl⟩

/-! ## strings -/

section
variable (tokens : List Token) (seen : List CodeUnit)

theorem step_text (c : Char) :
    Scanner.step ⟨tokens, .text seen⟩ c
      = if c = '"' then some ⟨.string ((settle seen []).map String.ofList) :: tokens, .between⟩
        else if c = '\\' then some ⟨tokens, .escape seen⟩
        else if c.toNat < 0x20 then none
        else some ⟨tokens, .text (.scalar c :: seen)⟩ := rfl

theorem after_escape {c d : Char} (hu : c ≠ 'u') (h : escaped? c = some d) :
    Scanner.after ⟨tokens, .text seen⟩ ['\\', c] = some ⟨tokens, .text (.scalar d :: seen)⟩ := by
  show (Scanner.step ⟨tokens, .escape seen⟩ c).bind (·.after []) = _
  show ((if c = 'u' then _ else (escaped? c).map _) : Option Scanner).bind _ = _
  rw [if_neg hu, h]
  rfl

theorem hexText_four : ∀ n < 32, hexText 4 n = ['0', '0', Nat.digitChar (n / 16), Nat.digitChar (n % 16)] := by
  decide

theorem hexDigit?_digitChar : ∀ n < 16, hexDigit? (Nat.digitChar n) = some n := by decide

theorem after_hex {n : Nat} (h : n < 32) :
    Scanner.after ⟨tokens, .text seen⟩ ('\\' :: 'u' :: hexText 4 n)
      = some ⟨tokens, .text (.ofNat n :: seen)⟩ := by
  have hhigh := hexDigit?_digitChar (n / 16) (by omega)
  have hlow := hexDigit?_digitChar (n % 16) (by omega)
  have hvalue : (0 * 16 + n / 16) * 16 + n % 16 = n := by omega
  rw [hexText_four n h]
  show ((hexDigit? (Nat.digitChar (n / 16))).map fun d =>
    (⟨tokens, .hex seen 3 (0 * 16 + d)⟩ : Scanner)).bind _ = _
  rw [hhigh, Option.map_some, Option.bind_some]
  show ((hexDigit? (Nat.digitChar (n % 16))).map fun d =>
    (⟨tokens, .text (.ofNat ((0 * 16 + n / 16) * 16 + d) :: seen)⟩ : Scanner)).bind _ = _
  rw [hlow, Option.map_some, hvalue]
  rfl

/-- a character of a string is read as it was written -/
theorem after_quoteChar (c : Char) :
    Scanner.after ⟨tokens, .text seen⟩ (quoteChar c) = some ⟨tokens, .text (.scalar c :: seen)⟩ := by
  unfold quoteChar
  split_ifs with hquote hback hb hf hn hr ht hcontrol
  · subst hquote
    exact after_escape tokens seen (by decide) rfl
  · subst hback
    exact after_escape tokens seen (by decide) rfl
  · subst hb
    exact after_escape tokens seen (by decide) rfl
  · subst hf
    exact after_escape tokens seen (by decide) rfl
  · subst hn
    exact after_escape tokens seen (by decide) rfl
  · subst hr
    exact after_escape tokens seen (by decide) rfl
  · subst ht
    exact after_escape tokens seen (by decide) rfl
  · have hunit : CodeUnit.ofNat c.toNat = .scalar c := by
      rw [CodeUnit.ofNat, if_neg (by omega), Char.ofNat_toNat]
    rw [after_hex tokens seen hcontrol, hunit]
  · rw [Scanner.after_cons, step_text, if_neg hquote, if_neg hback, if_neg hcontrol]
    rfl

end

theorem after_quoted (tokens : List Token) (cs : List Char) (seen : List CodeUnit) :
    Scanner.after ⟨tokens, .text seen⟩ (cs.flatMap quoteChar)
      = some ⟨tokens, .text ((cs.map .scalar).reverse ++ seen)⟩ := by
  induction cs generalizing seen with
  | nil => rfl
  | cons c cs ih =>
    rw [List.flatMap_cons, Scanner.after_append, after_quoteChar, Option.bind_some, ih, List.map_cons,
      List.reverse_cons, List.append_assoc]
    rfl

theorem settle_scalars (cs done : List Char) :
    settle (cs.map .scalar) done = some (cs.reverse ++ done) := by
  induction cs generalizing done with
  | nil => rfl
  | cons c cs ih =>
    show settle (cs.map .scalar) (c :: done) = _
    rw [ih, List.reverse_cons, List.append_assoc]
    rfl

theorem passes_quote (s : String) : Passes (quote s).toList [.string (some s)] := by
  intro tokens
  rw [quote, String.toList_ofList, List.cons_append]
  show Scanner.after ⟨tokens, .text []⟩ _ = _
  rw [Scanner.after_append, after_quoted, Option.bind_some, List.append_nil, Scanner.after_cons,
    step_text, if_pos rfl, ← List.map_reverse, settle_scalars, List.reverse_reverse, List.append_nil,
    Option.map_some, String.ofList_toList]
  rfl

/-! ## numbers -/

section
open Decimal

def Numeric (cs : List Char) : Prop := ∀ c ∈ cs, extendsNumeral c = true

theorem extendsNumeral_of_digit {c : Char} (h : c.isDigit = true) : extendsNumeral c = true := by
  simp [extendsNumeral, h]

theorem numeric_takeWhile (cs : List Char) : Numeric (cs.takeWhile Char.isDigit) :=
  fun c hc => extendsNumeral_of_digit (List.all_eq_true.mp List.all_takeWhile c hc)

theorem numeric_append {a b : List Char} (ha : Numeric a) (hb : Numeric b) : Numeric (a ++ b) :=
  fun c hc => (List.mem_append.mp hc).elim (ha c) (hb c)

theorem numeric_cons {c : Char} {cs : List Char} (hc : extendsNumeral c = true) (h : Numeric cs) :
    Numeric (c :: cs) :=
  List.forall_mem_cons.mpr ⟨hc, h⟩

theorem numeric_of_digits? {cs : List Char} {n : Nat} (h : digits? cs = some n) : Numeric cs := by
  unfold digits? at h
  split at h
  next hall => exact fun c hc => extendsNumeral_of_digit (List.all_eq_true.mp hall.2 c hc)
  next => cases h

theorem numeric_of_unsigned {cs : List Char} (h : Numeric (splitSign cs).2) : Numeric cs := by
  unfold splitSign at h
  split at h
  · exact numeric_cons rfl h
  · exact numeric_cons rfl h
  · exact h

theorem numeric_of_exponent? {cs : List Char} {e : Int} (h : exponent? cs = some e) : Numeric cs := by
  refine numeric_of_unsigned ?_
  obtain ⟨n, hn⟩ : ∃ n, digits? (splitSign cs).2 = some n := by
    unfold exponent? at h
    cases hd : digits? (splitSign cs).2 with
    | some n => exact ⟨n, rfl⟩
    | none =>
      split at h
      next rest hs =>
        rw [hs] at hd
        rw [hd] at h
        cases h
      next rest _ hs =>
        rw [hs] at hd
        rw [hd] at h
        cases h
  exact numeric_of_digits? hn

theorem numeric_of_fraction {cs : List Char} (h : Numeric (splitFraction cs).2) : Numeric cs := by
  unfold splitFraction at h
  split at h
  next rest =>
    refine numeric_cons rfl ?_
    rw [← List.takeWhile_append_dropWhile (p := Char.isDigit) (l := rest)]
    exact numeric_append (numeric_takeWhile rest) h
  next => exact h

theorem numeric_of_scan? {cs : List Char} {n : Numeral} (h : Numeral.scan? cs = some n) : Numeric cs := by
  refine numeric_of_unsigned ?_
  rw [← List.takeWhile_append_dropWhile (p := Char.isDigit) (l := (splitSign cs).2)]
  refine numeric_append (numeric_takeWhile _) (numeric_of_fraction ?_)
  simp only [Numeral.scan?] at h
  split at h
  next htail =>
    rw [htail]
    exact fun c hc => absurd hc List.not_mem_nil
  next mark rest htail =>
    split at h
    next hmark =>
      obtain ⟨e, he, -⟩ := Option.map_eq_some_iff.mp h
      rw [htail]
      refine numeric_cons ?_ (numeric_of_exponent? he)
      rcases hmark with rfl | rfl <;> rfl
    next => cases h

/-- a numeral begins with a digit or a minus sign -/
theorem head_of_numeral? {cs : List Char} {n : Numeral} (h : numeral? cs = some n) :
    ∃ c rest, cs = c :: rest ∧ (c.isDigit || c == '-') = true := by
  obtain ⟨hscan, hform⟩ := Option.filter_eq_some_iff.mp h
  obtain ⟨hsign, hwhole⟩ : n.sign = (splitSign cs).1
      ∧ n.whole = (splitSign cs).2.takeWhile Char.isDigit := by
    simp only [Numeral.scan?] at hscan
    split at hscan
    next =>
      cases hscan
      exact ⟨rfl, rfl⟩
    next =>
      split at hscan
      next =>
        obtain ⟨e, -, rfl⟩ := Option.map_eq_some_iff.mp hscan
        exact ⟨rfl, rfl⟩
      next => cases hscan
  simp only [Bool.and_eq_true, bne_iff_ne, hsign, hwhole] at hform
  obtain ⟨⟨⟨hplus, hne⟩, -⟩, -⟩ := hform
  cases cs with
  | nil => exact absurd rfl hne
  | cons c rest =>
    refine ⟨c, rest, rfl, ?_⟩
    by_cases hminus : c = '-'
    · rw [hminus]
      rfl
    · have hunsigned : (splitSign (c :: rest)).2 = c :: rest := by
        unfold splitSign
        split
        next heq => exact absurd (List.cons.inj heq).1 hminus
        next heq =>
          rw [heq] at hplus
          exact absurd rfl hplus
        next => rfl
      rw [hunsigned, List.takeWhile_cons] at hne
      cases hd : c.isDigit with
      | true => rfl
      | false =>
        rw [hd] at hne
        exact absurd rfl hne

theorem start_numeral (tokens : List Token) {c : Char} (h : (c.isDigit || c == '-') = true) :
    Scanner.start ⟨tokens, .between⟩ c = some ⟨tokens, .numeral [c]⟩ := by
  unfold Scanner.start
  split
  all_goals exact if_pos h

theorem after_numeral (tokens : List Token) {cs : List Char} (h : Numeric cs) (seen : List Char) :
    Scanner.after ⟨tokens, .numeral seen⟩ cs = some ⟨tokens, .numeral (cs.reverse ++ seen)⟩ := by
  induction cs generalizing seen with
  | nil => rfl
  | cons c cs ih =>
    obtain ⟨hc, hcs⟩ := List.forall_mem_cons.mp h
    rw [Scanner.after_cons, step_numeral, if_pos hc, Option.bind_some, ih hcs, List.reverse_cons,
      List.append_assoc]
    rfl

/-- a numeral is read as a whole -/
theorem reads_numeral {cs : List Char} {n : Numeral} (h : numeral? cs = some n) :
    Reads cs [.number (Number.ofNumeral? n)] := by
  intro tokens
  obtain ⟨c, rest, rfl, hc⟩ := head_of_numeral? h
  have hnumeric := numeric_of_scan? (Option.filter_eq_some_iff.mp h).1
  have hrest := (List.forall_mem_cons.mp hnumeric).2
  refine ⟨⟨tokens, .numeral (rest.reverse ++ [c])⟩, ?_, ready_numeral tokens ?_⟩
  · show (Scanner.start ⟨tokens, .between⟩ c).bind (·.after rest) = _
    rw [start_numeral tokens hc, Option.bind_some, after_numeral tokens hrest]
  · rw [List.reverse_append, List.reverse_reverse]
    exact h

/-! ## whole numbers -/

/-- the digits of a number, as a numeral of either sign -/
theorem isNumeral_toDigits (sign : Sign) (hs : sign ≠ .plus) (n : Nat) :
    (sign != .plus && Nat.toDigits 10 n != []
      && ((Nat.toDigits 10 n).head? != some '0' || (Nat.toDigits 10 n).length == 1)
      && (none : Option (List Char)) != some []) = true := by
  have hzero : ((Nat.toDigits 10 n).head? != some '0' || (Nat.toDigits 10 n).length == 1) = true := by
    by_cases hhead : (Nat.toDigits 10 n).head? = some '0'
    · rw [Python.head_toDigits hhead]
      rfl
    · simp [hhead]
  simp [hs, hzero, Nat.toDigits_ne_nil]

/-- the text of a whole number is a numeral of it -/
theorem numeral?_whole (n : Int) (fits : -0x8000000000000000 ≤ n ∧ n < 0x10000000000000000) :
    (numeral? (toString n).toList).bind Number.ofNumeral? = some (.whole n fits) := by
  have hdigits : ∀ c ∈ Nat.toDigits 10 n.natAbs, c.isDigit = true :=
    fun _ => Nat.isDigit_of_mem_toDigits (by decide) (by decide)
  have hint : Number.ofInt? n = some (.whole n fits) := dif_pos fits
  rw [Python.toList_int]
  split
  next hneg =>
    have hvalue : -(n.natAbs : Int) = n := by omega
    have hne : n.natAbs ≠ 0 := by omega
    rw [numeral?, scan?_minus_digits hdigits, Option.filter_some,
      if_pos (isNumeral_toDigits .minus (by decide) n.natAbs), Option.bind_some]
    simp only [Number.ofNumeral?, Nat.ofDigitChars_ten_toDigits, hne, and_false, not_false_eq_true, and_self,
      if_true, hvalue, hint]
  next hpos =>
    have hvalue : (n.natAbs : Int) = n := by omega
    rw [numeral?, scan?_digits hdigits, Option.filter_some,
      if_pos (isNumeral_toDigits .absent (by decide) n.natAbs), Option.bind_some]
    simp only [Number.ofNumeral?, Nat.ofDigitChars_ten_toDigits, reduceCtorEq, false_and, not_false_eq_true,
      and_self, if_true, if_false, hvalue, hint]

end

end VisualProgram.Json
