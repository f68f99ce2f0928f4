import VisualProgram.Assoc
import VisualProgram.Json.Token
import Mathlib.Data.List.Basic

/-!
# The words and signs of Python expressions

Generated expressions are texts; the grammar is about tokens.  `lex` cuts a text into tokens as the
language does:

* a name, a number or a sign takes as many characters as it can;
* text stands in double quotes, on one line, with its characters decoded;
* blanks between tokens are skipped, and so is the end of a line inside of brackets.

What the language has beyond that (comments, other quotes, text with a prefix, numbers that are not
decimal) has no tokens here.

`Scans P d cs ts d'` says that the characters `cs` are cut into `ts`, and lead from bracket depth `d`
to `d'`, in front of every text of which `P` holds.  It is proved for one token at a time and put
together by `Scans.append`.
-/

namespace VisualProgram.Python

/-! ## tokens -/

/-- the words that are no names; `other` stands for those without a place in an expression here -/
inductive Keyword where
  | none | true | false | not | and | or | test | otherwise
  | other (word : String)
deriving DecidableEq, Repr

inductive Sign where
  | plus | minus | times | over | percent | power
  | equal | unequal | less | lessEqual | greater | greaterEqual
  | leftParen | rightParen | leftBracket | rightBracket | leftBrace | rightBrace
  | comma | colon | dot
  | other (sign : List Char)
deriving DecidableEq, Repr

inductive Token where
  | name (name : String)
  | key (word : Keyword)
  | int (value : Nat)
  | float (spelling : String)
  | text (value : String)
  | sign (sign : Sign)
deriving DecidableEq, Repr

/-- words without a place in an expression here -/
def otherWords : List String :=
  ["as", "assert", "async", "await", "break", "class", "continue", "def", "del", "elif", "except",
   "finally", "for", "from", "global", "import", "in", "is", "lambda", "nonlocal", "pass", "raise",
   "return", "try", "while", "with", "yield"]

def keywords : List (String × Keyword) :=
  [("None", .none), ("True", .true), ("False", .false), ("not", .not), ("and", .and), ("or", .or),
   ("if", .test), ("else", .otherwise)] ++ otherWords.map fun word => (word, .other word)

def wordToken (word : String) : Token :=
  match Assoc.get? word keywords with
  | some key => .key key
  | none => .name word

/-- the signs, longer ones first -/
def signs : List (List Char × Sign) :=
  [['*', '*', '='], ['/', '/', '='], ['>', '>', '='], ['<', '<', '='], ['.', '.', '.']].map other
  ++ [(['*', '*'], .power), (['=', '='], .equal), (['!', '='], .unequal), (['<', '='], .lessEqual),
    (['>', '='], .greaterEqual)]
  ++ [['/', '/'], ['>', '>'], ['<', '<'], ['-', '>'], [':', '='], ['+', '='], ['-', '='],
    ['*', '='], ['/', '='], ['%', '='], ['&', '='], ['|', '='], ['^', '='], ['@', '=']].map other
  ++ [(['+'], .plus), (['-'], .minus), (['*'], .times), (['/'], .over), (['%'], .percent),
    (['<'], .less), (['>'], .greater), (['('], .leftParen), ([')'], .rightParen),
    (['['], .leftBracket), ([']'], .rightBracket), (['\x7b'], .leftBrace), (['\x7d'], .rightBrace),
    ([','], .comma), ([':'], .colon), (['.'], .dot)]
  ++ [['='], ['@'], ['&'], ['|'], ['^'], ['~'], [';']].map other
where
  other (spelling : List Char) : List Char × Sign := (spelling, .other spelling)

/-! ## cutting off one token -/

def isWordStart (c : Char) : Bool := c.isAlpha || c == '_'

def isWordChar (c : Char) : Bool := c.isAlphanum || c == '_'

/-- a word; in front of a quote it would be the prefix of a text -/
def word? (cs : List Char) : Option (Token × List Char) :=
  let rest := cs.dropWhile isWordChar
  if rest.head? = some '"' ∨ rest.head? = some '\x27' then none
  else some (wordToken (String.ofList (cs.takeWhile isWordChar)), rest)

/-- a point and the digits after it, if the text starts with one -/
def fraction : List Char → List Char × List Char
  | '.' :: cs => ('.' :: cs.takeWhile Char.isDigit, cs.dropWhile Char.isDigit)
  | cs => ([], cs)

/-- the sign of an exponent -/
def exponentSign : List Char → List Char × List Char
  | '+' :: cs => (['+'], cs)
  | '-' :: cs => (['-'], cs)
  | cs => ([], cs)

/-- an exponent, if the text starts with one -/
def exponent : List Char → List Char × List Char
  | [] => ([], [])
  | c :: cs =>
    let digits := (exponentSign cs).2.takeWhile Char.isDigit
    if (c = 'e' ∨ c = 'E') ∧ digits ≠ [] then
      (c :: (exponentSign cs).1 ++ digits, (exponentSign cs).2.dropWhile Char.isDigit)
    else ([], c :: cs)

/-- a number, which no word and no further point may follow; a whole number does not start with an
idle zero -/
def number? (cs : List Char) : Option (Token × List Char) :=
  let whole := cs.takeWhile Char.isDigit
  let (frac, tail) := fraction (cs.dropWhile Char.isDigit)
  let (expo, rest) := exponent tail
  if rest.head?.any fun c => isWordChar c || c == '.' then none
  else if frac = [] ∧ expo = [] then
    if whole.head? = some '0' ∧ whole.any (· != '0') then none
    else some (.int (Nat.ofDigitChars 10 whole 0), rest)
  else some (.float (String.ofList (whole ++ frac ++ expo)), rest)

/-- the character behind a backslash -/
def escape? : Char → Option Char
  | '\\' => some '\\'
  | '"' => some '"'
  | 'n' => some '\n'
  | 'r' => some '\r'
  | 't' => some '\t'
  | _ => none

/-- a character in front of a text that has been read -/
def prepend (c : Char) (read : Option (List Char × List Char)) : Option (List Char × List Char) :=
  read.map fun x => (c :: x.1, x.2)

/-- the characters up to the closing quote -/
def quoted? : List Char → Option (List Char × List Char)
  | [] => none
  | '"' :: cs => some ([], cs)
  | '\\' :: 'x' :: a :: b :: cs => do
    let high ← Json.hexDigit? a
    let low ← Json.hexDigit? b
    prepend (Char.ofNat (16 * high + low)) (quoted? cs)
  | '\\' :: c :: cs => do
    let c ← escape? c
    prepend c (quoted? cs)
  | c :: cs =>
    if c = '\n' ∨ c = '\r' ∨ c = '\x00' then none else prepend c (quoted? cs)

/-- a text after its first quote; three quotes start a text of several lines -/
def text? (cs : List Char) : Option (Token × List Char) :=
  match quoted? cs with
  | none => none
  | some ([], '"' :: _) => none
  | some (text, rest) => some (.text (String.ofList text), rest)

def sign? (cs : List Char) : Option (Token × List Char) :=
  (signs.find? fun s => s.1.isPrefixOf cs).map fun s => (.sign s.2, cs.drop s.1.length)

/-- the first token of a text that does not start with a blank -/
def next? : List Char → Option (Token × List Char)
  | [] => none
  | c :: cs =>
    if isWordStart c then word? (c :: cs)
    else if c.isDigit then number? (c :: cs)
    else if c = '"' then text? cs
    else sign? (c :: cs)

/-! ## a token takes something away -/

theorem length_fraction_le (cs : List Char) : (fraction cs).2.length ≤ cs.length := by
  unfold fraction
  split
  next cs => exact Nat.le_succ_of_le (List.dropWhile_sublist Char.isDigit).length_le
  next => exact Nat.le_refl _

theorem length_exponentSign_le (cs : List Char) : (exponentSign cs).2.length ≤ cs.length := by
  unfold exponentSign
  split <;> simp

theorem length_exponent_le (cs : List Char) : (exponent cs).2.length ≤ cs.length := by
  cases cs with
  | nil => exact Nat.le_refl _
  | cons c cs =>
    have hdigits := (List.dropWhile_sublist Char.isDigit (l := (exponentSign cs).2)).length_le
    have hsign := length_exponentSign_le cs
    simp only [exponent]
    split
    · exact Nat.le_succ_of_le (Nat.le_trans hdigits hsign)
    · exact Nat.le_refl _

theorem exists_of_prepend {c : Char} {read : Option (List Char × List Char)} {s rest : List Char}
    (h : prepend c read = some (s, rest)) : ∃ tail, read = some (tail, rest) := by
  obtain ⟨⟨tail, more⟩, hread, heq⟩ := Option.map_eq_some_iff.mp h
  cases heq
  exact ⟨tail, hread⟩

theorem length_of_quoted? {cs s rest : List Char} (h : quoted? cs = some (s, rest)) :
    rest.length < cs.length := by
  fun_induction quoted? cs generalizing s with
  | case1 => cases h
  | case2 cs =>
    cases h
    exact Nat.lt_succ_self _
  | case3 a b cs ih =>
    obtain ⟨high, -, h⟩ := Option.bind_eq_some_iff.mp h
    obtain ⟨low, -, h⟩ := Option.bind_eq_some_iff.mp h
    obtain ⟨tail, htail⟩ := exists_of_prepend h
    have hlt := ih htail
    simp only [List.length_cons]
    omega
  | case4 c cs _ ih =>
    obtain ⟨d, -, h⟩ := Option.bind_eq_some_iff.mp h
    obtain ⟨tail, htail⟩ := exists_of_prepend h
    have hlt := ih htail
    simp only [List.length_cons]
    omega
  | case5 => cases h
  | case6 c cs _ _ _ _ ih =>
    obtain ⟨tail, htail⟩ := exists_of_prepend h
    exact Nat.lt_succ_of_lt (ih htail)

theorem length_dropWhile_cons {p : Char → Bool} {c : Char} (h : p c = true) (cs : List Char) :
    ((c :: cs).dropWhile p).length ≤ cs.length := by
  rw [List.dropWhile_cons_of_pos h]
  exact (List.dropWhile_sublist p).length_le

theorem isWordChar_of_start {c : Char} (h : isWordStart c = true) : isWordChar c = true := by
  simp only [isWordStart, isWordChar, Char.isAlphanum, Bool.or_eq_true] at h ⊢
  tauto

section
variable {c : Char} {cs rest : List Char} {t : Token}

theorem length_of_word? (hc : isWordStart c = true) (h : word? (c :: cs) = some (t, rest)) :
    rest.length ≤ cs.length := by
  have hle := length_dropWhile_cons (isWordChar_of_start hc) cs
  simp only [word?] at h
  split at h
  · cases h
  · cases h
    exact hle

theorem length_of_number? (hc : c.isDigit = true) (h : number? (c :: cs) = some (t, rest)) :
    rest.length ≤ cs.length := by
  have hwhole := length_dropWhile_cons hc cs
  have hfrac := length_fraction_le ((c :: cs).dropWhile Char.isDigit)
  have hexpo := length_exponent_le (fraction ((c :: cs).dropWhile Char.isDigit)).2
  have hrest : rest = (exponent (fraction ((c :: cs).dropWhile Char.isDigit)).2).2 := by
    simp only [number?] at h
    split at h
    · cases h
    · split at h
      · split at h <;> cases h
        rfl
      · cases h
        rfl
  rw [hrest]
  exact Nat.le_trans hexpo (Nat.le_trans hfrac hwhole)

theorem length_of_text? (h : text? cs = some (t, rest)) : rest.length ≤ cs.length := by
  unfold text? at h
  split at h
  · cases h
  · cases h
  next hread =>
    cases h
    exact Nat.le_of_lt (length_of_quoted? hread)

theorem length_of_sign? (h : sign? (c :: cs) = some (t, rest)) : rest.length ≤ cs.length := by
  obtain ⟨sign, hfind, heq⟩ := Option.map_eq_some_iff.mp h
  cases heq
  have hpos : ∀ x ∈ signs, 0 < x.1.length := by decide
  have hsign := hpos sign (List.mem_of_find?_eq_some hfind)
  rw [List.length_drop, List.length_cons]
  omega

end

theorem length_of_next? {cs rest : List Char} {t : Token} (h : next? cs = some (t, rest)) :
    rest.length < cs.length := by
  cases cs with
  | nil => cases h
  | cons c cs =>
    refine Nat.lt_succ_of_le ?_
    simp only [next?] at h
    split at h
    next hword => exact length_of_word? hword h
    next =>
      split at h
      next hdigit => exact length_of_number? hdigit h
      next =>
        split at h
        · exact length_of_text? h
        · exact length_of_sign? h

/-! ## all tokens -/

/-- inside of brackets the end of a line is a blank -/
def isBlank (depth : Nat) (c : Char) : Bool :=
  c == ' ' || c == '\t' || (0 < depth && (c == '\n' || c == '\r'))

/-- the bracket depth after a token -/
def Token.shift : Token → Nat → Option Nat
  | .sign .leftParen, d | .sign .leftBracket, d | .sign .leftBrace, d => some (d + 1)
  | .sign .rightParen, d | .sign .rightBracket, d | .sign .rightBrace, d =>
    if d = 0 then none else some (d - 1)
  | _, d => some d

def lexFrom (depth : Nat) (cs : List Char) : Option (List Token) :=
  match cs with
  | [] => if depth = 0 then some [] else none
  | c :: rest =>
    if isBlank depth c then lexFrom depth rest
    else
      match _h : next? (c :: rest) with
      | none => none
      | some (token, rest) =>
        match token.shift depth with
        | none => none
        | some depth => (lexFrom depth rest).map (token :: ·)
termination_by cs.length
decreasing_by
  · exact Nat.lt_succ_self _
  · exact length_of_next? _h

def lex (text : String) : Option (List Token) := lexFrom 0 text.toList

/-! ## scanning a part of a text -/

def Scans (P : List Char → Prop) (d : Nat) (cs : List Char) (ts : List Token) (d' : Nat) : Prop :=
  ∀ rest, P rest → lexFrom d (cs ++ rest) = (lexFrom d' rest).map (ts ++ ·)

/-- the test fails on the first character, if there is one -/
def Stops (p : Char → Bool) (cs : List Char) : Prop := ∀ c, cs.head? = some c → p c = false

/-- the characters that belong to no token before them -/
def enders : List Char := [' ', '\n', ')', ']', '\x7d', ',', ':']

def Ends (cs : List Char) : Prop := ∀ c, cs.head? = some c → c ∈ enders

@[simp] theorem ends_nil : Ends [] := by simp [Ends]

theorem ends_cons {c : Char} (h : c ∈ enders) (cs : List Char) : Ends (c :: cs) := by
  intro x hx
  cases hx
  exact h

theorem Ends.stops {p : Char → Bool} {cs : List Char} (h : Ends cs) (hp : enders.any p = false) :
    Stops p cs := by
  intro c hc
  exact Bool.eq_false_iff.mpr (List.any_eq_false.mp hp c (h c hc))

theorem Ends.stops_digit {cs : List Char} (h : Ends cs) : Stops Char.isDigit cs :=
  h.stops (by decide)

section
variable {P Q : List Char → Prop} {d d₁ d₂ : Nat} {a b : List Char} {s t : List Token}

theorem Scans.append (ha : Scans P d a s d₁) (hb : Scans Q d₁ b t d₂)
    (h : ∀ rest, Q rest → P (b ++ rest)) : Scans Q d (a ++ b) (s ++ t) d₂ := by
  intro rest hrest
  rw [List.append_assoc, ha _ (h rest hrest), hb rest hrest, Option.map_map]
  congr 1
  funext ts
  simp

theorem Scans.imp (ha : Scans P d a s d₁) (h : ∀ rest, Q rest → P rest) : Scans Q d a s d₁ :=
  fun rest hrest => ha rest (h rest hrest)

theorem lex_of_scans (text : String) (h : Scans Ends 0 text.toList s 0) : lex text = some s := by
  have hnil := h [] ends_nil
  rw [List.append_nil] at hnil
  rw [lex, hnil, lexFrom]
  simp

end

/-! ## one token -/

theorem takeWhile_stops {p : Char → Bool} {cs rest : List Char} (hcs : ∀ c ∈ cs, p c = true)
    (h : Stops p rest) : (cs ++ rest).takeWhile p = cs := by
  rw [List.takeWhile_append_of_pos hcs]
  cases rest with
  | nil => simp
  | cons c rest => simp [h c rfl]

theorem dropWhile_stops {p : Char → Bool} {cs rest : List Char} (hcs : ∀ c ∈ cs, p c = true)
    (h : Stops p rest) : (cs ++ rest).dropWhile p = rest := by
  rw [List.dropWhile_append_of_pos hcs]
  cases rest with
  | nil => simp
  | cons c rest => simp [h c rfl]

theorem next?_blank {d : Nat} {c : Char} (h : isBlank d c = true) (cs : List Char) :
    next? (c :: cs) = none := by
  have hc : c = ' ' ∨ c = '\t' ∨ c = '\n' ∨ c = '\r' := by
    simp only [isBlank, Bool.or_eq_true, Bool.and_eq_true, beq_iff_eq] at h
    tauto
  rcases hc with rfl | rfl | rfl | rfl <;> rfl

theorem scans_blank {d : Nat} {c : Char} (h : isBlank d c = true) :
    Scans (fun _ => True) d [c] [] d := by
  intro rest _
  rw [List.singleton_append, lexFrom, if_pos h]
  simp

/-- a token that is cut off as it stands -/
theorem scans_token {P : List Char → Prop} {d d' : Nat} {cs : List Char} {t : Token}
    (hn : ∀ rest, P rest → next? (cs ++ rest) = some (t, rest)) (hs : t.shift d = some d') :
    Scans P d cs [t] d' := by
  intro rest hrest
  have hnext := hn rest hrest
  cases hcs : cs ++ rest with
  | nil =>
    rw [hcs] at hnext
    cases hnext
  | cons c tail =>
    rw [hcs] at hnext
    have hb : isBlank d c = false := by
      by_contra hc
      rw [next?_blank (eq_true_of_ne_false hc)] at hnext
      cases hnext
    rw [lexFrom, hb, if_neg Bool.false_ne_true]
    split
    next hnone => cases hnext.symm.trans hnone
    next token rest' hsome =>
      cases hnext.symm.trans hsome
      rw [hs]
      rfl

/-- a letter or an underscore, then these and digits -/
def isWord : List Char → Bool
  | [] => false
  | c :: cs => isWordStart c && (c :: cs).all isWordChar

/-- a character that would be part of a word or make it the prefix of a text -/
def joinsWord (c : Char) : Bool := isWordChar c || c == '"' || c == '\x27'

/-- a word in front of anything that is no part of it -/
theorem scans_word_stops {cs : List Char} (h : isWord cs = true) (d : Nat) :
    Scans (Stops joinsWord) d cs [wordToken (String.ofList cs)] d := by
  cases cs with
  | nil => cases h
  | cons c tail =>
    obtain ⟨hc, hall⟩ := (Bool.and_eq_true _ _).mp h
    rw [List.all_eq_true] at hall
    refine scans_token (fun rest hrest => ?_) ?_
    · have hstop : Stops isWordChar rest := by
        intro x hx
        have hj := hrest x hx
        simp only [joinsWord, Bool.or_eq_false_iff] at hj
        exact hj.1.1
      have hquote : ¬(rest.head? = some '"' ∨ rest.head? = some '\x27') := by
        rintro (hq | hq)
        · exact absurd (hrest _ hq) (by decide)
        · exact absurd (hrest _ hq) (by decide)
      rw [List.cons_append, next?, if_pos hc, ← List.cons_append, word?]
      simp only [dropWhile_stops hall hstop, takeWhile_stops hall hstop, if_neg hquote]
    · unfold wordToken
      split <;> rfl

theorem scans_word {cs : List Char} (h : isWord cs = true) (d : Nat) :
    Scans Ends d cs [wordToken (String.ofList cs)] d :=
  (scans_word_stops h d).imp fun _ hrest => hrest.stops (by decide)

/-! ## numbers -/

theorem head_toDigits {n : Nat} (h : (Nat.toDigits 10 n).head? = some '0') : n = 0 := by
  induction n using Nat.strongRecOn with
  | ind n ih =>
    rw [Nat.toDigits_eq_if (by decide)] at h
    split at h
    next hlt =>
      have key : ∀ k < 10, Nat.digitChar k = '0' → k = 0 := by decide
      exact key n hlt (by simpa using h)
    next hge =>
      have hhead : (Nat.toDigits 10 (n / 10)).head? = some '0' := by
        rwa [List.head?_append_of_ne_nil _ Nat.toDigits_ne_nil] at h
      have := ih (n / 10) (by omega) hhead
      omega

theorem exponent_ends {rest : List Char} (h : Ends rest) : exponent rest = ([], rest) := by
  cases rest with
  | nil => rfl
  | cons c rest =>
    have hc : ¬(c = 'e' ∨ c = 'E') := by
      rintro (rfl | rfl)
      · exact absurd (h _ rfl) (by decide)
      · exact absurd (h _ rfl) (by decide)
    simp [exponent, hc]

theorem fraction_other {cs : List Char} (h : cs.head? ≠ some '.') : fraction cs = ([], cs) := by
  unfold fraction
  split
  next => simp at h
  next => rfl

theorem not_extended {rest : List Char} (h : Ends rest) :
    (rest.head?.any fun c => isWordChar c || c == '.') = false := by
  cases rest with
  | nil => rfl
  | cons c rest => exact (h.stops (p := fun c => isWordChar c || c == '.') (by decide)) c rfl

theorem isAlpha_eq (c : Char) : c.isAlpha = (c.isUpper || c.isLower) := rfl

theorem isUpper_iff_toNat {c : Char} : c.isUpper = true ↔ 65 ≤ c.toNat ∧ c.toNat ≤ 90 := by
  show decide ('A'.val ≤ c.val ∧ c.val ≤ 'Z'.val) = true ↔ _
  rw [decide_eq_true_eq, UInt32.le_iff_toNat_le, UInt32.le_iff_toNat_le]
  exact Iff.rfl

theorem isLower_iff_toNat {c : Char} : c.isLower = true ↔ 97 ≤ c.toNat ∧ c.toNat ≤ 122 := by
  show (decide ('a'.val ≤ c.val) && decide (c.val ≤ 'z'.val)) = true ↔ _
  rw [Bool.and_eq_true, decide_eq_true_eq, decide_eq_true_eq, UInt32.le_iff_toNat_le,
    UInt32.le_iff_toNat_le]
  exact Iff.rfl

theorem next?_digit {c : Char} {cs : List Char} (hc : c.isDigit = true) :
    next? (c :: cs) = number? (c :: cs) := by
  have hstart : isWordStart c = false := by
    have hdigit : 48 ≤ c.toNat ∧ c.toNat ≤ 57 := Char.isDigit_iff_toNat.mp hc
    have hne : c ≠ '_' := by
      rintro rfl
      revert hc
      decide
    rw [isWordStart, isAlpha_eq, Bool.or_eq_false_iff, Bool.or_eq_false_iff, beq_eq_false_iff_ne]
    refine ⟨⟨Bool.eq_false_iff.mpr fun hu => ?_, Bool.eq_false_iff.mpr fun hl => ?_⟩, hne⟩
    · have := isUpper_iff_toNat.mp hu
      omega
    · have := isLower_iff_toNat.mp hl
      omega
  rw [next?, hstart, if_neg Bool.false_ne_true, if_pos hc]

theorem scans_int (n d : Nat) : Scans Ends d (Nat.toDigits 10 n) [.int n] d := by
  have hall : ∀ c ∈ Nat.toDigits 10 n, c.isDigit = true :=
    fun c => Nat.isDigit_of_mem_toDigits (by decide) (by decide)
  have hnumber : ∀ rest, Ends rest →
      number? (Nat.toDigits 10 n ++ rest) = some (.int n, rest) := by
    intro rest hrest
    have hdot : rest.head? ≠ some '.' := fun h => absurd (hrest _ h) (by decide)
    have hzero : ¬((Nat.toDigits 10 n).head? = some '0' ∧ (Nat.toDigits 10 n).any (· != '0')) := by
      rintro ⟨hhead, hany⟩
      rw [head_toDigits hhead] at hany
      exact absurd hany (by decide)
    simp only [number?, takeWhile_stops hall hrest.stops_digit,
      dropWhile_stops hall hrest.stops_digit, fraction_other hdot, exponent_ends hrest,
      not_extended hrest, Bool.false_eq_true, if_false, and_self, if_true, if_neg hzero,
      Nat.ofDigitChars_ten_toDigits]
  refine scans_token (fun rest hrest => ?_) rfl
  rw [← hnumber rest hrest]
  cases hcs : Nat.toDigits 10 n with
  | nil => exact absurd hcs Nat.toDigits_ne_nil
  | cons c tail =>
    have hc : c.isDigit = true := hall c (by simp [hcs])
    exact next?_digit hc

def AllDigits (cs : List Char) : Prop := ∀ c ∈ cs, c.isDigit = true

instance : DecidablePred AllDigits :=
  fun cs => List.decidableBAll (fun c : Char => c.isDigit = true) cs

inductive IsFraction : List Char → Prop where
  | absent : IsFraction []
  | point (digits : List Char) (h : AllDigits digits) : IsFraction ('.' :: digits)

inductive IsExponent : List Char → Prop where
  | absent : IsExponent []
  | mark (sign digits : List Char) (hs : sign = [] ∨ sign = ['-']) (hne : digits ≠ [])
    (h : AllDigits digits) : IsExponent ('e' :: (sign ++ digits))

/-- how a float is spelled: digits, then a point with digits or an exponent or both -/
inductive IsFloat : List Char → Prop where
  | parts (whole frac expo : List Char) (hne : whole ≠ []) (hw : AllDigits whole)
    (hf : IsFraction frac) (he : IsExponent expo) (h : ¬(frac = [] ∧ expo = [])) :
    IsFloat (whole ++ (frac ++ expo))

theorem IsExponent.stops {expo rest : List Char} (h : IsExponent expo) (hrest : Ends rest)
    (p : Char → Bool) (hp : enders.any p = false) (he : p 'e' = false) :
    Stops p (expo ++ rest) := by
  cases h with
  | absent => exact hrest.stops hp
  | mark sign digits hs hne h =>
    intro c hc
    cases hc
    exact he

theorem IsExponent.split {expo rest : List Char} (h : IsExponent expo) (hrest : Ends rest) :
    exponent (expo ++ rest) = (expo, rest) := by
  cases h with
  | absent => exact exponent_ends hrest
  | mark sign digits hs hne h =>
    have hsign : exponentSign (sign ++ digits ++ rest) = (sign, digits ++ rest) := by
      rcases hs with rfl | rfl
      · cases digits with
        | nil => exact absurd rfl hne
        | cons c tail =>
          have hc : c.isDigit = true := h c List.mem_cons_self
          have hplus : c ≠ '+' := by
            rintro rfl
            revert hc
            decide
          have hminus : c ≠ '-' := by
            rintro rfl
            revert hc
            decide
          simp [exponentSign, hplus, hminus]
      · rfl
    rw [List.cons_append, exponent]
    simp only [hsign, takeWhile_stops h hrest.stops_digit, dropWhile_stops h hrest.stops_digit]
    simp [hne]

theorem IsFraction.split {frac rest : List Char} (h : IsFraction frac)
    (hrest : Stops (fun c => c.isDigit || c == '.') rest) : fraction (frac ++ rest) = (frac, rest) := by
  have hdigit : Stops Char.isDigit rest := fun c hc => (Bool.or_eq_false_iff.mp (hrest c hc)).1
  cases h with
  | absent =>
    refine fraction_other fun hdot => ?_
    exact absurd (hrest '.' hdot) (by decide)
  | point digits h =>
    rw [List.cons_append, fraction, takeWhile_stops h hdigit, dropWhile_stops h hdigit]

theorem IsFraction.stops {frac rest : List Char} (h : IsFraction frac)
    (hrest : Stops Char.isDigit rest) : Stops Char.isDigit (frac ++ rest) := by
  cases h with
  | absent => exact hrest
  | point digits h =>
    intro c hc
    cases hc
    rfl

theorem scans_float {cs : List Char} (h : IsFloat cs) (d : Nat) :
    Scans Ends d cs [.float (String.ofList cs)] d := by
  obtain ⟨whole, frac, expo, hne, hw, hf, he, hsome⟩ := h
  have hnumber : ∀ rest, Ends rest → number? (whole ++ (frac ++ expo) ++ rest)
      = some (.float (String.ofList (whole ++ (frac ++ expo))), rest) := by
    intro rest hrest
    have hexpo := he.stops hrest (fun c => c.isDigit || c == '.') (by decide) (by decide)
    have hdigit := hf.stops (he.stops hrest Char.isDigit (by decide) (by decide))
    rw [List.append_assoc, List.append_assoc]
    simp only [number?, takeWhile_stops hw hdigit, dropWhile_stops hw hdigit, hf.split hexpo,
      he.split hrest, not_extended hrest, Bool.false_eq_true, if_false, if_neg hsome,
      List.append_assoc]
  refine scans_token (fun rest hrest => ?_) rfl
  rw [← hnumber rest hrest]
  cases whole with
  | nil => exact absurd rfl hne
  | cons c tail => exact next?_digit (hw c List.mem_cons_self)

end VisualProgram.Python
