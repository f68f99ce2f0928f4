import VisualProgram.Decimal.Reading
import VisualProgram.Proofs.Literal.Spelling
import VisualProgram.Text.Chars

/-!
# Reading digits

The decimal digits of a number are read as the number: by `natural?` and `integer?` if it fits, by `float?`
up to rounding.
-/

namespace VisualProgram.Decimal

/-! ## whole numbers -/

theorem filter_digits? (p : Nat → Bool) (digits : List Char) :
    (digits? digits).filter p
      = if digits ≠ [] ∧ digits.all Char.isDigit ∧ p (Nat.ofDigitChars 10 digits 0) then
          some (Nat.ofDigitChars 10 digits 0)
        else none := by
  unfold digits?
  by_cases hdigits : digits ≠ [] ∧ digits.all Char.isDigit = true
  · rw [if_pos hdigits, Option.filter_some]
    exact if_congr ⟨fun hp => ⟨hdigits.1, hdigits.2, hp⟩, fun hall => hall.2.2⟩ rfl rfl
  · rw [if_neg hdigits, if_neg fun hall => hdigits ⟨hall.1, hall.2.1⟩]
    rfl

/-- the limit of each form puts the number between `-2 ^ 63` and `2 ^ 63 - 1` -/
theorem fits_nonnegative (k : Nat) : decide (k < 0x8000000000000000) = true
    ↔ -0x8000000000000000 ≤ (k : Int) ∧ (k : Int) < 0x8000000000000000 := by
  rw [decide_eq_true_iff]
  omega

theorem fits_negative (k : Nat) : decide (k ≤ 0x8000000000000000) = true
    ↔ -0x8000000000000000 ≤ -(k : Int) ∧ -(k : Int) < 0x8000000000000000 := by
  rw [decide_eq_true_iff]
  omega

theorem map_filter_digits? {p : Nat → Bool} {f : Nat → Int}
    (h : ∀ k, p k = true ↔ -0x8000000000000000 ≤ f k ∧ f k < 0x8000000000000000) (digits : List Char) :
    ((digits? digits).filter p).map f
      = let n := f (Nat.ofDigitChars 10 digits 0)
        if digits ≠ [] ∧ digits.all Char.isDigit ∧ -0x8000000000000000 ≤ n ∧ n < 0x8000000000000000 then some n
        else none := by
  rw [filter_digits?, apply_ite (Option.map f)]
  exact if_congr (and_congr_right' (and_congr_right' (h _))) rfl rfl

theorem digits?_toDigits (n : Nat) : digits? (Nat.toDigits 10 n) = some n := by
  have hdigits : (Nat.toDigits 10 n).all Char.isDigit = true := List.all_eq_true.mpr (allDigits_toDigits n)
  rw [digits?, if_pos ⟨Nat.toDigits_ne_nil, hdigits⟩, Nat.ofDigitChars_ten_toDigits]

theorem natural?_toDigits (n : Nat) :
    natural? (Nat.toDigits 10 n) = if n < 0x10000000000000000 then some n else none := by
  unfold natural?
  split
  next rest hplus => exact absurd (allDigits_toDigits n '+' (hplus ▸ List.mem_cons_self)) (by decide)
  next =>
    show (digits? (Nat.toDigits 10 n)).filter _ = _
    rw [digits?_toDigits, Option.filter_some, if_congr decide_eq_true_iff rfl rfl]

theorem map_filter_toDigits {p : Nat → Bool} {f : Nat → Int}
    (h : ∀ k, p k = true ↔ -0x8000000000000000 ≤ f k ∧ f k < 0x8000000000000000) {n : Nat} {value : Int}
    (hvalue : f n = value) :
    ((digits? (Nat.toDigits 10 n)).filter p).map f
      = if -0x8000000000000000 ≤ value ∧ value < 0x8000000000000000 then some value else none := by
  rw [digits?_toDigits, Option.filter_some, apply_ite (Option.map f), Option.map_some, hvalue]
  exact if_congr (hvalue ▸ h n) rfl rfl

/-- a whole number is read as itself, if it fits 63 bits and a sign -/
theorem integer?_toString (n : Int) :
    integer? (toString n).toList
      = if -0x8000000000000000 ≤ n ∧ n < 0x8000000000000000 then some n else none := by
  rw [Python.toList_int]
  by_cases hn : n < 0
  · have hvalue : -(n.natAbs : Int) = n := by omega
    rw [if_pos hn]
    exact map_filter_toDigits fits_negative hvalue
  · have hdigits := allDigits_toDigits n.natAbs
    rw [if_neg hn]
    unfold integer?
    split
    next rest heq => exact absurd (hdigits '-' (heq ▸ List.mem_cons_self)) (by decide)
    next rest heq => exact absurd (hdigits '+' (heq ▸ List.mem_cons_self)) (by decide)
    next => exact map_filter_toDigits fits_nonnegative (Int.natAbs_of_nonneg (Int.not_lt.mp hn))

theorem mem_toString {n : Int} {c : Char} (h : c ∈ (toString n).toList) : c = '-' ∨ c.isDigit = true := by
  rw [Python.toList_int] at h
  by_cases hn : n < 0
  · rw [if_pos hn] at h
    exact (List.mem_cons.mp h).imp_right (allDigits_toDigits _ c)
  · rw [if_neg hn] at h
    exact .inr (allDigits_toDigits _ c h)

/-! ## decimals -/

theorem splitSign_digits {cs : List Char} (h : ∀ c ∈ cs, c.isDigit = true) : splitSign cs = (.absent, cs) := by
  unfold splitSign
  split
  next rest => exact absurd (h '-' List.mem_cons_self) (by decide)
  next rest => exact absurd (h '+' List.mem_cons_self) (by decide)
  next => rfl

theorem scan?_digits {cs : List Char} (h : ∀ c ∈ cs, c.isDigit = true) :
    Numeral.scan? cs = some ⟨.absent, cs, none, none⟩ := by
  have htake : cs.takeWhile Char.isDigit = cs := List.takeWhile_eq_self_iff.mpr h
  have hdrop : cs.dropWhile Char.isDigit = [] := List.dropWhile_eq_nil_iff.mpr h
  simp only [Numeral.scan?, splitSign_digits h, htake, hdrop]
  rfl

theorem scan?_minus_digits {cs : List Char} (h : ∀ c ∈ cs, c.isDigit = true) :
    Numeral.scan? ('-' :: cs) = some ⟨.minus, cs, none, none⟩ := by
  have htake : cs.takeWhile Char.isDigit = cs := List.takeWhile_eq_self_iff.mpr h
  have hdrop : cs.dropWhile Char.isDigit = [] := List.dropWhile_eq_nil_iff.mpr h
  simp only [Numeral.scan?, splitSign, htake, hdrop]
  rfl

/-! ## floats -/

/-- digits are neither blank nor capitals -/
theorem plain_of_isDigit {c : Char} (h : c.isDigit = true) : Text.isBlank c = false ∧ c.toLower = c := by
  have key : ∀ n < 58, (Char.ofNat n).isDigit = true →
      Text.isBlank (Char.ofNat n) = false ∧ (Char.ofNat n).toLower = Char.ofNat n := by decide
  have hrange : 48 ≤ c.toNat ∧ c.toNat ≤ 57 := Char.isDigit_iff_toNat.mp h
  have hc := key c.toNat (Nat.lt_succ_iff.mpr hrange.2)
  rw [Char.ofNat_toNat] at hc
  exact hc h

theorem special?_digits {cs : List Char} (h : Python.AllDigits cs) : special? cs = none := by
  have hlower : cs.map Char.toLower = cs := by
    refine (List.map_congr_left fun c hc => ?_).trans (List.map_id cs)
    exact (plain_of_isDigit (h c hc)).2
  have hother (word : String) (hword : word.toList.all Char.isDigit = false) : String.ofList cs ≠ word := by
    intro heq
    rw [← heq, String.toList_ofList, List.all_eq_true.mpr h] at hword
    cases hword
  unfold special?
  rw [hlower]
  dsimp only
  rw [if_neg (not_or.mpr ⟨hother "inf" (by decide), hother "infinity" (by decide)⟩),
    if_neg (hother "nan" (by decide))]

/-- the digits of a number are read as the float nearest to it -/
theorem float?_toDigits (n : Nat) : float? (Nat.toDigits 10 n) = some (Float.ofNat n) := by
  have hdigits := allDigits_toDigits n
  have hnumeral : (⟨.absent, Nat.toDigits 10 n, none, none⟩ : Numeral).toFloat = Float.ofNat n := by
    unfold Numeral.toFloat
    show Float.ofScientific (Nat.ofDigitChars 10 (Nat.toDigits 10 n ++ []) 0) false 0 = _
    rw [List.append_nil, Nat.ofDigitChars_ten_toDigits]
    rfl
  unfold float?
  rw [splitSign_digits hdigits]
  dsimp only
  rw [special?_digits hdigits, scan?_digits hdigits, Option.bind_some]
  dsimp only
  rw [hnumeral]
  exact if_neg (by simp [Nat.toDigits_ne_nil])

end VisualProgram.Decimal
