import VisualProgram.Literal
import VisualProgram.Proofs.Python.Lexer
import Mathlib.Data.List.TakeWhile

/-!
# The spelling of a float

The literal of a finite float is an optional minus sign, digits, and a point with digits or an
exponent or both (`float_spelling`): it is never taken for a whole number, and never for anything
that is no number.

That there is a digit to write at all is a fact about the search for the shortest digits: a float
other than zero has an interval that starts above zero, so no grid offers zero for it.
-/

namespace VisualProgram.Decimal
open Python

/-! ## there are digits -/

theorem admits_pos {s : Span} (h : 0 < s.low) {scale step digits : Nat} (hscale : 0 < scale)
    (ha : s.admits scale step digits = true) : 0 < digits := by
  have hlow : 0 < s.low * scale := Nat.mul_pos h hscale
  rcases Nat.eq_zero_or_pos digits with rfl | hd
  · unfold Span.admits at ha
    split at ha
    · simp only [Nat.zero_mul, decide_eq_true_eq] at ha
      omega
    · simp only [Nat.zero_mul, decide_eq_true_eq] at ha
      omega
  · exact hd

theorem le_pick (tie : Tie) (below rest step : Nat) : below ≤ tie.pick below rest step := by
  unfold Tie.pick
  split
  · exact Nat.le_refl _
  · split
    · exact Nat.le_succ _
    · cases tie with
      | up => exact Nat.le_succ _
      | even =>
        show below ≤ if below % 2 = 0 then below else below + 1
        split
        · exact Nat.le_refl _
        · exact Nat.le_succ _

theorem onGrid?_pos {s : Span} (h : 0 < s.low) {tie : Tie} {exponent : Int} {d : Scaled}
    (hd : s.onGrid? tie exponent = some d) : 0 < d.digits := by
  have hscale : 0 < Nat.pow 10 (-exponent).toNat := Nat.pow_pos (by decide)
  simp only [Span.onGrid?] at hd
  split at hd
  next hbelow _ =>
    cases hd
    exact Nat.lt_of_lt_of_le (admits_pos h hscale hbelow) (le_pick _ _ _ _)
  next hbelow _ =>
    cases hd
    exact admits_pos h hscale hbelow
  next =>
    cases hd
    exact Nat.succ_pos _
  next => cases hd

/-- a point of some grid, or the zero that stands for none -/
theorem shortest_cases {s : Span} (h : 0 < s.low) (tie : Tie) :
    0 < (s.shortest tie).digits ∨ s.shortest tie = ⟨0, 0⟩ := by
  unfold Span.shortest
  cases hf : (List.range 17).findSome? fun n => s.onGrid? tie (s.magnitude - Int.ofNat n) with
  | none => exact Or.inr rfl
  | some d =>
    obtain ⟨n, -, hn⟩ := List.exists_of_findSome?_eq_some hf
    exact Or.inl (onGrid?_pos h hn)

theorem low_pos {bits : UInt64} (h : bits.toNat % 0x8000000000000000 ≠ 0) :
    0 < (Span.ofBits bits).low := by
  have hsplit : bits.toNat % 0x8000000000000000
      = bits.toNat % 0x10000000000000
        + 0x10000000000000 * (bits.toNat / 0x10000000000000 % 0x800) := by omega
  have hlow : ∀ fraction biased : Nat, fraction + 0x10000000000000 * biased ≠ 0 →
      0 < if fraction = 0 ∧ 1 < biased
        then 4 * (if biased = 0 then fraction else fraction + 0x10000000000000) - 1
        else 4 * (if biased = 0 then fraction else fraction + 0x10000000000000) - 2 := by
    intro fraction biased hne
    split <;> split <;> omega
  exact Nat.mul_pos (hlow _ _ (hsplit ▸ h)) (Nat.pow_pos (by decide))

theorem digits_ne_nil {d : Scaled} (h : 0 < d.digits) : d.toDigits.digits ≠ [] := by
  intro hnil
  have hdrop : (Nat.toDigits 10 d.digits).reverse.dropWhile (· = '0') = [] :=
    List.reverse_eq_nil_iff.mp hnil
  cases hall : Nat.toDigits 10 d.digits with
  | nil => exact Nat.toDigits_ne_nil hall
  | cons c rest =>
    have hc : c = '0' := by
      have := List.dropWhile_eq_nil_iff.mp hdrop c (by simp [hall])
      simpa using this
    have := head_toDigits (n := d.digits) (by rw [hall, hc]; rfl)
    omega

theorem allDigits_toDigits (n : Nat) : AllDigits (Nat.toDigits 10 n) :=
  fun _ => Nat.isDigit_of_mem_toDigits (by decide) (by decide)

theorem allDigits_digits (d : Scaled) : AllDigits d.toDigits.digits := by
  intro c hc
  have hmem : c ∈ (Nat.toDigits 10 d.digits).reverse :=
    (List.dropWhile_suffix _).subset (List.mem_reverse.mp hc)
  exact allDigits_toDigits d.digits c (List.mem_reverse.mp hmem)

/-! ## both forms -/

theorem allDigits_append {a b : List Char} (ha : AllDigits a) (hb : AllDigits b) :
    AllDigits (a ++ b) := by
  intro c hc
  rcases List.mem_append.mp hc with h | h
  · exact ha c h
  · exact hb c h

theorem allDigits_zeros (n : Nat) : AllDigits (zeros n) := by
  intro c hc
  rw [List.eq_of_mem_replicate hc]
  rfl

theorem isFloat_positional {d : Digits} (hall : AllDigits d.digits) : IsFloat d.positional := by
  unfold Digits.positional
  split
  next =>
    have hparts := IsFloat.parts ['0'] ('.' :: (zeros (-d.point).toNat ++ d.digits)) [] (by simp)
      (by decide) (.point _ (allDigits_append (allDigits_zeros _) hall)) .absent (by simp)
    simpa using hparts
  next hpoint =>
    split
    next hlen =>
      have hne : d.digits ++ zeros (d.point - d.digits.length).toNat ≠ [] := by
        intro h
        have hl : (d.digits ++ zeros (d.point - d.digits.length).toNat).length = 0 := by rw [h]; rfl
        simp only [zeros, List.length_append, List.length_replicate] at hl
        omega
      exact .parts _ ['.', '0'] [] hne (allDigits_append hall (allDigits_zeros _))
        (.point ['0'] (by decide)) .absent (by simp)
    next hlen =>
      have hne : d.digits.take d.point.toNat ≠ [] := by
        intro h
        have hl : (d.digits.take d.point.toNat).length = 0 := by rw [h]; rfl
        rw [List.length_take] at hl
        omega
      have hparts := IsFloat.parts (d.digits.take d.point.toNat) ('.' :: d.digits.drop d.point.toNat)
        [] hne (fun c hc => hall c (List.mem_of_mem_take hc))
        (.point _ fun c hc => hall c (List.mem_of_mem_drop hc)) .absent (by simp)
      simpa using hparts

theorem isExponent_exponentText (e : Int) : IsExponent ('e' :: (exponentText "" e).toList) := by
  unfold exponentText
  split
  next =>
    have h := IsExponent.mark ['-'] (Nat.toDigits 10 e.natAbs) (Or.inr rfl) Nat.toDigits_ne_nil
      (allDigits_toDigits _)
    simpa using h
  next =>
    have h := IsExponent.mark [] (Nat.toDigits 10 e.natAbs) (Or.inl rfl) Nat.toDigits_ne_nil
      (allDigits_toDigits _)
    simpa using h

theorem isFloat_scientific {d : Digits} (hall : AllDigits d.digits) (hne : d.digits ≠ []) (e : Int) :
    IsFloat (d.significand ++ 'e' :: (exponentText "" e).toList) := by
  have hexpo := isExponent_exponentText e
  unfold Digits.significand
  split
  next h => exact absurd h hne
  next c h =>
    rw [h] at hall
    exact .parts [c] [] _ (by simp) hall .absent hexpo (by simp)
  next c rest _ h =>
    rw [h] at hall
    have hparts := IsFloat.parts [c] ('.' :: rest) _ (by simp)
      (fun x hx => hall x (by rw [List.mem_singleton.mp hx]; exact List.mem_cons_self))
      (.point _ fun x hx => hall x (List.mem_cons_of_mem _ hx)) hexpo (by simp)
    simpa using hparts

/-! ## the literal -/

theorem not_nan_of_finite {x : Float} (h : x.isFinite = true) : x.isNaN = false ∧ x.isInf = false := by
  unfold Float.isFinite Float.Model.isFinite at h
  unfold Float.isNaN Float.isInf Float.Model.isNaN Float.Model.isInf
  cases hx : x.toModel.unpack <;> rw [hx] at h <;> first | exact ⟨rfl, rfl⟩ | cases h

theorem isFloat_shortest {x : Float} (hzero : x.toBits.toNat % 0x8000000000000000 ≠ 0) :
    IsFloat (Literal.floatLayout.writeDigits (shortest .up x)).toList := by
  have hall : AllDigits (shortest .up x).digits := allDigits_digits _
  unfold Layout.writeDigits
  split
  next => simpa using isFloat_positional hall
  next hout =>
    have hne : (shortest .up x).digits ≠ [] := by
      rcases shortest_cases (low_pos hzero) .up with hpos | hnone
      · exact digits_ne_nil hpos
      · -- the zero that stands for no digits is written in the positional form
        refine absurd ?_ hout
        unfold shortest
        rw [hnone]
        decide
    have h := isFloat_scientific hall hne ((shortest .up x).point - 1)
    simpa [Literal.floatLayout] using h

/-- the literal of a finite float: a sign for a float below zero, then a spelling of a float -/
theorem float_spelling {x : Float} (h : x.isFinite = true) :
    ∃ s, IsFloat s
      ∧ (Literal.float x).toList = if signBit x.toBits then '-' :: s else s := by
  obtain ⟨hnan, hinf⟩ := not_nan_of_finite h
  unfold Literal.float Layout.write
  rw [if_pos h, hnan, hinf]
  simp only [Bool.false_eq_true, if_false]
  by_cases hzero : x.toBits.toNat % 0x8000000000000000 = 0
  · refine ⟨['0', '.', '0'], .parts ['0'] ['.', '0'] [] (by simp) (by decide)
      (.point ['0'] (by decide)) .absent (by simp), ?_⟩
    rw [if_pos hzero]
    split <;> simp
  · refine ⟨_, isFloat_shortest hzero, ?_⟩
    rw [if_neg hzero]
    split <;> simp [Literal.floatLayout]

/-- a float is told from a whole number by its point or its exponent -/
theorem mem_float {x : Float} (h : x.isFinite = true) :
    ∃ c ∈ (Literal.float x).toList, c = '.' ∨ c = 'e' := by
  obtain ⟨s, hs, htext⟩ := float_spelling h
  have hmem : ∃ c ∈ s, c = '.' ∨ c = 'e' := by
    cases hs with
    | parts whole frac expo hne hw hf he hparts =>
      cases hf with
      | point digits _ => exact ⟨'.', by simp, .inl rfl⟩
      | absent =>
        cases he with
        | mark sign digits _ _ _ => exact ⟨'e', by simp, .inr rfl⟩
        | absent => exact absurd ⟨rfl, rfl⟩ hparts
  obtain ⟨c, hc, hmark⟩ := hmem
  refine ⟨c, ?_, hmark⟩
  rw [htext]
  split
  next => exact List.mem_cons_of_mem _ hc
  next => exact hc

end VisualProgram.Decimal
