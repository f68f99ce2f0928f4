import VisualProgram.Proofs.Decimal.Reading
import VisualProgram.Proofs.Script.Meaning

/-!
# What rules read

The rules read numbers, truth values and the numbers of sockets character by character, with a limit for each
form.  The meaning of a block has readings of its own: a number of any size is read first, and then held against
one range.  Here the two are shown to be the same.
-/

namespace VisualProgram
open Python

/-! ## numbers -/

theorem unsigned_eq_self {cs : List Char} (hminus : ¬ cs.head? = some '-') (hplus : ∀ rest, cs ≠ '+' :: rest) :
    unsigned cs = cs := by
  refine if_neg fun hsign => hsign.elim hminus fun hhead => ?_
  obtain ⟨rest, rfl⟩ := List.head?_eq_some_iff.mp hhead
  exact hplus rest rfl

theorem integer?_eq_wholeNumber? (cs : List Char) : Decimal.integer? cs = wholeNumber? cs := by
  unfold Decimal.integer?
  split
  next rest => exact Decimal.map_filter_digits? Decimal.fits_negative rest
  next rest => exact Decimal.map_filter_digits? Decimal.fits_nonnegative rest
  next hminus hplus =>
    have hhead : ¬ cs.head? = some '-' := fun hhead => by
      obtain ⟨rest, rfl⟩ := List.head?_eq_some_iff.mp hhead
      exact hminus rest rfl
    rw [wholeNumber?, unsigned_eq_self hhead hplus, if_neg hhead]
    exact Decimal.map_filter_digits? Decimal.fits_nonnegative cs

theorem natural?_eq (cs : List Char) :
    Decimal.natural? cs
      = let n := Nat.ofDigitChars 10 (unsigned cs) 0
        if cs.head? ≠ some '-' ∧ unsigned cs ≠ [] ∧ (unsigned cs).all Char.isDigit ∧ n < 0x10000000000000000 then
          some n
        else none := by
  unfold Decimal.natural?
  dsimp only
  rw [Decimal.filter_digits?]
  simp only [decide_eq_true_eq]
  split
  next rest => exact if_congr ⟨fun hall => ⟨by simp, hall⟩, fun hall => hall.2⟩ rfl rfl
  next hplus =>
    by_cases hhead : cs.head? = some '-'
    · obtain ⟨rest, rfl⟩ := List.head?_eq_some_iff.mp hhead
      rw [if_neg fun hall => absurd hall.2.1 (by simp), if_neg fun hall => hall.1 rfl]
    · rw [unsigned_eq_self hhead hplus]
      exact if_congr ⟨fun hall => ⟨hhead, hall⟩, fun hall => hall.2⟩ rfl rfl

/-! ## truth values -/

/-- a field that says nothing counts as true -/
theorem toFlag?_eq (v : Json) : (Field.toFlag? v).getD true = !denies v := by
  cases v with
  | bool b => exact (Bool.not_not b).symm
  | string text =>
    have hword : String.ofList (text.toList.map Char.toLower) = "false"
        ↔ text.toList.map Char.toLower = "false".toList := by
      rw [← String.toList_inj, String.toList_ofList]
    simp only [Field.toFlag?, denies]
    split
    next htrue =>
      rw [← String.toList_inj, String.toList_ofList] at htrue
      rw [htrue]
      rfl
    next hfalse =>
      rw [hword.mp hfalse]
      rfl
    next hother =>
      rw [Option.getD_none, beq_eq_false_iff_ne.mpr fun h => hother (hword.mpr h)]
      rfl
  | _ => rfl

/-! ## numbered sockets -/

theorem after?_eq (head text : List Char) :
    Site.after? head text = if text.take head.length = head then some (text.drop head.length) else none := by
  induction head generalizing text with
  | nil => rfl
  | cons p ps ih =>
    cases text with
    | nil => rfl
    | cons c cs =>
      rw [Site.after?, ih, List.length_cons, List.take_succ_cons, List.drop_succ_cons]
      by_cases hc : p = c
      · rw [if_pos hc, hc]
        exact if_congr (by simp) rfl rfl
      · rw [if_neg hc, if_neg fun hall => hc (List.cons.inj hall).1.symm]

theorem slotIndex?_eq_partNumber? (name : String) : Site.slotIndex? "ADD" name = partNumber? name := by
  have hlength : "ADD".toList.length = 3 := rfl
  rw [Site.slotIndex?, after?_eq, hlength, partNumber?]
  by_cases hstem : name.toList.take 3 = "ADD".toList
  · rw [if_pos hstem, Option.bind_some, natural?_eq]
    exact if_congr ⟨fun hall => ⟨hstem, hall⟩, fun hall => hall.2⟩ rfl rfl
  · rw [if_neg hstem, if_neg fun hall => hstem hall.1]
    rfl

theorem pastGreatest_eq (indices : List Nat) :
    Site.pastGreatest indices
      = min (indices.foldr (fun n past => max (n + 1) past) 0) 0xffffffffffffffff := by
  have hfold : indices.foldr (fun n past => max (n + 1) past) 0 = (indices.max?.map (· + 1)).getD 0 := by
    induction indices with
    | nil => rfl
    | cons n rest ih =>
      rw [List.foldr_cons, ih, List.max?_cons]
      cases rest.max? with
      | none => simp
      | some m =>
        show max (n + 1) (m + 1) = max n m + 1
        omega
  rw [hfold, Site.pastGreatest]
  cases indices.max? <;> rfl

end VisualProgram
