import VisualProgram.Script.Session
import VisualProgram.Proofs.Python.Spelling

/-!
# Identifiers are names

Every identifier made from a label is a name of Python: a word, and none of the keywords
(`isName_ofLabel`).  So is what a scope makes of it when it is taken (`isName_fresh`).

Labels are cleaned to lower-case letters, digits and underscores, which keeps the keywords with a
capital away; the others are told apart by an underscore, which no keyword has.
-/

namespace VisualProgram.Python

/-- a word that is no keyword -/
def IsName (s : String) : Prop := isWord s.toList = true ∧ Assoc.get? s keywords = none

instance : DecidablePred IsName :=
  fun s => inferInstanceAs (Decidable (isWord s.toList = true ∧ Assoc.get? s keywords = none))

theorem IsName.token {s : String} (h : IsName s) : wordToken (String.ofList s.toList) = .name s := by
  rw [String.ofList_toList, wordToken, h.2]

theorem stops_word {s : String} (hword : isWord s.toList = true) : Stops joinsMinus s.toList := by
  intro c hc
  cases hs : s.toList with
  | nil =>
    rw [hs] at hc
    cases hc
  | cons x xs =>
    rw [hs] at hc hword
    cases hc
    have hstart : isWordStart c = true := (Bool.and_eq_true_iff.mp hword).1
    have hne : c ≠ '=' ∧ c ≠ '>' := by
      constructor
      · rintro rfl
        exact absurd hstart (by decide)
      · rintro rfl
        exact absurd hstart (by decide)
    simp [joinsMinus, hne]

theorem IsName.spells {s : String} (h : IsName s) : Spells .atomic s.toList (.name s) :=
  ⟨_, ⟨fun d => h.token ▸ scans_word h.1 d, stops_word h.1⟩, .name s⟩

/-! ## calls -/

theorem IsName.ne_nil {s : String} (h : IsName s) : s.toList ≠ [] := by
  intro hs
  have hword := h.1
  rw [hs] at hword
  cases hword

/-- a function called by its name -/
theorem IsName.opens {s : String} (h : IsName s) : Opens (s.toList ++ ['(']) (.name s) := by
  refine ⟨[.name s], fun d => ?_, ?_, by simp, (Derives.name s).mono (by decide)⟩
  · exact (h.token ▸ scans_word_stops h.1 d).append (scans_leftParen d)
      fun rest _ => stops_cons rfl _
  · obtain ⟨c, cs, hs⟩ := List.exists_cons_of_ne_nil h.ne_nil
    have hstop := stops_word h.1
    rw [hs] at hstop ⊢
    exact hstop

theorem next?_dot {cs : List Char} (h : Stops (· == '.') cs) :
    next? ('.' :: cs) = some (.sign .dot, cs) := by
  cases cs with
  | nil => rfl
  | cons c cs =>
    have hne : c ≠ '.' := by simpa using h c rfl
    have hc : ('.' == c) = false := by simpa using hne.symm
    simp [next?, sign?, signs, signs.other, isWordStart, List.isPrefixOf, hc]

/-- a function of a module -/
theorem opens_member {s f : String} (h : IsName s) (hf : IsName f)
    (hdot : Stops (· == '.') f.toList) :
    Opens (s.toList ++ ('.' :: (f.toList ++ ['(']))) (.member (.name s) f) := by
  refine ⟨[.name s, .sign .dot, .name f], fun d => ?_, ?_, by simp, ?_⟩
  · have hfunction := (hf.token ▸ scans_word_stops hf.1 d).append (scans_leftParen d)
      fun rest _ => stops_cons rfl _
    have hpoint : Scans (Stops (· == '.')) d ['.'] [.sign .dot] d :=
      scans_token (fun rest hrest => next?_dot hrest) rfl
    have hmember := hpoint.append hfunction fun rest _ => by
      obtain ⟨c, cs, hs⟩ := List.exists_cons_of_ne_nil hf.ne_nil
      rw [hs] at hdot ⊢
      exact hdot
    exact (h.token ▸ scans_word_stops h.1 d).append hmember fun rest _ => stops_cons rfl _
  · obtain ⟨c, cs, hs⟩ := List.exists_cons_of_ne_nil h.ne_nil
    have hstop := stops_word h.1
    rw [hs] at hstop ⊢
    exact hstop
  · exact .member f ((Derives.name s).mono (by decide))

end VisualProgram.Python

namespace VisualProgram.Identifier
open Python

/-! ## characters -/

theorem toNat_lt_of_alphanum {c : Char} (h : c.isAlphanum = true) : c.toNat < 128 := by
  simp only [Char.isAlphanum, isAlpha_eq, Bool.or_eq_true] at h
  rcases h with (hu | hl) | hd
  · have := isUpper_iff_toNat.mp hu
    omega
  · have := isLower_iff_toNat.mp hl
    omega
  · have hdigit : 48 ≤ c.toNat ∧ c.toNat ≤ 57 := Char.isDigit_iff_toNat.mp hd
    omega

/-- the characters of a cleaned label -/
def isCleanChar (c : Char) : Bool := c.isLower || c.isDigit || c == '_'

theorem isCleanChar_toLower {c : Char} (h : c.isAlphanum = true) : isCleanChar c.toLower = true := by
  have key : ∀ n < 128, (Char.ofNat n).isAlphanum = true →
      isCleanChar (Char.ofNat n).toLower = true := by decide
  have hn := key c.toNat (toNat_lt_of_alphanum h)
  rw [Char.ofNat_toNat] at hn
  exact hn h

theorem isWordChar_of_clean {c : Char} (h : isCleanChar c = true) : isWordChar c = true := by
  simp only [isCleanChar, isWordChar, Char.isAlphanum, isAlpha_eq, Bool.or_eq_true] at h ⊢
  tauto

/-- a clean character at the front of a word is no digit -/
theorem isWordStart_of_clean {c : Char} (h : isCleanChar c = true) (hd : c.isDigit = false) :
    isWordStart c = true := by
  simp only [isCleanChar, isWordStart, isAlpha_eq, Bool.or_eq_true, hd] at h ⊢
  tauto

/-! ## cleaned labels -/

theorem mem_of_mem_runsFrom {keep : Char → Bool} {cs word : List Char}
    (hword : ∀ c ∈ word, keep c = true) :
    ∀ w ∈ runsFrom keep word cs, ∀ c ∈ w, keep c = true := by
  have hemit : ∀ {word : List Char}, (∀ c ∈ word, keep c = true) →
      ∀ w ∈ emit word, ∀ c ∈ w, keep c = true := by
    intro word hword w hw
    unfold emit at hw
    split at hw
    · cases hw
    · rw [List.mem_singleton.mp hw]
      exact hword
  have hnil : ∀ c ∈ ([] : List Char), keep c = true := by simp
  induction cs generalizing word with
  | nil => exact hemit hword
  | cons c cs ih =>
    rw [runsFrom]
    split
    next hc =>
      refine ih fun x hx => ?_
      rcases List.mem_append.mp hx with hx | hx
      · exact hword x hx
      · rw [List.mem_singleton.mp hx]
        exact hc
    next =>
      intro w hw
      rcases List.mem_append.mp hw with hw | hw
      · exact hemit hword w hw
      · exact ih hnil w hw

theorem mem_of_mem_runs {keep : Char → Bool} {cs : List Char} :
    ∀ w ∈ runs keep cs, ∀ c ∈ w, keep c = true := mem_of_mem_runsFrom (by simp)

theorem forall_mem_append {p : Char → Prop} {a b : String} (ha : ∀ c ∈ a.toList, p c)
    (hb : ∀ c ∈ b.toList, p c) : ∀ c ∈ (a ++ b).toList, p c := by
  rw [String.toList_append]
  exact List.forall_mem_append.mpr ⟨ha, hb⟩

theorem forall_mem_intercalate {p : Char → Prop} {separator : String} {parts : List String}
    (hs : ∀ c ∈ separator.toList, p c) (h : ∀ part ∈ parts, ∀ c ∈ part.toList, p c) :
    ∀ c ∈ (String.intercalate separator parts).toList, p c := by
  induction parts with
  | nil => simp
  | cons part rest ih =>
    have hrest := ih fun x hx => h x (List.mem_cons_of_mem _ hx)
    have hpart := h part List.mem_cons_self
    cases rest with
    | nil =>
      rw [String.intercalate_singleton]
      exact hpart
    | cons next rest =>
      rw [String.intercalate_cons_cons]
      exact forall_mem_append (forall_mem_append hpart hs) hrest

theorem isCleanChar_clean (text : String) : ∀ c ∈ (clean text).toList, isCleanChar c = true := by
  refine forall_mem_intercalate (List.all_eq_true.mp (by decide)) fun part hpart => ?_
  obtain ⟨w, hw, rfl⟩ := List.mem_map.mp hpart
  intro c hc
  rw [String.toList_ofList] at hc
  obtain ⟨x, hx, rfl⟩ := List.mem_map.mp hc
  exact isCleanChar_toLower (mem_of_mem_runs w hw x hx)

theorem isCleanChar_underscore : ∀ c ∈ "_".toList, isCleanChar c = true :=
  List.all_eq_true.mp (by decide)

theorem isCleanChar_avoidDigit {s : String} (h : ∀ c ∈ s.toList, isCleanChar c = true) :
    ∀ c ∈ (avoidDigit s).toList, isCleanChar c = true := by
  unfold avoidDigit
  split
  · exact forall_mem_append isCleanChar_underscore h
  · exact h

/-! ## words -/

theorem isWord_append {a b : List Char} (ha : isWord a = true) (hb : b.all isWordChar = true) :
    isWord (a ++ b) = true := by
  cases a with
  | nil => cases ha
  | cons c cs =>
    obtain ⟨hc, hall⟩ := (Bool.and_eq_true _ _).mp ha
    rw [List.cons_append, isWord, hc, Bool.true_and, ← List.cons_append, List.all_append, hall,
      Bool.true_and]
    exact hb

/-- no keyword has an underscore -/
theorem isName_of_underscore {s : String} (hw : isWord s.toList = true) (hu : '_' ∈ s.toList) :
    IsName s := by
  have key : ∀ w ∈ Assoc.keys Python.keywords, '_' ∉ w.toList := by decide
  refine ⟨hw, (Assoc.get?_eq_none_iff _ _).mpr fun hk => ?_⟩
  exact key s hk hu

/-- a keyword of clean characters is in the list -/
theorem isName_of_clean {s : String} (hw : isWord s.toList = true)
    (hc : ∀ c ∈ s.toList, isCleanChar c = true) (hk : s ∉ Identifier.keywords) : IsName s := by
  have key : ∀ w ∈ Assoc.keys Python.keywords,
      w ∈ Identifier.keywords ∨ w.toList.all isCleanChar = false := by decide
  refine ⟨hw, (Assoc.get?_eq_none_iff _ _).mpr fun hkey => ?_⟩
  rcases key s hkey with h | h
  · exact hk h
  · rw [List.all_eq_true.mpr hc] at h
    cases h

theorem isWord_avoidDigit {s : String} (hne : s.toList ≠ [])
    (hc : ∀ c ∈ s.toList, isCleanChar c = true) : isWord (avoidDigit s).toList = true := by
  obtain ⟨c, cs, hs⟩ := List.exists_cons_of_ne_nil hne
  have hword : ∀ x ∈ s.toList, isWordChar x = true := fun x hx => isWordChar_of_clean (hc x hx)
  unfold avoidDigit
  split
  next =>
    rw [String.toList_append]
    exact isWord_append (a := ['_']) rfl (List.all_eq_true.mpr hword)
  next hdigit =>
    rw [startsWithDigit, hs] at hdigit
    have hfirst : c.isDigit = false := by simpa using hdigit
    rw [hs] at hc hword
    rw [hs, isWord, isWordStart_of_clean (hc c List.mem_cons_self) hfirst, Bool.true_and,
      List.all_eq_true]
    exact hword

/-! ## identifiers -/

theorem isName_ofLabel {stem : String} (hstem : IsName stem) (label id : String) :
    IsName (ofLabel stem label id) := by
  have hclean := isCleanChar_clean label
  simp only [ofLabel]
  split
  next hletter =>
    have hne : (clean label).toList ≠ [] := by
      intro h
      simp [hasLetter, h] at hletter
    have hword := isWord_avoidDigit hne hclean
    unfold avoidKeyword
    split
    next =>
      refine isName_of_underscore ?_ (by simp)
      rw [String.toList_append]
      exact isWord_append hword (by decide)
    next hk => exact isName_of_clean hword (isCleanChar_avoidDigit hclean) hk
  next =>
    split
    next => exact hstem
    next =>
      refine isName_of_underscore ?_ (by simp)
      rw [String.toList_append, String.toList_append]
      refine isWord_append (isWord_append hstem.1 (by decide)) (List.all_eq_true.mpr fun c hc => ?_)
      exact isWordChar_of_clean (isCleanChar_clean id c hc)

theorem isName_fresh (scope : Scope) {base : String} (h : IsName base) :
    IsName (scope.fresh base) := by
  unfold Scope.fresh
  split
  · refine isName_of_underscore ?_ (by simp [Scope.numbered, Scope.candidate])
    simp only [Scope.numbered, Scope.candidate, String.toList_append]
    refine isWord_append (isWord_append h.1 (by decide)) (List.all_eq_true.mpr fun c hc => ?_)
    rw [Nat.toString_eq_repr, Nat.toList_repr] at hc
    have hdigit := Nat.isDigit_of_mem_toDigits (by decide) (by decide) hc
    simp [isWordChar, Char.isAlphanum, hdigit]
  · exact h

/-! ## lower case -/

theorem isCleanChar_ofLabel {stem : String} (hstem : ∀ c ∈ stem.toList, isCleanChar c = true)
    (label id : String) : ∀ c ∈ (ofLabel stem label id).toList, isCleanChar c = true := by
  have hdigit := isCleanChar_avoidDigit (isCleanChar_clean label)
  simp only [ofLabel]
  split
  · unfold avoidKeyword
    split
    · exact forall_mem_append hdigit isCleanChar_underscore
    · exact hdigit
  · split
    · exact hstem
    · exact forall_mem_append (forall_mem_append hstem isCleanChar_underscore) (isCleanChar_clean id)

theorem isCleanChar_fresh (scope : Scope) {base : String}
    (h : ∀ c ∈ base.toList, isCleanChar c = true) :
    ∀ c ∈ (scope.fresh base).toList, isCleanChar c = true := by
  unfold Scope.fresh
  split
  · refine forall_mem_append (forall_mem_append h isCleanChar_underscore) fun c hc => ?_
    rw [Nat.toString_eq_repr, Nat.toList_repr] at hc
    have hdigit := Nat.isDigit_of_mem_toDigits (by decide) (by decide) hc
    simp [isCleanChar, hdigit]
  · exact h

/-- a text with a capital is made from no label -/
theorem ne_of_clean {name other : String} (hclean : ∀ c ∈ name.toList, isCleanChar c = true)
    (hupper : other.toList.any Char.isUpper = true) : name ≠ other := by
  rintro rfl
  obtain ⟨c, hc, hcapital⟩ := List.any_eq_true.mp hupper
  have hrange := isUpper_iff_toNat.mp hcapital
  have hkind := hclean c hc
  simp only [isCleanChar, Bool.or_eq_true, beq_iff_eq] at hkind
  rcases hkind with (hlower | hdigit) | rfl
  · have := isLower_iff_toNat.mp hlower
    omega
  · have hdigit : 48 ≤ c.toNat ∧ c.toNat ≤ 57 := Char.isDigit_iff_toNat.mp hdigit
    omega
  · exact absurd hcapital (by decide)

/-! ## class names -/

theorem isAlphanum_capitalize {w : List Char} (h : ∀ c ∈ w, c.isAlphanum = true) :
    ∀ c ∈ capitalize w, c.isAlphanum = true := by
  cases w with
  | nil => exact h
  | cons c w =>
    obtain ⟨hc, hw⟩ := List.forall_mem_cons.mp h
    have key : ∀ n < 128, (Char.ofNat n).isAlphanum = true →
        (Char.ofNat n).toUpper.isAlphanum = true := by decide
    have hupper := key c.toNat (toNat_lt_of_alphanum hc)
    rw [Char.ofNat_toNat] at hupper
    exact List.forall_mem_cons.mpr ⟨hupper hc, hw⟩

theorem isWord_avoidDigit_append {s ending : String} (h : ∀ c ∈ s.toList, c.isAlphanum = true)
    (hending : isWord ending.toList = true) : isWord (avoidDigit s ++ ending).toList = true := by
  have hall : ∀ c ∈ s.toList, isWordChar c = true := fun c hc => by simp [isWordChar, h c hc]
  have hrest : ending.toList.all isWordChar = true := by
    cases hlist : ending.toList with
    | nil => rfl
    | cons c cs =>
      rw [hlist] at hending
      exact (Bool.and_eq_true_iff.mp hending).2
  rw [String.toList_append]
  unfold avoidDigit
  split
  next =>
    rw [String.toList_append]
    exact isWord_append (isWord_append (a := ['_']) rfl (List.all_eq_true.mpr hall)) hrest
  next hdigit =>
    cases hs : s.toList with
    | nil => exact hending
    | cons c cs =>
      rw [startsWithDigit, hs] at hdigit
      rw [hs] at h hall
      have hfirst : c.isDigit = false := by simpa using hdigit
      have hstart : isWordStart c = true := by
        have halpha := h c List.mem_cons_self
        simp only [Char.isAlphanum, hfirst, Bool.or_false] at halpha
        simp [isWordStart, halpha]
      refine isWord_append ?_ hrest
      rw [isWord, hstart, Bool.true_and, List.all_eq_true]
      exact hall

/-- class names end as no keyword does -/
theorem isName_className {ending : String} (hending : isWord ending.toList = true)
    (hkey : ∀ w ∈ Assoc.keys Python.keywords, ¬ending.toList <:+ w.toList) (tag : String) :
    IsName (className ending tag) := by
  have hbody : ∀ c ∈ (String.ofList ((runs Char.isAlphanum tag.toList).flatMap capitalize)).toList,
      c.isAlphanum = true := by
    intro c hc
    rw [String.toList_ofList] at hc
    obtain ⟨w, hw, hmem⟩ := List.mem_flatMap.mp hc
    exact isAlphanum_capitalize (mem_of_mem_runs w hw) c hmem
  refine ⟨isWord_avoidDigit_append hbody hending, (Assoc.get?_eq_none_iff _ _).mpr fun hk => ?_⟩
  refine hkey _ hk ?_
  rw [className, String.toList_append]
  exact List.suffix_append _ _

end VisualProgram.Identifier
