import VisualProgram.Proofs.Identifier.Names

/-!
# Identifiers of identifiers

Cleaning a text takes it to its words.  A text of clean words has just these words (`words_intercalate`),
and underscores around a text or between two texts are no part of a word (`words_append`).  So cleaning undoes
what is put around a cleaned label to make it an identifier, the underscore before a digit and the one after a
keyword, and does nothing else to it.  It follows that identifiers are their own identifiers.

* `IsStem`            what may stand in for a label without letters;
* `clean_avoidDigit`, `clean_avoidKeyword`, `clean_stem`   cleaning what an identifier is made of;
* `ofLabel_cases`     the forms of an identifier.
-/

namespace VisualProgram.Identifier
open Python

/-! ## stems -/

/-- a cleaned text that starts with a letter and is no keyword -/
def IsStem (stem : String) : Prop :=
  clean stem = stem ∧ stem.toList.head?.any Char.isAlpha = true ∧ stem ∉ keywords

instance : DecidablePred IsStem := fun stem => inferInstanceAs
  (Decidable (clean stem = stem ∧ stem.toList.head?.any Char.isAlpha = true ∧ stem ∉ keywords))

/-- the stems of components, variables, blocks and items -/
def stems : List String := ["component", "variable", "block", "item"]

/-! ## words of a text -/

/-- the words of a text in lower case -/
def words (text : String) : List String :=
  (runs Char.isAlphanum text.toList).map fun w => String.ofList (w.map Char.toLower)

theorem clean_eq (text : String) : clean text = String.intercalate "_" (words text) := rfl

/-- a word as it is after cleaning -/
def IsCleanWord (w : String) : Prop := w ≠ "" ∧ ∀ c ∈ w.toList, c.isAlphanum = true ∧ c.toLower = c

theorem toLower_alphanum {c : Char} (h : c.isAlphanum = true) :
    c.toLower.isAlphanum = true ∧ c.toLower.toLower = c.toLower := by
  have key : ∀ n < 128, (Char.ofNat n).isAlphanum = true →
      (Char.ofNat n).toLower.isAlphanum = true ∧ (Char.ofNat n).toLower.toLower = (Char.ofNat n).toLower := by
    decide
  have hn := key c.toNat (toNat_lt_of_alphanum h)
  rw [Char.ofNat_toNat] at hn
  exact hn h

section
variable {keep : Char → Bool}

theorem ne_nil_of_mem_emit {word w : List Char} (h : w ∈ emit word) : w ≠ [] := by
  unfold emit at h
  split at h
  next => cases h
  next hne =>
    rw [List.mem_singleton.mp h]
    exact hne

theorem ne_nil_of_mem_runsFrom {cs word w : List Char} (h : w ∈ runsFrom keep word cs) : w ≠ [] := by
  induction cs generalizing word with
  | nil => exact ne_nil_of_mem_emit h
  | cons c cs ih =>
    rw [runsFrom] at h
    split at h
    next => exact ih h
    next =>
      rcases List.mem_append.mp h with h | h
      · exact ne_nil_of_mem_emit h
      · exact ih h

/-- a character that is not kept ends the run before it -/
theorem runsFrom_break {c : Char} (hc : keep c = false) (word a b : List Char) :
    runsFrom keep word (a ++ c :: b) = runsFrom keep word a ++ runs keep b := by
  induction a generalizing word with
  | nil =>
    have hstep : runsFrom keep word (c :: b) = emit word ++ runsFrom keep [] b := by
      rw [runsFrom, hc, if_neg (by decide)]
    exact hstep
  | cons x a ih =>
    rw [List.cons_append, runsFrom, runsFrom, ih, ih]
    split
    next => rfl
    next => rw [List.append_assoc]

theorem runsFrom_kept {cs : List Char} (h : ∀ c ∈ cs, keep c = true) (word : List Char) :
    runsFrom keep word cs = emit (word ++ cs) := by
  induction cs generalizing word with
  | nil => rw [List.append_nil, runsFrom]
  | cons c cs ih =>
    obtain ⟨hc, hcs⟩ := List.forall_mem_cons.mp h
    rw [runsFrom, if_pos hc, ih hcs, List.append_assoc, List.singleton_append]

end

@[simp] theorem words_append (a b : String) : words (a ++ "_" ++ b) = words a ++ words b := by
  have htext : (a ++ "_" ++ b).toList = a.toList ++ '_' :: b.toList := by simp
  rw [words, htext, runs, runsFrom_break (by decide), List.map_append]
  rfl

theorem words_word {w : String} (h : IsCleanWord w) : words w = [w] := by
  obtain ⟨hne, hchars⟩ := h
  have hlist : w.toList ≠ [] := fun hnil => hne (String.toList_eq_nil_iff.mp hnil)
  have hlower : w.toList.map Char.toLower = w.toList :=
    (List.map_congr_left fun c hc => (hchars c hc).2).trans (List.map_id _)
  rw [words, runs, runsFrom_kept fun c hc => (hchars c hc).1, List.nil_append, emit, if_neg hlist,
    List.map_singleton, hlower, String.ofList_toList]

theorem isCleanWord_words (text : String) : ∀ w ∈ words text, IsCleanWord w := by
  intro w hw
  obtain ⟨run, hrun, rfl⟩ := List.mem_map.mp hw
  constructor
  · intro hempty
    have hnil := String.toList_eq_nil_iff.mpr hempty
    rw [String.toList_ofList, List.map_eq_nil_iff] at hnil
    exact ne_nil_of_mem_runsFrom hrun hnil
  · intro c hc
    rw [String.toList_ofList] at hc
    obtain ⟨x, hx, rfl⟩ := List.mem_map.mp hc
    exact toLower_alphanum (mem_of_mem_runs run hrun x hx)

theorem words_intercalate {ws : List String} (h : ∀ w ∈ ws, IsCleanWord w) :
    words (String.intercalate "_" ws) = ws := by
  induction ws with
  | nil => rfl
  | cons w ws ih =>
    obtain ⟨hw, hws⟩ := List.forall_mem_cons.mp h
    cases ws with
    | nil =>
      rw [String.intercalate_singleton]
      exact words_word hw
    | cons next ws =>
      simp [String.intercalate_cons_cons, words_word hw, ih hws]

@[simp] theorem words_clean (text : String) : words (clean text) = words text :=
  words_intercalate (isCleanWord_words text)

theorem clean_clean (text : String) : clean (clean text) = clean text := by
  rw [clean_eq, words_clean, ← clean_eq]

/-! ## what identifiers are made of -/

/-- cleaning takes away the underscore after a keyword -/
theorem clean_underscore (text : String) : clean (text ++ "_") = clean text := by
  have hwords := words_append text ""
  rw [String.append_empty] at hwords
  rw [clean_eq, hwords]
  exact congrArg (String.intercalate "_") (List.append_nil _)

/-- cleaning takes away the underscore before a digit -/
theorem underscore_clean (text : String) : clean ("_" ++ text) = clean text := by
  have hwords := words_append "" text
  rw [String.empty_append] at hwords
  rw [clean_eq, hwords]
  rfl

theorem clean_ne_empty {text : String} : clean text ≠ "" ↔ words text ≠ [] := by
  have hempty : words "" = [] := rfl
  rw [not_iff_not]
  constructor
  · intro h
    rw [← words_clean, h, hempty]
  · intro h
    rw [clean_eq, h, String.intercalate_nil]

/-- a stem with a cleaned id after it is clean -/
theorem clean_stem {stem id : String} (hstem : clean stem = stem) (hne : stem ≠ "") (hid : clean id ≠ "") :
    clean (stem ++ "_" ++ clean id) = stem ++ "_" ++ clean id := by
  have hwords : words stem ≠ [] := clean_ne_empty.mp (hstem.symm ▸ hne)
  rw [clean_eq, words_append, words_clean,
    String.intercalate_append_of_ne_nil hwords (clean_ne_empty.mp hid), ← clean_eq, ← clean_eq, hstem]

@[simp] theorem hasLetter_append (a b : String) : hasLetter (a ++ b) = (hasLetter a || hasLetter b) := by
  rw [hasLetter, String.toList_append, List.any_append]
  rfl

theorem not_mem_keywords {name : String} (h : '_' ∈ name.toList) : name ∉ keywords := by
  have hkeywords : ∀ w ∈ keywords, '_' ∉ w.toList := by decide
  exact fun hk => hkeywords name hk h

/-- a letter among clean characters is one in lower case -/
theorem isLower_of_clean {c : Char} (hclean : isCleanChar c = true) (halpha : c.isAlpha = true) :
    c.isLower = true := by
  rw [isAlpha_eq, Bool.or_eq_true] at halpha
  rcases halpha with hupper | hlower
  · have hrange := isUpper_iff_toNat.mp hupper
    simp only [isCleanChar, Bool.or_eq_true, beq_iff_eq] at hclean
    rcases hclean with (hlower | hdigit) | rfl
    · exact hlower
    · have hrange' : 48 ≤ c.toNat ∧ c.toNat ≤ 57 := Char.isDigit_iff_toNat.mp hdigit
      omega
    · exact absurd hupper (by decide)
  · exact hlower

section
variable {stem : String} (h : IsStem stem)
include h

/-- a stem starts with a letter in lower case -/
theorem IsStem.first : ∃ c cs, stem.toList = c :: cs ∧ c.isLower = true := by
  obtain ⟨hclean, hletter, -⟩ := h
  have hchars := isCleanChar_clean stem
  rw [hclean] at hchars
  cases hlist : stem.toList with
  | nil =>
    rw [hlist] at hletter
    cases hletter
  | cons c cs =>
    rw [hlist] at hletter hchars
    exact ⟨c, cs, rfl, isLower_of_clean (hchars c List.mem_cons_self) hletter⟩

theorem IsStem.ne_empty : stem ≠ "" := by
  obtain ⟨c, cs, hlist, -⟩ := h.first
  rintro rfl
  cases hlist

theorem IsStem.hasLetter_append (text : String) : hasLetter (stem ++ text) = true := by
  obtain ⟨c, cs, hlist, hlower⟩ := h.first
  rw [Identifier.hasLetter_append, hasLetter, hlist, List.any_cons, hlower]
  rfl

theorem IsStem.startsWithDigit_append (text : String) : startsWithDigit (stem ++ text) = false := by
  obtain ⟨c, cs, hlist, hlower⟩ := h.first
  have hdigit : c.isDigit = false := by
    rw [Bool.eq_false_iff]
    intro hd
    have hrange : 48 ≤ c.toNat ∧ c.toNat ≤ 57 := Char.isDigit_iff_toNat.mp hd
    have hrange' := isLower_iff_toNat.mp hlower
    omega
  rw [startsWithDigit, String.toList_append, hlist, List.cons_append, List.head?_cons, Option.any_some, hdigit]

end

/-! ## forms of an identifier -/

/-- an identifier is a clean text with a letter that needs nothing, or is kept from being a keyword or from
starting with a digit by an underscore -/
theorem ofLabel_cases {stem : String} (hstem : IsStem stem) (label id : String) :
    ∃ base, clean base = base ∧ hasLetter base = true
      ∧ ofLabel stem label id = avoidKeyword (avoidDigit base) := by
  have hself : ∀ text, startsWithDigit text = false → text ∉ keywords →
      avoidKeyword (avoidDigit text) = text := by
    intro text hdigit hkeyword
    rw [avoidDigit, hdigit, if_neg (by decide), avoidKeyword, if_neg hkeyword]
  have hletter := hstem.hasLetter_append ""
  have hdigit := hstem.startsWithDigit_append ""
  rw [String.append_empty] at hletter hdigit
  simp only [ofLabel]
  split
  next hbase => exact ⟨clean label, clean_clean label, hbase, rfl⟩
  next =>
    split
    next => exact ⟨stem, hstem.1, hletter, (hself stem hdigit hstem.2.2).symm⟩
    next hid =>
      refine ⟨_, clean_stem hstem.1 hstem.ne_empty hid, ?_, (hself _ ?_ ?_).symm⟩
      · rw [String.append_assoc]
        exact hstem.hasLetter_append _
      · rw [String.append_assoc]
        exact hstem.startsWithDigit_append _
      · exact not_mem_keywords (by simp)

theorem clean_avoidDigit (name : String) : clean (avoidDigit name) = clean name := by
  unfold avoidDigit
  split
  next => exact underscore_clean name
  next => rfl

theorem clean_avoidKeyword (name : String) : clean (avoidKeyword name) = clean name := by
  unfold avoidKeyword
  split
  next => exact clean_underscore name
  next => rfl

theorem ofLabel_avoided (stem id : String) {base : String} (h : clean base = base)
    (hletter : hasLetter base = true) :
    ofLabel stem (avoidKeyword (avoidDigit base)) id = avoidKeyword (avoidDigit base) := by
  simp only [ofLabel, clean_avoidKeyword, clean_avoidDigit, h, hletter, if_true]

theorem hasLetter_avoided {base : String} (h : hasLetter base = true) :
    hasLetter (avoidKeyword (avoidDigit base)) = true := by
  unfold avoidKeyword avoidDigit
  split <;> split <;> simp [hasLetter_append, h]

/-- a lower-case letter or an underscore, then lower-case letters, digits and underscores -/
def isPlainName : List Char → Bool
  | [] => false
  | c :: cs => (c.isLower || c == '_') && cs.all isCleanChar

theorem isPlainName_avoided {base : String} (h : clean base = base) (hletter : hasLetter base = true) :
    isPlainName (avoidKeyword (avoidDigit base)).toList = true := by
  have hchars := isCleanChar_clean base
  rw [h] at hchars
  have hplain : isPlainName (avoidDigit base).toList = true := by
    cases hlist : base.toList with
    | nil => simp [hasLetter, hlist] at hletter
    | cons c cs =>
      rw [hlist] at hchars
      obtain ⟨hc, hcs⟩ := List.forall_mem_cons.mp hchars
      unfold avoidDigit
      split
      next =>
        rw [String.toList_append, hlist]
        exact (Bool.true_and _).trans (List.all_eq_true.mpr hchars)
      next hdigit =>
        have hfirst : c.isDigit = false := by simpa [startsWithDigit, hlist] using hdigit
        have hstart : (c.isLower || c == '_') = true := by simpa [isCleanChar, hfirst] using hc
        rw [hlist, isPlainName, hstart, Bool.true_and, List.all_eq_true]
        exact hcs
  unfold avoidKeyword
  split
  next =>
    rw [String.toList_append]
    cases hlist : (avoidDigit base).toList with
    | nil =>
      rw [hlist] at hplain
      cases hplain
    | cons c cs =>
      rw [hlist, isPlainName, Bool.and_eq_true] at hplain
      rw [List.cons_append, isPlainName, List.all_append, hplain.1, hplain.2]
      rfl
  next => exact hplain

/-- no keyword has an underscore, and a keyword gets one -/
theorem avoidKeyword_not_mem (name : String) : avoidKeyword name ∉ keywords := by
  unfold avoidKeyword
  split
  next => exact not_mem_keywords (by simp)
  next hk => exact hk

theorem IsStem.isName {stem : String} (h : IsStem stem) : IsName stem := by
  have hchars := isCleanChar_clean stem
  rw [h.1] at hchars
  obtain ⟨c, cs, hlist, hlower⟩ := h.first
  have hdigit := h.startsWithDigit_append ""
  rw [String.append_empty] at hdigit
  have hword := isWord_avoidDigit (by simp [hlist]) hchars
  rw [avoidDigit, hdigit, if_neg (by decide)] at hword
  exact isName_of_clean hword hchars h.2.2

/-- whatever the label, the id and the stem, an identifier is a name with a letter, all in lower case, and it
is its own identifier, whatever id and stem it is given then.  The stems in use are such stems -/
theorem ofLabel_stable :
    (∀ stem ∈ stems, IsStem stem)
    ∧ (∀ stem label id, IsStem stem →
      isPlainName (ofLabel stem label id).toList = true
      ∧ hasLetter (ofLabel stem label id) = true
      ∧ ofLabel stem label id ∉ keywords
      ∧ IsName (ofLabel stem label id)
      ∧ ∀ stem' id', IsStem stem' → ofLabel stem' (ofLabel stem label id) id' = ofLabel stem label id)
    ∧ ∀ label id, ofLabel "component" (ofLabel "component" label id) id = ofLabel "component" label id := by
  have hstems : ∀ stem ∈ stems, IsStem stem := by decide
  refine ⟨hstems, fun stem label id hstem => ?_, fun label id => ?_⟩
  · have hname := isName_ofLabel hstem.isName label id
    obtain ⟨base, hclean, hletter, hform⟩ := ofLabel_cases hstem label id
    rw [hform] at hname ⊢
    exact ⟨isPlainName_avoided hclean hletter, hasLetter_avoided hletter, avoidKeyword_not_mem _, hname,
      fun stem' id' _ => ofLabel_avoided stem' id' hclean hletter⟩
  · obtain ⟨base, hclean, hletter, hform⟩ := ofLabel_cases (hstems "component" (by decide)) label id
    rw [hform]
    exact ofLabel_avoided "component" id hclean hletter

/-- a keyword among other characters, a label without letters, and one that starts with a digit -/
theorem ofLabel_stable_component :
    IsStem "component" ∧ IsStem "item"
    ∧ ofLabel "component" "--Class!" "n 1" = "class_"
    ∧ ofLabel "item" "class_" "" = "class_"
    ∧ ofLabel "component" "12 é" "n 1" = "component_n_1"
    ∧ ofLabel "item" "component_n_1" "7" = "component_n_1"
    ∧ ofLabel "component" "2nd  sensor" "" = "_2nd_sensor"
    ∧ ofLabel "item" "_2nd_sensor" "" = "_2nd_sensor" := by
  have hcomponent : IsStem "component" := ofLabel_stable.1 "component" (by decide)
  have hitem : IsStem "item" := ofLabel_stable.1 "item" (by decide)
  have hagain : ∀ label id id', ofLabel "item" (ofLabel "component" label id) id' = ofLabel "component" label id :=
    fun label id id' => (ofLabel_stable.2.1 "component" label id hcomponent).2.2.2.2 "item" id' hitem
  have hkeyword : ofLabel "component" "--Class!" "n 1" = "class_" := by decide
  have hnumber : ofLabel "component" "12 é" "n 1" = "component_n_1" := by decide
  have hdigit : ofLabel "component" "2nd  sensor" "" = "_2nd_sensor" := by decide
  refine ⟨hcomponent, hitem, hkeyword, ?_, hnumber, ?_, hdigit, ?_⟩
  · rw [← hkeyword]
    exact hagain _ _ _
  · rw [← hnumber]
    exact hagain _ _ _
  · rw [← hdigit]
    exact hagain _ _ _

end VisualProgram.Identifier
