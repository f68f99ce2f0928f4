import VisualProgram.Proofs.Identifier.Names
import VisualProgram.Proofs.Python.Outline
import Mathlib.Data.List.TakeWhile

/-!
# Texts that stay inside of a line

A `Snippet` is a text that can stand for an expression in a line of code: it leaves no bracket and no
text open, it has newlines only inside of brackets, and it is not taken for a comment or for the head of
a suite.

Generated texts are mostly fixed text with snippets in between.  A `Shape` is such a text with holes;
`isSnippet` and `isHead` decide whether a shape makes a snippet or the head of a suite whatever snippets
fill its holes (`Shape.snippet`, `Shape.head`).
-/

namespace VisualProgram.Python
open Text

/-! ## between tokens -/

/-- no text is open; a text without characters may just have been closed -/
def Mode.Resting (depth : Nat) (m : Mode) : Prop := m = .code depth ∨ m = .closed depth

theorem Mode.Resting.atEnd {m : Mode} (h : m.Resting 0) : m.atEnd = true := by
  rcases h with rfl | rfl <;> rfl

theorem Mode.Resting.lift {m : Mode} {depth : Nat} (h : m.Resting depth) (k : Nat) :
    (m.lift k).Resting (depth + k) := by
  rcases h with rfl | rfl
  · exact Or.inl rfl
  · exact Or.inr rfl

/-- where no text goes on, it makes no difference that one has just been closed -/
theorem Mode.Resting.after_eq {m : Mode} {depth : Nat} (h : m.Resting depth) {c : Char}
    (hc : c ≠ '"') (cs : List Char) :
    m.after (c :: cs) = (Mode.code depth).after (c :: cs) := by
  rcases h with rfl | rfl
  · rfl
  · rw [Mode.after_cons, Mode.after_cons]
    exact congrArg (Option.bind · _) (if_neg hc)

/-- the characters lead from rest to rest -/
def Rests (cs : List Char) : Prop := ∃ m, (Mode.code 0).after cs = some m ∧ m.Resting 0

theorem Rests.inside {cs : List Char} (h : Rests cs) (depth : Nat) :
    ∃ m, (Mode.code depth).after cs = some m ∧ m.Resting depth := by
  obtain ⟨m, hm, hrest⟩ := h
  have hlift := Mode.after_lift hm depth
  have hresting := hrest.lift depth
  rw [Nat.zero_add] at hresting
  rw [show (Mode.code 0).lift depth = .code depth from congrArg Mode.code (Nat.zero_add depth)] at hlift
  exact ⟨_, hlift, hresting⟩

/-! ## beginnings -/

theorem toNat_lt_of_word {c : Char} (h : isWordChar c = true) : c.toNat < 128 := by
  simp only [isWordChar, Bool.or_eq_true, beq_iff_eq] at h
  rcases h with h | rfl
  · exact Identifier.toNat_lt_of_alphanum h
  · decide

theorem forall_ascii {p : Char → Prop} (h : ∀ n < 128, p (Char.ofNat n)) {c : Char}
    (hc : c.toNat < 128) : p c := by
  have hn := h c.toNat hc
  rw [Char.ofNat_toNat] at hn
  exact hn

theorem isBlank_of_word {c : Char} (h : isWordChar c = true) : Text.isBlank c = false :=
  forall_ascii (p := fun c => isWordChar c = true → Text.isBlank c = false) (by decide)
    (toNat_lt_of_word h) h

/-- the text is neither blank nor a comment nor a head, as far as its beginning tells -/
def begins : List Char → Bool
  | [] => false
  | c :: cs => c != '#' && !Text.isBlank c && !headWords.contains (firstWord (c :: cs))

theorem begins_cons {c : Char} {cs : List Char} :
    begins (c :: cs) = true ↔
      c ≠ '#' ∧ Text.isBlank c = false ∧ firstWord (c :: cs) ∉ headWords := by
  simp [begins, and_assoc]

theorem firstWord_append {a b : List Char} (h : Stops isWordChar b) :
    firstWord (a ++ b) = firstWord a := by
  have hb : b.takeWhile isWordChar = [] := by
    cases b with
    | nil => rfl
    | cons c b => exact List.takeWhile_cons_of_neg (by simp [h c rfl])
  have htake : (a ++ b).takeWhile isWordChar = a.takeWhile isWordChar := by
    rw [List.takeWhile_append]
    split
    next hlength =>
      rw [hb, List.append_nil, (List.takeWhile_prefix isWordChar).eq_of_length hlength]
    next => rfl
  rw [firstWord, htake, firstWord]

/-- no head starts with a character that belongs to no word -/
theorem firstWord_not_mem {c : Char} (hc : isWordChar c = false) (cs : List Char) :
    firstWord (c :: cs) ∉ headWords := by
  rw [firstWord, List.takeWhile_cons_of_neg (by simp [hc])]
  decide

/-- a word that has ended does not go on -/
theorem firstWord_of_any {a : List Char} (h : a.any (!isWordChar ·) = true) (b : List Char) :
    firstWord (a ++ b) = firstWord a := by
  have htake : (a ++ b).takeWhile isWordChar = a.takeWhile isWordChar := by
    rw [List.takeWhile_append, if_neg]
    intro hlength
    obtain ⟨c, hc, hnot⟩ := List.any_eq_true.mp h
    rw [← (List.takeWhile_prefix isWordChar).eq_of_length hlength] at hc
    have hword := List.mem_takeWhile_imp hc
    rw [hword] at hnot
    cases hnot
  rw [firstWord, htake, firstWord]

theorem begins_append {a b : List Char} (ha : begins a = true)
    (hword : firstWord (a ++ b) = firstWord a) : begins (a ++ b) = true := by
  cases a with
  | nil => cases ha
  | cons c a =>
    rw [begins_cons] at ha
    rw [List.cons_append] at hword ⊢
    rw [begins_cons, hword]
    exact ha

/-! ## snippets -/

structure Snippet (cs : List Char) : Prop where
  rests : Rests cs
  solid : Solid cs
  begins : begins cs = true
  ends : cs.getLast? ≠ some ':'

theorem Snippet.ne_nil {cs : List Char} (h : Snippet cs) : cs ≠ [] := by
  rintro rfl
  exact absurd h.begins (by decide)

theorem kind?_of_begins {cs : List Char} (hbegins : Python.begins cs = true)
    (hends : cs.getLast? ≠ some ':') : kind? cs = some .simple := by
  cases cs with
  | nil => cases hbegins
  | cons c cs =>
    obtain ⟨hcomment, hblank, hword⟩ := begins_cons.mp hbegins
    rw [kind?, if_neg hcomment, if_neg (by simp [hblank]), if_neg hword, if_neg hends]

theorem Snippet.isLine {cs : List Char} (h : Snippet cs) : IsLine .simple cs := by
  obtain ⟨m, hm, hrest⟩ := h.rests
  exact ⟨kind?_of_begins h.begins h.ends, m, hm, hrest.atEnd⟩

/-! ## comments -/

theorem isControl_of_break {c : Char} (h : Mode.isBreak c = true) : Text.isControl c = true := by
  simp only [Mode.isBreak, Bool.or_eq_true, beq_iff_eq] at h
  rcases h with (rfl | rfl) | rfl <;> rfl

theorem after_comment {cs : List Char} (h : ∀ c ∈ cs, Text.isControl c = false) :
    (Mode.comment 0).after cs = some (.comment 0) := by
  induction cs with
  | nil => rfl
  | cons c cs ih =>
    obtain ⟨hc, hcs⟩ := List.forall_mem_cons.mp h
    have hbreak : ¬Mode.isBreak c = true := by
      intro hbreak
      rw [isControl_of_break hbreak] at hc
      cases hc
    have hne : c ≠ '\n' := by
      rintro rfl
      cases hc
    simp [Mode.step, hne, hbreak, ih hcs]

theorem isLine_comment {cs : List Char} (h : ∀ c ∈ cs, Text.isControl c = false) :
    IsLine .comment ('#' :: cs) := ⟨rfl, .comment 0, after_comment h, rfl⟩

theorem solid_comment {cs : List Char} (h : ∀ c ∈ cs, Text.isControl c = false) :
    Solid ('#' :: cs) := by
  have hmissing : ∀ x, Text.isControl x = true → x ∉ '#' :: cs := by
    intro x hx hmem
    rcases List.mem_cons.mp hmem with rfl | hmem
    · cases hx
    · rw [h x hmem] at hx
      cases hx
  exact solid_of_flat (hmissing _ rfl) (hmissing _ rfl)

/-! ## shapes -/

/-- fixed texts, and holes between them -/
abbrev Shape := List (Option (List Char))

/-- what stands in the place of a part of a shape -/
def Fills : Option (List Char) → List Char → Prop
  | some text, cs => cs = text
  | none, cs => Snippet cs

/-- the depth of brackets to which a fixed text leads -/
def leads? (depth : Nat) : List Char → Option Nat
  | [] => none
  | c :: cs =>
    if c = '"' then none
    else match (Mode.code depth).after (c :: cs) with
      | some (.code depth') => some depth'
      | _ => none

/-- the depth to which a shape leads; a hole must be `ready`, that is follow a fixed text -/
def flow? : Nat → Bool → Shape → Option Nat
  | depth, _, [] => some depth
  | depth, _, some text :: rest => (leads? depth text).bind fun depth => flow? depth true rest
  | depth, true, none :: rest => flow? depth false rest
  | _, false, none :: _ => none

/-- the shape begins as a snippet does -/
def Shape.begins : Shape → Bool
  | [] => false
  | some text :: rest => Python.begins text && (rest.isEmpty || text.any (!isWordChar ·))
  | [none] => true
  | none :: some text :: _ => text.head?.any (!isWordChar ·)
  | none :: none :: _ => false

/-- the last part does not end with a colon -/
def Shape.ends (s : Shape) : Bool := s.getLast?.all fun part => part.all (·.getLast? != some ':')

def Shape.isSnippet (s : Shape) : Bool :=
  flow? 0 true s == some 0 && s.all (fun part => part.all (solidFrom true)) && s.begins && s.ends

/-- a head: its word at the front of the first fixed text, a colon at the end of the last one -/
def Shape.isHead (word : String) (s : Shape) : Bool :=
  flow? 0 true s == some 0 && s.all (fun part => part.all (solidFrom true))
    && s.head?.any (fun part => part.any fun text =>
      firstWord text == word && text.any (!isWordChar ·) && text.head?.any isWordStart)
    && s.getLast?.any (fun part => part.any (·.getLast? == some ':'))

theorem flow?_after {s : Shape} {parts : List (List Char)} (h : List.Forall₂ Fills s parts)
    {depth depth' : Nat} {ready : Bool} (hflow : flow? depth ready s = some depth') {m : Mode}
    (hm : m.Resting depth) (hready : ready = true → m = .code depth) :
    ∃ m', m.after parts.flatten = some m' ∧ m'.Resting depth' := by
  induction h generalizing depth ready m with
  | nil =>
    cases hflow
    exact ⟨m, rfl, hm⟩
  | @cons part cs s parts hpart _ ih =>
    rw [List.flatten_cons]
    cases part with
    | some text =>
      cases hpart
      rw [flow?, Option.bind_eq_some_iff] at hflow
      obtain ⟨next, hleads, hflow⟩ := hflow
      cases cs with
      | nil => cases hleads
      | cons c cs =>
        rw [leads?] at hleads
        split_ifs at hleads with hquote
        split at hleads
        next next' hafter =>
          cases hleads
          rw [Mode.after_append, hm.after_eq hquote, hafter, Option.bind_some]
          exact ih hflow (Or.inl rfl) fun _ => rfl
        next => cases hleads
    | none =>
      cases ready with
      | false => cases hflow
      | true =>
        obtain ⟨m', hm', hrest⟩ := Rests.inside (Snippet.rests hpart) depth
        rw [hready rfl, Mode.after_append, hm', Option.bind_some]
        exact ih hflow hrest fun h => absurd h Bool.false_ne_true

theorem solid_of_fills {s : Shape} {parts : List (List Char)} (h : List.Forall₂ Fills s parts)
    (hne : s ≠ []) (hs : s.all (fun part => part.all (solidFrom true)) = true) :
    Solid parts.flatten := by
  induction h with
  | nil => exact absurd rfl hne
  | @cons part cs s parts hpart hrest ih =>
    rw [List.all_cons, Bool.and_eq_true] at hs
    have hsolid : Solid cs := by
      cases part with
      | some text =>
        cases hpart
        exact hs.1
      | none => exact Snippet.solid hpart
    rw [List.flatten_cons]
    cases hrest with
    | nil =>
      rw [List.flatten_nil, List.append_nil]
      exact hsolid
    | cons hnext hmore => exact hsolid.append (ih (List.cons_ne_nil _ _) hs.2)

theorem Fills.ne_nil {part : Option (List Char)} {cs : List Char} (h : Fills part cs)
    (hpart : part.all (solidFrom true) = true) : cs ≠ [] := by
  cases part with
  | some text =>
    cases h
    rintro rfl
    cases hpart
  | none => exact Snippet.ne_nil h

/-- the end of a text is the end of its last part -/
theorem getLast?_of_fills {s : Shape} {parts : List (List Char)} (h : List.Forall₂ Fills s parts)
    (hs : s.all (fun part => part.all (solidFrom true)) = true) {last : Option (List Char)}
    (hlast : s.getLast? = some last) :
    ∃ cs, Fills last cs ∧ parts.flatten.getLast? = cs.getLast? := by
  induction h with
  | nil => cases hlast
  | @cons part cs s parts hpart hrest ih =>
    rw [List.all_cons, Bool.and_eq_true] at hs
    rw [List.flatten_cons]
    cases hrest with
    | nil =>
      cases hlast
      rw [List.flatten_nil, List.append_nil]
      exact ⟨cs, hpart, rfl⟩
    | @cons next cs' s parts hnext hmore =>
      rw [List.getLast?_cons_cons] at hlast
      obtain ⟨tail, htail, heq⟩ := ih hs.2 hlast
      refine ⟨tail, htail, ?_⟩
      rw [List.getLast?_append, heq]
      have hne : tail ≠ [] := by
        refine htail.ne_nil ?_
        have hmem : last ∈ next :: s := List.mem_of_getLast? hlast
        exact List.all_eq_true.mp hs.2 last hmem
      obtain ⟨x, hx⟩ := Option.isSome_iff_exists.mp (List.getLast?_isSome.mpr hne)
      rw [hx]
      rfl

theorem Shape.begins_flatten {s : Shape} {parts : List (List Char)}
    (h : List.Forall₂ Fills s parts) (hs : s.begins = true) : Python.begins parts.flatten = true := by
  cases h with
  | nil => cases hs
  | @cons part cs s parts hpart hrest =>
    rw [List.flatten_cons]
    cases part with
    | some text =>
      cases hpart
      rw [Shape.begins, Bool.and_eq_true, Bool.or_eq_true] at hs
      refine begins_append hs.1 ?_
      rcases hs.2 with hempty | hany
      · cases hrest with
        | nil => rw [List.flatten_nil, List.append_nil]
        | cons _ _ => cases hempty
      · exact firstWord_of_any hany _
    | none =>
      refine begins_append (Snippet.begins hpart) (firstWord_append ?_)
      cases hrest with
      | nil =>
        intro c hc
        cases hc
      | @cons next cs' s parts hnext hmore =>
        cases next with
        | none => cases hs
        | some text =>
          cases hnext
          rw [Shape.begins] at hs
          cases cs' with
          | nil => cases hs
          | cons c cs' =>
            intro x hx
            rw [List.flatten_cons, List.cons_append] at hx
            cases hx
            simpa using hs

theorem Shape.snippet {s : Shape} (hs : s.isSnippet = true) {parts : List (List Char)}
    (h : List.Forall₂ Fills s parts) : Snippet parts.flatten := by
  simp only [Shape.isSnippet, Bool.and_eq_true, beq_iff_eq] at hs
  obtain ⟨⟨⟨hflow, hsolid⟩, hbegins⟩, hends⟩ := hs
  have hne : s ≠ [] := by
    rintro rfl
    cases hbegins
  refine ⟨flow?_after h hflow (Or.inl rfl) fun _ => rfl, solid_of_fills h hne hsolid,
    Shape.begins_flatten h hbegins, ?_⟩
  obtain ⟨last, hlast⟩ := Option.isSome_iff_exists.mp (List.getLast?_isSome.mpr hne)
  obtain ⟨cs, hcs, heq⟩ := getLast?_of_fills h hsolid hlast
  rw [heq]
  rw [Shape.ends, hlast] at hends
  cases last with
  | some text =>
    cases hcs
    simpa using hends
  | none => exact Snippet.ends hcs

/-- a last fixed text that ends with a colon ends the whole so -/
theorem colon_of_fills {s : Shape} {parts : List (List Char)} (h : List.Forall₂ Fills s parts)
    (hne : s ≠ []) (hs : s.all (fun part => part.all (solidFrom true)) = true)
    (hcolon : s.getLast?.any (fun part => part.any (·.getLast? == some ':')) = true) :
    parts.flatten.getLast? = some ':' := by
  obtain ⟨last, hlast⟩ := Option.isSome_iff_exists.mp (List.getLast?_isSome.mpr hne)
  obtain ⟨cs, hcs, heq⟩ := getLast?_of_fills h hs hlast
  rw [hlast] at hcolon
  cases last with
  | some text =>
    cases hcs
    rw [heq]
    simpa using hcolon
  | none => cases hcolon

/-- a first fixed text that starts with a word lends it to the whole -/
theorem firstWord_of_fills {s : Shape} {parts : List (List Char)} {word : String}
    (h : List.Forall₂ Fills s parts)
    (hfirst : s.head?.any (fun part => part.any fun text =>
      firstWord text == word && text.any (!isWordChar ·) && text.head?.any isWordStart) = true) :
    ∃ c cs, parts.flatten = c :: cs ∧ isWordStart c = true ∧ firstWord parts.flatten = word := by
  cases h with
  | nil => cases hfirst
  | @cons part cs s parts hpart hmore =>
    cases part with
    | none => cases hfirst
    | some text =>
      cases hpart
      cases cs with
      | nil => simp at hfirst
      | cons c cs =>
        simp only [List.head?_cons, Option.any_some, Bool.and_eq_true, beq_iff_eq] at hfirst
        refine ⟨c, cs ++ parts.flatten, rfl, hfirst.2, ?_⟩
        rw [List.flatten_cons, firstWord_of_any hfirst.1.2]
        exact hfirst.1.1

theorem Shape.head {s : Shape} {word : String} (hs : s.isHead word = true) (hw : word ∈ headWords)
    {parts : List (List Char)} (h : List.Forall₂ Fills s parts) :
    IsLine .head parts.flatten ∧ Solid parts.flatten ∧ firstWord parts.flatten = word := by
  simp only [Shape.isHead, Bool.and_eq_true, beq_iff_eq] at hs
  obtain ⟨⟨⟨hflow, hsolid⟩, hfirst⟩, hcolon⟩ := hs
  have hne : s ≠ [] := by
    rintro rfl
    cases hfirst
  obtain ⟨m, hm, hrest⟩ := flow?_after h hflow (m := .code 0) (Or.inl rfl) fun _ => rfl
  have hlast := colon_of_fills h hne hsolid hcolon
  obtain ⟨c, cs, hcs, hstart, hword⟩ := firstWord_of_fills h hfirst
  refine ⟨⟨?_, m, hm, hrest.atEnd⟩, solid_of_fills h hne hsolid, hword⟩
  rw [hcs] at hlast hword ⊢
  have hcomment : c ≠ '#' := by
    rintro rfl
    cases hstart
  have hblank : ¬Text.isBlank c = true := by
    rw [isBlank_of_word (isWordChar_of_start hstart)]
    exact Bool.false_ne_true
  rw [kind?, if_neg hcomment, if_neg hblank, hword, if_pos hw, if_pos hlast]

end VisualProgram.Python
