import VisualProgram.Proofs.Python.Lexer
import VisualProgram.Proofs.Python.Lines

/-!
# The block structure of Python code

`outline?` reads code as a tree: it cuts the code into logical lines, takes each for a comment, a
simple statement or the head of a suite, and puts the lines of one more level of indentation under the
head before them.  Code with a line that is indented without a head, with a head without a suite, or
with a suite of comments only, has no outline.  The text of a line is kept as it would stand without
indentation.

`write` lays a tree out again, and `Prints.outline?_eq` says that a tree of proper lines is read
from its own layout, blank lines aside.
-/

namespace VisualProgram.Python
open Text

/-! ## lines -/

inductive Kind where
  | comment | simple | head
deriving DecidableEq, Repr

/-- the words that a head of a suite starts with -/
def headWords : List String :=
  ["if", "elif", "else", "while", "for", "def", "class", "with", "try", "except", "finally"]

def firstWord (cs : List Char) : String := String.ofList (cs.takeWhile isWordChar)

/-- a head starts with its word and ends with a colon, a simple statement does neither -/
def kind? : List Char → Option Kind
  | [] => none
  | c :: cs =>
    if c = '#' then some .comment
    else if Text.isBlank c then none
    else if firstWord (c :: cs) ∈ headWords then
      if (c :: cs).getLast? = some ':' then some .head else none
    else if (c :: cs).getLast? = some ':' then none else some .simple

/-- a logical line: its level of indentation, and its text as it would stand at level zero -/
structure Entry where
  level : Nat
  kind : Kind
  text : List Char
deriving DecidableEq

/-- a logical line that is not blank, where a level of indentation has `n` blanks -/
def readLine? (n : Nat) (line : List Char) : Option Entry :=
  let blanks := (line.takeWhile (· == ' ')).length
  let text := dedent blanks (line.dropWhile (· == ' '))
  if blanks % n = 0 then (kind? text).map fun kind => ⟨blanks / n, kind, text⟩ else none

/-! ## trees -/

/-- a line, with its suite if it is the head of one -/
inductive Item where
  | comment (text : List Char)
  | simple (text : List Char)
  | head (text : List Char) (suite : List Item)

def Item.isCode : Item → Bool
  | .comment _ => false
  | _ => true

/-- the lines of a level that has been begun: those of level `k` come first in a list of `k + 1` -/
def openTo (k : Nat) (levels : List (List Item)) : List (List Item) :=
  List.replicate (k + 1 - levels.length) [] ++ levels

/-- puts an item in front of the items of its level -/
def push (item : Item) : List (List Item) → List (List Item)
  | [] => []
  | top :: below => (item :: top) :: below

/-- takes up a line before those that have been read, the deepest level of which comes first -/
def absorb (e : Entry) (levels : List (List Item)) : Option (List (List Item)) :=
  match e.kind with
  | .comment =>
    if levels.length ≤ e.level + 1 then some (push (.comment e.text) (openTo e.level levels)) else none
  | .simple =>
    if levels.length ≤ e.level + 1 then some (push (.simple e.text) (openTo e.level levels)) else none
  | .head =>
    match levels with
    | [] => none
    | suite :: below =>
      if below.length = e.level + 1 ∧ suite.any Item.isCode = true then
        some (push (.head e.text suite) below)
      else none

/-- the items of each level, read from the last line to the first -/
def gather : List Entry → Option (List (List Item))
  | [] => some []
  | e :: rest => (gather rest).bind (absorb e)

/-- all lines have found their place -/
def root? : List (List Item) → Option (List Item)
  | [] => some []
  | [items] => some items
  | _ => none

/-- the tree of some code, where a level of indentation has `n` blanks -/
def outline? (n : Nat) (code : String) : Option (List Item) := do
  let lines ← cut code.toList
  let entries ← (lines.filter (· ≠ [])).mapM (readLine? n)
  let levels ← gather entries
  root? levels

/-! ## layout -/

mutual
/-- the lines of an item at a level -/
def Item.entries (k : Nat) : Item → List Entry
  | .comment text => [⟨k, .comment, text⟩]
  | .simple text => [⟨k, .simple, text⟩]
  | .head text suite => ⟨k, .head, text⟩ :: entriesOf (k + 1) suite

def entriesOf (k : Nat) : List Item → List Entry
  | [] => []
  | item :: rest => item.entries k ++ entriesOf k rest
end

/-- the characters of a line -/
def Entry.line (n : Nat) (e : Entry) : List Char :=
  List.replicate (e.level * n) ' ' ++ deepen (e.level * n) e.text

def Entry.write (n : Nat) (e : Entry) : List Char := e.line n ++ ['\n']

/-- items at a level, laid out with `n` blanks for each level -/
def write (n k : Nat) (items : List Item) : List Char := (entriesOf k items).flatMap (Entry.write n)

@[simp] theorem entriesOf_append (k : Nat) (a b : List Item) :
    entriesOf k (a ++ b) = entriesOf k a ++ entriesOf k b := by
  induction a with
  | nil => rfl
  | cons item a ih => rw [List.cons_append, entriesOf, entriesOf, ih, List.append_assoc]

@[simp] theorem write_append (n k : Nat) (a b : List Item) : write n k (a ++ b) = write n k a ++ write n k b := by
  simp [write]

@[simp] theorem write_singleton (n k : Nat) (item : Item) :
    write n k [item] = (item.entries k).flatMap (Entry.write n) := by
  rw [write, entriesOf, entriesOf, List.append_nil]

/-- a line at level zero is its text -/
@[simp] theorem Entry.write_zero (n : Nat) (kind : Kind) (cs : List Char) :
    Entry.write n ⟨0, kind, cs⟩ = cs ++ ['\n'] := by
  rw [Entry.write, Entry.line, Nat.zero_mul, deepen_zero]
  rfl

/-! ## proper trees -/

/-- a text that makes up a line of its kind -/
structure IsLine (kind : Kind) (cs : List Char) : Prop where
  kind : kind? cs = some kind
  ends : ∃ m, Mode.after (.code 0) cs = some m ∧ m.atEnd = true

theorem isLine_iff {kind : Kind} {cs : List Char} :
    IsLine kind cs ↔ kind? cs = some kind ∧ (Mode.after (.code 0) cs).any Mode.atEnd = true := by
  rw [Option.any_eq_true]
  exact ⟨fun h => ⟨h.kind, h.ends⟩, fun h => ⟨h.1, h.2⟩⟩

instance (kind : Kind) (cs : List Char) : Decidable (IsLine kind cs) := decidable_of_iff _ isLine_iff.symm

/-- the lines are what they are taken for and pass a test, and every suite has a line that is no
comment -/
inductive Item.Proper (p : List Char → Prop) : Item → Prop where
  | comment {text : List Char} (h : IsLine .comment text) (hp : p text) : Proper p (.comment text)
  | simple {text : List Char} (h : IsLine .simple text) (hp : p text) : Proper p (.simple text)
  | head {text : List Char} {suite : List Item} (h : IsLine .head text) (hp : p text)
    (hcode : suite.any Item.isCode = true) (hsuite : ∀ item ∈ suite, Proper p item) :
    Proper p (.head text suite)

mutual
def Item.isProper (p : List Char → Bool) : Item → Bool
  | .comment text => decide (IsLine .comment text) && p text
  | .simple text => decide (IsLine .simple text) && p text
  | .head text suite =>
    decide (IsLine .head text) && p text && suite.any Item.isCode && areProper p suite

def areProper (p : List Char → Bool) : List Item → Bool
  | [] => true
  | item :: rest => item.isProper p && areProper p rest
end

mutual
theorem Item.proper_of_isProper {p : List Char → Bool} : (item : Item) → item.isProper p = true →
    item.Proper fun text => p text = true
  | .comment text, h => by
    rw [Item.isProper, Bool.and_eq_true, decide_eq_true_eq] at h
    exact .comment h.1 h.2
  | .simple text, h => by
    rw [Item.isProper, Bool.and_eq_true, decide_eq_true_eq] at h
    exact .simple h.1 h.2
  | .head text suite, h => by
    simp only [Item.isProper, Bool.and_eq_true, decide_eq_true_eq] at h
    obtain ⟨⟨⟨hline, hp⟩, hcode⟩, hsuite⟩ := h
    exact .head hline hp hcode (proper_of_areProper suite hsuite)

theorem proper_of_areProper {p : List Char → Bool} : (items : List Item) → areProper p items = true →
    ∀ item ∈ items, item.Proper fun text => p text = true
  | [], _ => List.forall_mem_nil _
  | item :: rest, h => by
    rw [areProper, Bool.and_eq_true] at h
    exact List.forall_mem_cons.mpr
      ⟨Item.proper_of_isProper item h.1, proper_of_areProper rest h.2⟩
end

section
variable {p : List Char → Prop}

theorem Item.Proper.mono {q : List Char → Prop} (hpq : ∀ text, p text → q text) {item : Item}
    (h : item.Proper p) : item.Proper q := by
  induction h with
  | comment h hp => exact .comment h (hpq _ hp)
  | simple h hp => exact .simple h (hpq _ hp)
  | head h hp hcode _ ih => exact .head h (hpq _ hp) hcode ih

theorem forall_entriesOf {q : Entry → Prop} {items : List Item} {k : Nat}
    (h : ∀ item ∈ items, ∀ e ∈ item.entries k, q e) : ∀ e ∈ entriesOf k items, q e := by
  induction items with
  | nil =>
    intro e he
    cases he
  | cons item rest ih =>
    obtain ⟨hitem, hrest⟩ := List.forall_mem_cons.mp h
    intro e he
    rw [entriesOf, List.mem_append] at he
    rcases he with he | he
    · exact hitem e he
    · exact ih hrest e he

theorem Item.Proper.entries {item : Item} (h : item.Proper p) (k : Nat) :
    ∀ e ∈ item.entries k, IsLine e.kind e.text ∧ p e.text := by
  induction h generalizing k with
  | comment h hp | simple h hp =>
    intro e he
    rw [List.mem_singleton.mp he]
    exact ⟨h, hp⟩
  | head h hp hcode hsuite ih =>
    intro e he
    rcases List.mem_cons.mp he with rfl | he
    · exact ⟨h, hp⟩
    · exact forall_entriesOf (fun item hitem => ih item hitem (k + 1)) e he

theorem isLine_of_proper {items : List Item} (h : ∀ item ∈ items, item.Proper p) (k : Nat) :
    ∀ e ∈ entriesOf k items, IsLine e.kind e.text :=
  forall_entriesOf fun item hitem e he => ((h item hitem).entries k e he).1

theorem test_of_proper {items : List Item} (h : ∀ item ∈ items, item.Proper p) (k : Nat) :
    ∀ e ∈ entriesOf k items, p e.text :=
  forall_entriesOf fun item hitem e he => ((h item hitem).entries k e he).2

/-! ## reading lines -/

theorem IsLine.head_ne {kind : Kind} {cs : List Char} (h : IsLine kind cs) :
    ∃ c rest, cs = c :: rest ∧ (c = '#' ∨ Text.isBlank c = false) := by
  have hkind := h.kind
  cases cs with
  | nil => cases hkind
  | cons c rest =>
    refine ⟨c, rest, rfl, ?_⟩
    rw [kind?] at hkind
    split_ifs at hkind with hc hblank
    · exact Or.inl hc
    all_goals exact Or.inr (by simpa using hblank)

theorem takeWhile_blanks (n : Nat) {c : Char} (hc : c ≠ ' ') (cs : List Char) :
    (List.replicate n ' ' ++ c :: cs).takeWhile (· == ' ') = List.replicate n ' '
    ∧ (List.replicate n ' ' ++ c :: cs).dropWhile (· == ' ') = c :: cs := by
  induction n with
  | zero =>
    have hne : ¬(c == ' ') = true := by simpa using hc
    exact ⟨List.takeWhile_cons_of_neg hne, List.dropWhile_cons_of_neg hne⟩
  | succ n ih =>
    rw [List.replicate_succ, List.cons_append, List.takeWhile_cons_of_pos rfl,
      List.dropWhile_cons_of_pos rfl, ih.1, ih.2]
    exact ⟨rfl, rfl⟩

theorem readLine?_line {n : Nat} (hn : 0 < n) {e : Entry} (h : IsLine e.kind e.text) :
    readLine? n (e.line n) = some e := by
  obtain ⟨c, rest, hc, hfirst⟩ := h.head_ne
  have hne : c ≠ ' ' ∧ c ≠ '\n' := by
    constructor
    · rintro rfl
      rcases hfirst with h | h <;> exact absurd h (by decide)
    · rintro rfl
      rcases hfirst with h | h <;> exact absurd h (by decide)
  have hline : e.line n
      = List.replicate (e.level * n) ' ' ++ c :: deepen (e.level * n) rest := by
    rw [Entry.line, hc, deepen_cons hne.2]
  obtain ⟨htake, hdrop⟩ := takeWhile_blanks (e.level * n) hne.1 (deepen (e.level * n) rest)
  have htext : dedent (e.level * n) (c :: deepen (e.level * n) rest) = e.text := by
    rw [← deepen_cons hne.2, dedent_deepen, hc]
  simp only [readLine?, hline, htake, hdrop, List.length_replicate, htext, h.kind, Option.map_some,
    Nat.mul_mod_left, Nat.mul_div_cancel _ hn, if_true]

theorem mapM_readLine? {n : Nat} (hn : 0 < n) {es : List Entry}
    (h : ∀ e ∈ es, IsLine e.kind e.text) : (es.map (Entry.line n)).mapM (readLine? n) = some es := by
  induction es with
  | nil => rfl
  | cons e es ih =>
    obtain ⟨he, hes⟩ := List.forall_mem_cons.mp h
    rw [List.map_cons, List.mapM_cons, readLine?_line hn he, ih hes]
    rfl

theorem Entry.line_ne_nil {n : Nat} {e : Entry} (h : IsLine e.kind e.text) : e.line n ≠ [] := by
  obtain ⟨c, rest, hc, -⟩ := h.head_ne
  intro hnil
  rw [Entry.line, List.append_eq_nil_iff, hc] at hnil
  by_cases hn : c = '\n'
  · subst hn
    cases hnil.2
  · rw [deepen_cons hn] at hnil
    cases hnil.2

/-! ## printed lines -/

/-- the text is cut into the lines and blank ones, whatever follows it -/
def Prints (n : Nat) (cs : List Char) (es : List Entry) : Prop :=
  ∃ lines, (∀ rest, cut (cs ++ rest) = (cut rest).map (lines ++ ·))
    ∧ lines.filter (· ≠ []) = es.map (Entry.line n)

section
variable {n : Nat}

theorem prints_nil : Prints n [] [] := by
  refine ⟨[], fun rest => ?_, rfl⟩
  cases hr : cut rest <;> simp [hr]

theorem Prints.append {a b : List Char} {es fs : List Entry} (ha : Prints n a es)
    (hb : Prints n b fs) : Prints n (a ++ b) (es ++ fs) := by
  obtain ⟨lines, hcut, hlines⟩ := ha
  obtain ⟨lines', hcut', hlines'⟩ := hb
  refine ⟨lines ++ lines', fun rest => ?_, ?_⟩
  · rw [List.append_assoc, hcut, hcut', Option.map_map]
    congr 1
    funext more
    exact (List.append_assoc lines lines' more).symm
  · rw [List.filter_append, hlines, hlines', List.map_append]

theorem prints_newline : Prints n ['\n'] [] := by
  have hblank : Mode.after (.code 0) [] = some (.code 0) := rfl
  exact ⟨[[]], fun rest => cut_line hblank rfl rest, rfl⟩

theorem prints_entry {e : Entry} (h : IsLine e.kind e.text) : Prints n (e.write n) [e] := by
  obtain ⟨m, hm, hend⟩ := h.ends
  have hline : Mode.after (.code 0) (e.line n) = some m := by
    rw [Entry.line, Mode.after_indent, Mode.after_deepen, hm]
  refine ⟨[e.line n], fun rest => ?_, ?_⟩
  · rw [Entry.write, List.append_assoc]
    exact cut_line hline hend rest
  · exact List.filter_cons_of_pos (decide_eq_true (Entry.line_ne_nil h))

theorem prints_entries {es : List Entry} (h : ∀ e ∈ es, IsLine e.kind e.text) :
    Prints n (es.flatMap (Entry.write n)) es := by
  induction es with
  | nil => exact prints_nil
  | cons e es ih =>
    obtain ⟨he, hes⟩ := List.forall_mem_cons.mp h
    rw [List.flatMap_cons]
    exact (prints_entry he).append (ih hes)

end

/-! ## gathering -/

theorem length_openTo {k : Nat} {levels : List (List Item)} (h : levels.length ≤ k + 1) :
    (openTo k levels).length = k + 1 := by
  rw [openTo, List.length_append, List.length_replicate]
  omega

theorem openTo_succ {k : Nat} {levels : List (List Item)} (h : levels.length ≤ k + 1) :
    openTo (k + 1) levels = [] :: openTo k levels := by
  have hsub : k + 1 + 1 - levels.length = (k + 1 - levels.length) + 1 := by omega
  rw [openTo, hsub, List.replicate_succ, openTo, List.cons_append]

theorem openTo_self {k : Nat} {levels : List (List Item)} (h : levels.length = k + 1) :
    openTo k levels = levels := by
  rw [openTo, h, Nat.sub_self]
  rfl

/-- the lines of an item in front of others give the item in front of those of its level -/
def Item.Gathers (item : Item) : Prop :=
  ∀ k rest levels, gather rest = some levels → levels.length ≤ k + 1 →
    gather (item.entries k ++ rest) = some (push item (openTo k levels))

theorem gather_entriesOf {items : List Item} (h : ∀ item ∈ items, item.Gathers) {k : Nat}
    {rest : List Entry} {levels : List (List Item)} (hrest : gather rest = some levels)
    (hlength : levels.length ≤ k + 1) {top : List Item} {below : List (List Item)}
    (hopen : openTo k levels = top :: below) :
    ∃ levels', gather (entriesOf k items ++ rest) = some levels' ∧ levels'.length ≤ k + 1
      ∧ openTo k levels' = (items ++ top) :: below := by
  induction items with
  | nil => exact ⟨levels, hrest, hlength, hopen⟩
  | cons item items ih =>
    obtain ⟨hitem, hitems⟩ := List.forall_mem_cons.mp h
    obtain ⟨levels', hgather, hle, hopen'⟩ := ih hitems
    have hpush : push item (openTo k levels') = (item :: (items ++ top)) :: below := by
      rw [hopen']
      rfl
    have hfull : ((item :: (items ++ top)) :: below).length = k + 1 := by
      have hlen := length_openTo hle
      rw [hopen'] at hlen
      exact hlen
    refine ⟨_, ?_, Nat.le_of_eq hfull, openTo_self hfull⟩
    rw [entriesOf, List.append_assoc, hitem k _ levels' hgather hle, hpush]

theorem Item.Proper.gathers {item : Item} (h : item.Proper p) : item.Gathers := by
  induction h with
  | comment h hp | simple h hp =>
    intro k rest levels hrest hlength
    rw [Item.entries, List.singleton_append, gather, hrest, Option.bind_some]
    exact if_pos hlength
  | @head text suite h hp hcode hsuite ih =>
    intro k rest levels hrest hlength
    obtain ⟨levels', hgather, hle, hopen⟩ := gather_entriesOf ih hrest
      (Nat.le_succ_of_le hlength) (openTo_succ hlength)
    rw [List.append_nil] at hopen
    -- the suite is not empty, so its level has been begun
    have hfull : levels'.length = k + 1 + 1 := by
      by_contra hne
      rw [openTo_succ (by omega)] at hopen
      rw [← (List.cons.inj hopen).1] at hcode
      cases hcode
    rw [openTo_self hfull] at hopen
    rw [Item.entries, List.cons_append, gather, hgather, Option.bind_some, hopen]
    exact if_pos ⟨length_openTo hlength, hcode⟩

/-! ## reading a layout -/

theorem Prints.outline?_eq {n : Nat} (hn : 0 < n) {code : String} {items : List Item}
    (hprints : Prints n code.toList (entriesOf 0 items)) (h : ∀ item ∈ items, item.Proper p) :
    outline? n code = some items := by
  obtain ⟨lines, hcut, hlines⟩ := hprints
  have hwhole : cut code.toList = some lines := by
    have hnil := hcut []
    rw [List.append_nil] at hnil
    rw [hnil]
    exact congrArg some (List.append_nil lines)
  have hentries := mapM_readLine? hn (isLine_of_proper h 0)
  have hnone : gather [] = some [] := rfl
  have hroom : openTo 0 [] = [[]] := rfl
  obtain ⟨levels, hgather, hle, hopen⟩ := gather_entriesOf
    (fun item hitem => (h item hitem).gathers) hnone (Nat.zero_le 1) hroom
  rw [List.append_nil] at hgather hopen
  have hroot : root? levels = some items := by
    cases levels with
    | nil =>
      rw [show items = [] from (List.cons.inj hopen).1.symm]
      rfl
    | cons first more =>
      rw [openTo_self (Nat.le_antisymm hle (by simp))] at hopen
      rw [hopen]
      rfl
  rw [outline?, hwhole]
  show ((lines.filter (· ≠ [])).mapM (readLine? n)).bind _ = _
  rw [hlines, hentries]
  show (gather (entriesOf 0 items)).bind root? = _
  rw [hgather]
  exact hroot

end

/-! ## indenting a layout -/

/-- a line one level deeper -/
def Entry.deeper (e : Entry) : Entry := { e with level := e.level + 1 }

mutual
theorem Item.entries_succ (k : Nat) : (item : Item) →
    item.entries (k + 1) = (item.entries k).map Entry.deeper
  | .comment _ => rfl
  | .simple _ => rfl
  | .head text suite => by
    rw [Item.entries, Item.entries, List.map_cons, entriesOf_succ (k + 1) suite]
    rfl

theorem entriesOf_succ (k : Nat) : (items : List Item) →
    entriesOf (k + 1) items = (entriesOf k items).map Entry.deeper
  | [] => rfl
  | item :: rest => by
    rw [entriesOf, entriesOf, List.map_append, Item.entries_succ k item, entriesOf_succ k rest]
end

theorem Entry.line_deeper (n : Nat) (e : Entry) :
    e.deeper.line n = List.replicate n ' ' ++ deepen n (e.line n) := by
  have hwidth : (e.level + 1) * n = n + e.level * n := by rw [Nat.succ_mul, Nat.add_comm]
  rw [Entry.line, Entry.line, deepen_append, deepen_flat (newline_not_mem_blanks _), deepen_deepen,
    ← List.append_assoc, List.replicate_append_replicate, ← hwidth]
  rfl

theorem Entry.solid_line {n : Nat} {e : Entry} (h : Solid e.text) : Solid (e.line n) :=
  solidFrom_blanks _ (solidFrom_deepen _ h) true

theorem indentLines_entries {unit : String} {n : Nat} (hu : unit.toList = List.replicate n ' ')
    {es : List Entry} (h : ∀ e ∈ es, Solid e.text) :
    (indentLines unit (String.ofList (es.flatMap (Entry.write n)))).toList
      = (es.map Entry.deeper).flatMap (Entry.write n) := by
  induction es with
  | nil => rfl
  | cons e es ih =>
    obtain ⟨he, hes⟩ := List.forall_mem_cons.mp h
    rw [List.flatMap_cons, Entry.write, List.append_assoc, List.singleton_append,
      indentLines_line hu (Entry.solid_line he), ih hes, List.map_cons, List.flatMap_cons, Entry.write,
      Entry.line_deeper]
    simp only [List.append_assoc, List.singleton_append]

theorem indentLines_write {unit : String} {n : Nat} (hu : unit.toList = List.replicate n ' ')
    {items : List Item} (h : ∀ item ∈ items, item.Proper Solid) (k : Nat) :
    (indentLines unit (String.ofList (write n k items))).toList = write n (k + 1) items := by
  rw [write, write, indentLines_entries hu (test_of_proper h k), entriesOf_succ]

/-! ## layouts that run -/

theorem newline_not_mem_comment {m : Mode} {cs : List Char}
    (h : Mode.after (.comment 0) cs = some m) : '\n' ∉ cs := by
  induction cs with
  | nil => exact List.not_mem_nil
  | cons c cs ih =>
    rw [Mode.after_cons, Option.bind_eq_some_iff] at h
    obtain ⟨next, hstep, hrest⟩ := h
    simp only [Mode.step] at hstep
    split_ifs at hstep with hc hbreak
    · cases hstep
    · cases hstep
      rw [List.mem_cons, not_or]
      exact ⟨Ne.symm hc, ih hrest⟩

/-- a text begins with `#` exactly if it is a comment, which is one line -/
theorem IsLine.any_executable {kind : Kind} {cs : List Char} (h : IsLine kind cs) :
    (physical cs).any isExecutable = decide (kind ≠ .comment) := by
  obtain ⟨c, rest, rfl, hfirst⟩ := h.head_ne
  have hkind := h.kind
  by_cases hc : c = '#'
  · subst hc
    obtain ⟨m, hm, -⟩ := h.ends
    have hflat : '\n' ∉ '#' :: rest := by
      rw [List.mem_cons, not_or]
      exact ⟨by decide, newline_not_mem_comment hm⟩
    cases hkind
    rw [physical_flat hflat, List.any_cons, isExecutable_cons rfl]
    rfl
  · have hblank : Text.isBlank c = false := hfirst.resolve_left hc
    have hne : c ≠ '\n' := by
      rintro rfl
      cases hblank
    have hcode : kind ≠ .comment := by
      rintro rfl
      rw [kind?, if_neg hc] at hkind
      split_ifs at hkind <;> cases hkind
    obtain ⟨line, others, hlines⟩ := physical_cons hne rest
    rw [hlines, List.any_cons, isExecutable_cons hblank, decide_eq_true hcode]
    simp [hc]

theorem any_executable_line {n : Nat} {e : Entry} (h : IsLine e.kind e.text) (hs : Solid e.text)
    (hlevel : e.level = 0) (rest : List Char) :
    (lines (String.ofList (e.write n ++ rest))).any isExecutable
      = (decide (e.kind ≠ .comment) || (lines (String.ofList rest)).any isExecutable) := by
  have hline : e.line n = e.text := by
    rw [Entry.line, hlevel, Nat.zero_mul, deepen_zero]
    rfl
  rw [Entry.write, List.append_assoc, List.singleton_append, lines_line (Entry.solid_line hs),
    List.any_append, hline, h.any_executable]

theorem any_executable_write (n : Nat) {items : List Item}
    (h : ∀ item ∈ items, item.Proper Solid) :
    (lines (String.ofList (write n 0 items))).any isExecutable = items.any Item.isCode := by
  induction items with
  | nil => rfl
  | cons item items ih =>
    obtain ⟨hitem, hitems⟩ := List.forall_mem_cons.mp h
    have hrest := ih hitems
    rw [write] at hrest
    rw [write, entriesOf, List.flatMap_append, List.any_cons]
    cases hitem with
    | comment hline hs | simple hline hs =>
      rw [Item.entries, List.flatMap_singleton, any_executable_line hline hs rfl, hrest]
      rfl
    | head hline hs hcode hsuite =>
      rw [Item.entries, List.flatMap_cons, List.append_assoc, any_executable_line hline hs rfl]
      rfl

end VisualProgram.Python
