import VisualProgram.Program
import VisualProgram.Proofs.Literal.Layout

/-!
# The lines of a program

The program is written line by line, most of them a logical line each.  `Shows unit n k lines items` says
that the lines, as written, are cut into the lines of `items` at level `k` and blank ones.  It is proved
here for what stands around `create_engine`: the docstring, the imports, the set-up of logging and `main`.

A project's name, version and description stand in the docstring, where they can hold any character:
`docstring` escapes them so that they do not end it (`after_docstring`).  Its two replacements do not meddle
with each other, so they are one pass over the text (`docstring_eq`).
-/

namespace VisualProgram.Program
open Python

/-! ## lines that show items -/

structure Shows (unit : String) (n k : Nat) (lines : List Line) (items : List Item) : Prop where
  prints : Prints n (writeLines unit lines).toList (entriesOf k items)
  legible : ∀ item ∈ items, item.Proper fun _ => True

section
variable {unit : String} {n k : Nat}

@[simp] theorem toList_writeLines_cons (line : Line) (lines : List Line) :
    (writeLines unit (line :: lines)).toList
      = (Text.pad unit line.1).toList ++ (line.2.toList ++ '\n' :: (writeLines unit lines).toList) := by
  rw [writeLines, List.map_cons, String.join_cons, String.toList_append, writeLine,
    String.toList_append, String.toList_append, ← writeLines]
  simp

@[simp] theorem toList_writeLines_append (a b : List Line) :
    (writeLines unit (a ++ b)).toList = (writeLines unit a).toList ++ (writeLines unit b).toList := by
  induction a with
  | nil => rfl
  | cons line a ih =>
    rw [List.cons_append, toList_writeLines_cons, toList_writeLines_cons, ih]
    simp only [List.append_assoc, List.cons_append]

theorem shows_nil : Shows unit n k [] [] := ⟨prints_nil, List.forall_mem_nil _⟩

theorem Shows.append {a b : List Line} {items more : List Item} (ha : Shows unit n k a items)
    (hb : Shows unit n k b more) : Shows unit n k (a ++ b) (items ++ more) := by
  refine ⟨?_, List.forall_mem_append.mpr ⟨ha.legible, hb.legible⟩⟩
  rw [toList_writeLines_append, entriesOf_append]
  exact ha.prints.append hb.prints

theorem shows_blank : Shows unit n k [blank] [] := by
  refine ⟨?_, List.forall_mem_nil _⟩
  rw [toList_writeLines_cons]
  exact prints_newline

theorem Shows.blank {lines : List Line} {items : List Item} (h : Shows unit n k lines items) :
    Shows unit n k (lines ++ [blank]) items := by
  have hall := h.append shows_blank
  rwa [List.append_nil] at hall

theorem shows_flatMap {α : Type} {xs : List α} {lines : α → List Line} {items : α → List Item}
    (h : ∀ x ∈ xs, Shows unit n k (lines x) (items x)) :
    Shows unit n k (xs.flatMap lines) (xs.flatMap items) := by
  induction xs with
  | nil => exact shows_nil
  | cons x xs ih =>
    obtain ⟨hx, hxs⟩ := List.forall_mem_cons.mp h
    rw [List.flatMap_cons, List.flatMap_cons]
    exact hx.append (ih hxs)

section
variable (hu : unit.toList = List.replicate n ' ')
include hu

theorem prints_line {kind : Kind} {text : String} {cs : List Char} (h : IsLine kind cs)
    (htext : text.toList = Text.deepen (k * n) cs) :
    Prints n (writeLines unit [(k, text)]).toList [⟨k, kind, cs⟩] := by
  have hprints := prints_entry (n := n) (e := ⟨k, kind, cs⟩) h
  rw [Entry.write, Entry.line, List.append_assoc] at hprints
  rw [toList_writeLines_cons, toList_pad hu, htext]
  exact hprints

/-- a logical line whose later lines have been indented already -/
theorem shows_simple {text : String} {cs : List Char} (h : IsLine .simple cs)
    (htext : text.toList = Text.deepen (k * n) cs) : Shows unit n k [(k, text)] [.simple cs] :=
  ⟨prints_line hu h htext, List.forall_mem_singleton.mpr (.simple h trivial)⟩

theorem shows_flat {text : String} (h : IsLine .simple text.toList) (hflat : '\n' ∉ text.toList) :
    Shows unit n k [(k, text)] [.simple text.toList] :=
  shows_simple hu h (Text.deepen_flat hflat _).symm

/-- a suite under its head -/
theorem Shows.head {text : String} (h : IsLine .head text.toList) (hflat : '\n' ∉ text.toList)
    {lines : List Line} {suite : List Item} (hcode : suite.any Item.isCode = true)
    (hs : Shows unit n (k + 1) lines suite) :
    Shows unit n k ((k, text) :: lines) [.head text.toList suite] := by
  refine ⟨?_, List.forall_mem_singleton.mpr (.head h trivial hcode hs.legible)⟩
  have hhead := prints_line (k := k) hu h (Text.deepen_flat hflat _).symm
  rw [← List.singleton_append, toList_writeLines_append, entriesOf, entriesOf, List.append_nil,
    Item.entries, ← List.singleton_append]
  exact hhead.append hs.prints

end

/-! ### items on lines of their own -/

/-- a text of one line -/
def isFlat (cs : List Char) : Bool := !cs.contains '\n'

theorem isFlat_iff {cs : List Char} : isFlat cs = true ↔ '\n' ∉ cs := by simp [isFlat]

abbrev Flat (cs : List Char) : Prop := isFlat cs = true

def linesOf (k : Nat) (items : List Item) : List Line :=
  (entriesOf k items).map fun e => (e.level, String.ofList e.text)

theorem shows_linesOf (hu : unit.toList = List.replicate n ' ') {items : List Item}
    (h : ∀ item ∈ items, item.Proper Flat) : Shows unit n k (linesOf k items) items := by
  have hentries : ∀ es : List Entry, (∀ e ∈ es, IsLine e.kind e.text) → (∀ e ∈ es, Flat e.text) →
      Prints n (writeLines unit (es.map fun e => (e.level, String.ofList e.text))).toList es := by
    intro es hlines hflat
    induction es with
    | nil => exact prints_nil
    | cons e es ih =>
      obtain ⟨hline, hlines⟩ := List.forall_mem_cons.mp hlines
      obtain ⟨he, hes⟩ := List.forall_mem_cons.mp hflat
      have htext : (String.ofList e.text).toList = Text.deepen (e.level * n) e.text := by
        rw [String.toList_ofList, Text.deepen_flat (isFlat_iff.mp he)]
      rw [List.map_cons, ← List.singleton_append, toList_writeLines_append]
      exact (prints_line hu hline htext).append (ih hlines hes)
  exact ⟨hentries _ (isLine_of_proper h k) (test_of_proper h k),
    fun item hitem => (h item hitem).mono fun _ _ => trivial⟩

end

/-! ## two replacements in one pass -/

/-- a text with its backslashes doubled and its triples of quotes escaped -/
def escaped : List Char → List Char
  | '"' :: '"' :: '"' :: rest => '\\' :: '"' :: '\\' :: '"' :: '\\' :: '"' :: escaped rest
  | '\\' :: rest => '\\' :: '\\' :: escaped rest
  | c :: rest => c :: escaped rest
  | [] => []

theorem doubleBackslashes_cons {c : Char} (h : c ≠ '\\') (cs : List Char) :
    doubleBackslashes (c :: cs) = c :: doubleBackslashes cs := by
  rw [doubleBackslashes, List.flatMap_cons, if_neg h]
  rfl

/-- doubling backslashes brings no quote to the front -/
theorem quote_of_doubleBackslashes {cs more : List Char} (h : doubleBackslashes cs = '"' :: more) :
    ∃ tail, cs = '"' :: tail ∧ doubleBackslashes tail = more := by
  cases cs with
  | nil => cases h
  | cons c tail =>
    by_cases hslash : c = '\\'
    · subst hslash
      exact absurd (List.cons.inj h).1 (by decide)
    · rw [doubleBackslashes_cons hslash] at h
      obtain ⟨rfl, hmore⟩ := List.cons.inj h
      exact ⟨tail, rfl, hmore⟩

theorem escapeTriples_cons {c : Char} {rest : List Char} (h : c = '"' → ∀ more, rest ≠ '"' :: '"' :: more) :
    escapeTriples (c :: rest) = c :: escapeTriples rest := by
  rw [escapeTriples]
  intro more hc hrest
  exact absurd hrest (h hc more)

theorem docstring_eq (cs : List Char) : docstring cs = escaped cs := by
  unfold docstring
  fun_induction escaped cs with
  | case1 tail ih =>
    rw [doubleBackslashes_cons (by decide), doubleBackslashes_cons (by decide), doubleBackslashes_cons (by decide),
      escapeTriples, ih]
  | case2 tail ih =>
    have hdouble : doubleBackslashes ('\\' :: tail) = '\\' :: '\\' :: doubleBackslashes tail := rfl
    rw [hdouble, escapeTriples_cons (fun hc => absurd hc (by decide)),
      escapeTriples_cons (fun hc => absurd hc (by decide)), ih]
  | case3 c tail htriple hslash ih =>
    have hquotes : c = '"' → ∀ more, doubleBackslashes tail ≠ '"' :: '"' :: more := by
      rintro rfl more hsecond
      obtain ⟨others, rfl, hthird⟩ := quote_of_doubleBackslashes hsecond
      obtain ⟨others, rfl, -⟩ := quote_of_doubleBackslashes hthird
      exact htriple others rfl rfl
    rw [doubleBackslashes_cons hslash, escapeTriples_cons hquotes, ih]
  | case4 => rfl

/-! ## the docstring -/

/-- after so many quotes the text does not go on with those that are missing to three -/
def Clear : Nat → List Char → Prop
  | 0, _ => True
  | 1, cs => ∀ rest, cs ≠ '"' :: '"' :: rest
  | 2, cs => ∀ rest, cs ≠ '"' :: rest
  | _, _ => False

theorem after_docstring (cs : List Char) {q : Nat} (h : Clear q cs) :
    ∃ k, (Mode.long 0 q).after (docstring cs) = some (.long 0 k) := by
  rw [docstring_eq]
  fun_induction escaped cs generalizing q with
  | case1 rest ih =>
    obtain ⟨k, hk⟩ := ih (q := 0) trivial
    exact ⟨k, hk⟩
  | case2 rest ih =>
    obtain ⟨k, hk⟩ := ih (q := 0) trivial
    exact ⟨k, hk⟩
  | case3 c rest htriple hslash ih =>
    by_cases hc : c = '"'
    · subst hc
      match q, h with
      | 0, _ =>
        obtain ⟨k, hk⟩ := ih (q := 1) fun more hmore => htriple more rfl hmore
        exact ⟨k, hk⟩
      | 1, h =>
        obtain ⟨k, hk⟩ := ih (q := 2) fun more hmore => h more (congrArg ('"' :: ·) hmore)
        exact ⟨k, hk⟩
      | 2, h => exact absurd rfl (h rest)
    · obtain ⟨k, hk⟩ := ih (q := 0) trivial
      refine ⟨k, ?_⟩
      rw [Mode.after_cons, Mode.step, if_neg hc, if_neg hslash, Option.bind_some, hk]
  | case4 => exact ⟨q, rfl⟩

/-- a text in the docstring and a character that belongs to it -/
theorem after_docstring_cons (cs : List Char) {c : Char} (hquote : c ≠ '"') (hslash : c ≠ '\\')
    (rest : List Char) :
    (Mode.long 0 0).after (docstring cs ++ c :: rest) = (Mode.long 0 0).after rest := by
  obtain ⟨k, hk⟩ := after_docstring cs (q := 0) trivial
  simp [Mode.after_append_of hk, Mode.step, hquote, hslash]

/-- what stands between the quotes of the docstring -/
def docBody (info : Meta) : List Char :=
  let last := "\nGenerated from the project graph. Do not edit by hand.\n".toList
  '\n' :: (docstring info.name.toList ++ ' ' :: 'v' :: (docstring info.version.toList ++ '\n' ::
    if info.description = "" then last else '\n' :: (docstring info.description.toList ++ '\n' :: last)))

def docText (info : Meta) : List Char := '"' :: '"' :: '"' :: (docBody info ++ ['"', '"', '"'])

theorem after_docBody (info : Meta) : (Mode.long 0 0).after (docBody info) = some (.long 0 0) := by
  simp only [docBody]
  show (Mode.long 0 0).after (docstring info.name.toList ++ ' ' :: _) = _
  rw [after_docstring_cons _ (by decide) (by decide)]
  show (Mode.long 0 0).after (docstring info.version.toList ++ '\n' :: _) = _
  rw [after_docstring_cons _ (by decide) (by decide)]
  split
  next => rfl
  next =>
    show (Mode.long 0 0).after (docstring info.description.toList ++ '\n' :: _) = _
    rw [after_docstring_cons _ (by decide) (by decide)]
    rfl

theorem isLine_docText (info : Meta) : IsLine .simple (docText info) := by
  have hafter : (Mode.code 0).after (docText info) = some (.code 0) := by
    show (Mode.long 0 0).after (docBody info ++ ['"', '"', '"']) = _
    rw [Mode.after_append_of (after_docBody info)]
    rfl
  have hlast : (docText info).getLast? ≠ some ':' := by
    have hsplit : docText info = '"' :: '"' :: '"' :: (docBody info ++ ['"', '"']) ++ ['"'] := by
      simp [docText]
    rw [hsplit, List.getLast?_concat]
    decide
  exact ⟨kind?_of_begins (begins_cons.mpr ⟨by decide, by decide, firstWord_not_mem rfl _⟩) hlast,
    .code 0, hafter, rfl⟩

theorem shows_header {unit : String} {n : Nat} (info : Meta) :
    Shows unit n 0 (header info) [.simple (docText info)] := by
  refine ⟨?_, List.forall_mem_singleton.mpr (.simple (isLine_docText info) trivial)⟩
  have hwrite : (writeLines unit (header info)).toList = docText info ++ ['\n'] ++ ['\n'] := by
    unfold header docText docBody
    split <;> simp [writeLines, writeLine, docstringText, Program.blank, Text.pad_zero]
  have hprints := prints_entry (n := n) (e := ⟨0, .simple, docText info⟩) (isLine_docText info)
  rw [Entry.write_zero] at hprints
  rw [hwrite]
  exact hprints.append prints_newline

/-! ## lines in brackets -/

/-- an opening line, indented lines of which none closes the bracket, and a closing line -/
def bracketed (n : Nat) (opening : String) (inner : List String) : List Char :=
  opening.toList ++ (inner.flatMap (fun text => '\n' :: (List.replicate n ' ' ++ text.toList)) ++ ['\n', ')'])

section
variable {n : Nat} {opening : String} {inner : List String}

theorem after_indented (h : ∀ text ∈ inner, (Mode.code 1).after text.toList = some (.code 1)) :
    (Mode.code 1).after (inner.flatMap fun text => '\n' :: (List.replicate n ' ' ++ text.toList))
      = some (.code 1) := by
  induction inner with
  | nil => rfl
  | cons text inner ih =>
    obtain ⟨htext, hinner⟩ := List.forall_mem_cons.mp h
    have hline : (Mode.code 1).after ('\n' :: (List.replicate n ' ' ++ text.toList))
        = some (.code 1) := by
      show (Mode.code 1).after (List.replicate n ' ' ++ text.toList) = _
      have hblanks : (Mode.code 1).after (List.replicate n ' ') = some (.code 1) :=
        Mode.after_blanks (m := .code 1) rfl n
      rw [Mode.after_append_of hblanks, htext]
    rw [List.flatMap_cons, Mode.after_append_of hline, ih hinner]

theorem isLine_bracketed (hbegins : begins opening.toList = true)
    (hword : opening.toList.any (!isWordChar ·) = true)
    (hopening : (Mode.code 0).after opening.toList = some (.code 1))
    (hinner : ∀ text ∈ inner, (Mode.code 1).after text.toList = some (.code 1)) :
    IsLine .simple (bracketed n opening inner) := by
  refine ⟨kind?_of_begins (begins_append hbegins (firstWord_of_any hword _)) ?_, .code 0, ?_, rfl⟩
  · have hsplit : bracketed n opening inner = opening.toList
        ++ (inner.flatMap (fun text => '\n' :: (List.replicate n ' ' ++ text.toList)) ++ ['\n']) ++ [')'] := by
      simp [bracketed]
    rw [hsplit, List.getLast?_concat]
    decide
  · rw [bracketed, Mode.after_append_of hopening, Mode.after_append_of (after_indented hinner)]
    rfl

variable {unit : String} (hu : unit.toList = List.replicate n ' ')
include hu

/-- a newline in front of each line instead of after it -/
theorem toList_indented :
    '\n' :: (writeLines unit (inner.map fun text => (1, text))).toList
      = inner.flatMap (fun text => '\n' :: (List.replicate n ' ' ++ text.toList)) ++ ['\n'] := by
  induction inner with
  | nil => rfl
  | cons text inner ih =>
    rw [List.map_cons, toList_writeLines_cons, toList_pad hu, Nat.one_mul, ih, List.flatMap_cons]
    simp only [List.cons_append, List.append_assoc]

theorem toList_bracketed :
    (writeLines unit ((0, opening) :: (inner.map fun text => (1, text)) ++ [(0, ")")])).toList
      = bracketed n opening inner ++ ['\n'] := by
  have hclosing : (writeLines unit [(0, ")")]).toList = [')', '\n'] := by
    rw [toList_writeLines_cons]
    rfl
  rw [toList_writeLines_append, toList_writeLines_cons, toList_indented hu, hclosing, bracketed]
  simp [Text.pad_zero]

theorem shows_bracketed (h : IsLine .simple (bracketed n opening inner)) :
    Shows unit n 0 ((0, opening) :: (inner.map fun text => (1, text)) ++ [(0, ")")])
      [.simple (bracketed n opening inner)] := by
  refine ⟨?_, List.forall_mem_singleton.mpr (.simple h trivial)⟩
  have hprints := prints_entry (n := n) (e := ⟨0, .simple, bracketed n opening inner⟩) h
  rw [Entry.write_zero] at hprints
  rw [toList_bracketed hu]
  exact hprints

end

/-! ## imports, logging and the main function -/

theorem after_class {name : String} (h : IsName name) :
    (Mode.code 1).after (name ++ ",").toList = some (.code 1) := by
  rw [String.toList_append]
  refine after_plain (List.forall_mem_append.mpr ⟨fun c hc => ?_, List.all_eq_true.mp rfl⟩) 1
  exact (isPlain_of_word (isWord_chars h.1 c hc)).1

def importItems (n : Nat) (classes : List String) : List Item :=
  [.simple "import logging".toList, .simple "import time".toList,
   .simple "from daq_core.engine import DAQEngine".toList]
  ++ if classes = [] then []
    else [.simple (bracketed n "from daq_core.components import (" (classes.map (· ++ ",")))]

def loggingItems (n : Nat) : List Item :=
  [.simple (bracketed n "logging.basicConfig("
    ["level=logging.INFO,", "format=\"%(asctime)s [%(levelname)s] %(name)s: %(message)s\","]),
   .simple "logger = logging.getLogger(__name__)".toList]

def runningLine (info : Meta) : String :=
  "logger.info(\"Running %s, press Ctrl+C to stop\", " ++ Literal.quote info.name ++ ")"

def sleepLine (o : Options) : String := "time.sleep(" ++ Literal.float o.idleSleepSeconds ++ ")"

def mainItem (o : Options) (info : Meta) : Item :=
  .head "def main():".toList
    [.simple "engine = None".toList,
     .head "try:".toList
      [.simple "engine = create_engine()".toList, .simple "engine.start()".toList,
       .simple (runningLine info).toList,
       .head "while True:".toList [.simple (sleepLine o).toList]],
     .head "except KeyboardInterrupt:".toList
      [.simple "logger.info(\"Interrupted, stopping engine\")".toList],
     .head "except Exception:".toList
      [.simple "logger.exception(\"Engine failed\")".toList, .simple "raise".toList],
     .head "finally:".toList
      [.head "if engine is not None:".toList [.simple "engine.stop()".toList]]]

def guardItem : Item := .head "if __name__ == \"__main__\":".toList [.simple "main()".toList]

theorem mainLines_eq (o : Options) (info : Meta) :
    mainLines o info = linesOf 0 [mainItem o info] ++ blank :: blank :: linesOf 0 [guardItem] := by
  unfold linesOf mainItem guardItem runningLine sleepLine mainLines
  simp only [entriesOf, Item.entries, List.cons_append, List.nil_append]
  simp only [List.map_cons, List.map_nil, String.ofList_toList, Nat.reduceAdd, List.cons_append,
    List.nil_append]

/-- a text between two fixed ones -/
theorem snippet_within {opening closing : String}
    (hs : Shape.isSnippet [some opening.toList, none, some closing.toList] = true) {text : String}
    (h : Snippet text.toList) : Snippet (opening ++ text ++ closing).toList := by
  have hall := Shape.snippet hs (.cons rfl (.cons h (.cons rfl .nil)))
  simpa using hall

theorem flat_within {opening closing text : String} (hopening : Flat opening.toList)
    (hclosing : Flat closing.toList) (h : '\n' ∉ text.toList) : Flat (opening ++ text ++ closing).toList := by
  rw [Flat, isFlat_iff] at *
  simp [hopening, hclosing, h]

theorem proper_mainItem {o : Options} (h : o.idleSleepSeconds.isFinite = true) (info : Meta) :
    (mainItem o info).Proper Flat := by
  have hrunning : Item.Proper Flat (.simple (runningLine info).toList) :=
    .simple (snippet_within (by decide) (snippet_quote _)).isLine
      (flat_within (by decide) (by decide) (not_mem_quote rfl _))
  have hsleep : Item.Proper Flat (.simple (sleepLine o).toList) := by
    have hfloat : '\n' ∉ (Literal.float o.idleSleepSeconds).toList := by
      intro hmem
      cases isNumeral_float h _ hmem
    exact .simple (snippet_within (by decide) (snippet_float h)).isLine
      (flat_within (by decide) (by decide) hfloat)
  have hwhile : Item.Proper Flat (.head "while True:".toList [.simple (sleepLine o).toList]) :=
    .head (by decide) (by decide) rfl (List.forall_mem_singleton.mpr hsleep)
  have htry : ∀ item ∈
      [Item.simple "engine = create_engine()".toList, .simple "engine.start()".toList]
        ++ [.simple (runningLine info).toList,
          .head "while True:".toList [.simple (sleepLine o).toList]], item.Proper Flat :=
    List.forall_mem_append.mpr ⟨proper_of_areProper _ (by decide),
      List.forall_mem_cons.mpr ⟨hrunning, List.forall_mem_singleton.mpr hwhile⟩⟩
  refine .head (by decide) (by decide) rfl (List.forall_mem_cons.mpr ⟨.simple (by decide) (by decide), ?_⟩)
  refine List.forall_mem_cons.mpr ⟨.head (by decide) (by decide) rfl htry, ?_⟩
  exact proper_of_areProper _ (by decide +kernel)

theorem shows_mainLines {unit : String} {n : Nat} (hu : unit.toList = List.replicate n ' ')
    {o : Options} (h : o.idleSleepSeconds.isFinite = true) (info : Meta) :
    Shows unit n 0 (mainLines o info) [mainItem o info, guardItem] := by
  have hmain := shows_linesOf (k := 0) hu (List.forall_mem_singleton.mpr (proper_mainItem h info))
  have hguard : ∀ item ∈ [guardItem], item.Proper Flat := proper_of_areProper _ (by decide +kernel)
  have hall := hmain.blank.blank.append (shows_linesOf hu hguard)
  rw [mainLines_eq]
  simpa using hall

theorem shows_imports {unit : String} {n : Nat} (hu : unit.toList = List.replicate n ' ')
    {classes : List String} (h : ∀ name ∈ classes, IsName name) :
    Shows unit n 0 (imports .standard classes) (importItems n classes) := by
  have hlogging : Shows unit n 0 [(0, "import logging")] [.simple "import logging".toList] :=
    shows_flat hu (by decide) (by decide)
  have htime : Shows unit n 0 [(0, "import time")] [.simple "import time".toList] :=
    shows_flat hu (by decide) (by decide)
  have hengine : Shows unit n 0 [(0, "from daq_core.engine import DAQEngine")]
      [.simple "from daq_core.engine import DAQEngine".toList] :=
    shows_flat hu (by decide) (by decide)
  have hinner : ∀ text ∈ classes.map (· ++ ","), (Mode.code 1).after text.toList = some (.code 1) :=
    List.forall_mem_map.mpr fun name hname => after_class (h name hname)
  have hline : IsLine .simple
      (bracketed n "from daq_core.components import (" (classes.map (· ++ ","))) :=
    isLine_bracketed rfl rfl rfl hinner
  have hfixed := (hlogging.append htime).blank.append hengine
  have hname : "from " ++ Options.standard.engineModule ++ " import " ++ Options.standard.engineClass
      = "from daq_core.engine import DAQEngine" := by decide
  have hopening : "from " ++ Options.standard.componentModule ++ " import ("
      = "from daq_core.components import (" := by decide
  rw [imports, importItems, hname, hopening]
  split
  next => simpa using hfixed.blank
  next =>
    have hall := (hfixed.append (shows_bracketed hu hline)).blank
    rw [List.map_map] at hall
    exact hall

theorem shows_logging {unit : String} {n : Nat} (hu : unit.toList = List.replicate n ' ') :
    Shows unit n 0 logging (loggingItems n) := by
  have hline : IsLine .simple (bracketed n "logging.basicConfig(" ["level=logging.INFO,",
      "format=\"%(asctime)s [%(levelname)s] %(name)s: %(message)s\","]) :=
    isLine_bracketed rfl rfl rfl (by decide)
  have hlogger : Shows unit n 0 [(0, "logger = logging.getLogger(__name__)")]
      [.simple "logger = logging.getLogger(__name__)".toList] :=
    shows_flat hu (by decide) (by decide)
  exact ((shows_bracketed hu hline).append hlogger).blank.blank

end VisualProgram.Program
