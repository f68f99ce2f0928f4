import VisualProgram.Proofs.Definition.Entries

/-!
# Messages and their arguments

An editor reads a message from left to right: `%%` is a percent sign, `%` with digits after it refers to
the argument of that number, and everything else stands for itself.  `readMarks` is that reader.

A part of a message is read as what it was made from, whatever text a label has: the percent signs of a
label are doubled, and a number ends where the part does, since a blank follows it.  So a message is read
as its pieces with blanks between them (`readMarks_parts`), and the references in it are the numbers of
the arguments in their order (`references_marksOf`).
-/

namespace VisualProgram.Definition

/-! ## reading a message -/

inductive Mark where
  | char (c : Char)
  | reference (n : Nat)
deriving DecidableEq, Repr

def Mark.reference? : Mark → Option Nat
  | .char _ => none
  | .reference n => some n

/-- where the reader is: in text, after a percent sign, or after one and a number -/
inductive Reader where
  | text
  | percent
  | number (n : Nat)

/-- the marks of the rest of a message; a percent sign before anything else than a percent sign or a digit
is no message -/
def readFrom : Reader → List Char → Option (List Mark)
  | .text, [] => some []
  | .percent, [] => none
  | .number n, [] => some [.reference n]
  | .text, c :: cs =>
    if c = '%' then readFrom .percent cs else (readFrom .text cs).map (.char c :: ·)
  | .percent, c :: cs =>
    if c = '%' then (readFrom .text cs).map (.char '%' :: ·)
    else if c.isDigit then readFrom (.number (c.toNat - '0'.toNat)) cs
    else none
  | .number n, c :: cs =>
    if c.isDigit then readFrom (.number (10 * n + (c.toNat - '0'.toNat))) cs
    else if c = '%' then (readFrom .percent cs).map (.reference n :: ·)
    else (readFrom .text cs).map fun marks => .reference n :: .char c :: marks

def readMarks (message : String) : Option (List Mark) := readFrom .text message.toList

/-! ## reading the parts -/

/-- no digit comes first -/
def Closed (rest : List Char) : Prop := ∀ c ∈ rest.head?, c.isDigit = false

theorem readFrom_percent (rest : List Char) :
    readFrom .text ('%' :: rest) = readFrom .percent rest := rfl

theorem readFrom_char {c : Char} (hc : c ≠ '%') (rest : List Char) :
    readFrom .text (c :: rest) = (readFrom .text rest).map (.char c :: ·) := if_neg hc

/-- a label is read as its text -/
theorem readFrom_label (label : List Char) (rest : List Char) :
    readFrom .text (label.flatMap (fun c => if c = '%' then ['%', '%'] else [c]) ++ rest)
      = (readFrom .text rest).map (label.map .char ++ ·) := by
  induction label with
  | nil => exact Option.map_id'.symm
  | cons c cs ih =>
    have hcons : ((readFrom .text rest).map (cs.map .char ++ ·)).map (.char c :: ·)
        = (readFrom .text rest).map ((c :: cs).map .char ++ ·) := by
      rw [Option.map_map]
      rfl
    rw [List.flatMap_cons, List.append_assoc]
    by_cases hc : c = '%'
    · subst hc
      rw [if_pos rfl, ← hcons, ← ih]
      rfl
    · rw [if_neg hc, ← hcons, ← ih]
      exact readFrom_char hc _

theorem readFrom_digits {digits : List Char} (h : ∀ c ∈ digits, c.isDigit = true) (n : Nat) (rest : List Char) :
    readFrom (.number n) (digits ++ rest) = readFrom (.number (Nat.ofDigitChars 10 digits n)) rest := by
  induction digits generalizing n with
  | nil => rfl
  | cons c cs ih =>
    obtain ⟨hc, hcs⟩ := List.forall_mem_cons.mp h
    have hstep : readFrom (.number n) (c :: (cs ++ rest))
        = readFrom (.number (10 * n + (c.toNat - '0'.toNat))) (cs ++ rest) := if_pos hc
    rw [List.cons_append, hstep, ih hcs]
    rfl

/-- a number ends before what is no digit -/
theorem readFrom_closed {rest : List Char} (h : Closed rest) (n : Nat) :
    readFrom (.number n) rest = (readFrom .text rest).map (.reference n :: ·) := by
  cases rest with
  | nil => rfl
  | cons c cs =>
    have hc : c.isDigit = false := h c rfl
    unfold readFrom
    rw [hc, if_neg (by decide)]
    split
    · rfl
    · rw [Option.map_map]
      rfl

/-- a reference is read as its number -/
theorem readFrom_reference (n : Nat) {rest : List Char} (h : Closed rest) :
    readFrom .text ('%' :: (toString n).toList ++ rest) = (readFrom .text rest).map (.reference n :: ·) := by
  have hdigits : ∀ c ∈ Nat.toDigits 10 n, c.isDigit = true :=
    fun c hc => Nat.isDigit_of_mem_toDigits (by decide) (by decide) hc
  rw [Nat.toString_eq_repr, Nat.toList_repr, List.cons_append, readFrom_percent]
  have hvalue : Nat.ofDigitChars 10 (Nat.toDigits 10 n) 0 = n := Nat.ofDigitChars_toDigits (by decide) (by decide)
  obtain ⟨c, cs, hlist⟩ := List.exists_cons_of_ne_nil (Nat.toDigits_ne_nil (b := 10) (n := n))
  rw [hlist] at hdigits hvalue ⊢
  obtain ⟨hc, hcs⟩ := List.forall_mem_cons.mp hdigits
  have hpercent : c ≠ '%' := by
    rintro rfl
    exact absurd hc (by decide)
  have hstep : readFrom .percent (c :: (cs ++ rest))
      = readFrom (.number (c.toNat - '0'.toNat)) (cs ++ rest) := (if_neg hpercent).trans (if_pos hc)
  have hfirst : Nat.ofDigitChars 10 cs (c.toNat - '0'.toNat) = n := by
    rw [← hvalue]
    simp [Nat.ofDigitChars]
  rw [List.cons_append, hstep, readFrom_digits hcs, hfirst, readFrom_closed h]

/-! ## reading the message -/

namespace Piece

/-- what stands in a message for a piece, after some arguments -/
def marks (before : Nat) : Piece → List Mark
  | .label text => text.toList.map .char
  | .argument _ => [.reference (before + 1)]

/-- the pieces one after the other, the arguments numbered on from those before -/
def marksOf (before : Nat) : List Piece → List (List Mark)
  | [] => []
  | p :: rest => p.marks before :: marksOf (before + p.count) rest

theorem readFrom_part (before : Nat) (p : Piece) {rest : List Char} (h : Closed rest) :
    readFrom .text ((p.part before).toList ++ rest) = (readFrom .text rest).map (p.marks before ++ ·) := by
  cases p with
  | label text =>
    rw [part, escapePercent, String.toList_ofList]
    exact readFrom_label text.toList rest
  | argument a =>
    rw [part, String.toList_append]
    exact readFrom_reference (before + 1) h

theorem intercalate_marksOf (before : Nat) (p q : Piece) (rest : List Piece) :
    List.intercalate [Mark.char ' '] (marksOf before (p :: q :: rest))
      = p.marks before ++ .char ' ' :: List.intercalate [.char ' '] (marksOf (before + p.count) (q :: rest)) := by
  have hne : marksOf (before + p.count) (q :: rest) ≠ [] := List.cons_ne_nil _ _
  have hcons : marksOf before (p :: q :: rest) = p.marks before :: marksOf (before + p.count) (q :: rest) := rfl
  rw [hcons, List.intercalate_cons_of_ne_nil hne, List.append_assoc]
  rfl

/-- a message is read as its pieces, with a blank between two of them -/
theorem readMarks_parts (before : Nat) (ps : List Piece) :
    readMarks (String.intercalate " " (parts before ps))
      = some (List.intercalate [.char ' '] (marksOf before ps)) := by
  induction ps generalizing before with
  | nil => rfl
  | cons p rest ih =>
    cases rest with
    | nil =>
      have hclosed : Closed [] := fun c hc => by cases hc
      have hpart := readFrom_part before p hclosed
      rw [List.append_nil] at hpart
      rw [parts, parts, String.intercalate_singleton, readMarks, hpart]
      show some (p.marks before ++ []) = some (List.intercalate _ [p.marks before])
      rw [List.append_nil, List.intercalate_singleton]
    | cons q rest =>
      have hblank : Closed (' ' :: (String.intercalate " " (parts (before + p.count) (q :: rest))).toList) := by
        intro c hc
        cases hc
        rfl
      have hrest : readFrom .text (String.intercalate " " (parts (before + p.count) (q :: rest))).toList
          = some (List.intercalate [.char ' '] (marksOf (before + p.count) (q :: rest))) := ih _
      have hmessage : (String.intercalate " " (parts before (p :: q :: rest))).toList
          = (p.part before).toList
            ++ ' ' :: (String.intercalate " " (parts (before + p.count) (q :: rest))).toList := by
        rw [parts, String.intercalate_cons_of_ne_nil (by simp [parts]), String.toList_append, String.toList_append,
          List.append_assoc]
        rfl
      rw [readMarks, hmessage, readFrom_part before p hblank, readFrom_char (by decide), hrest, intercalate_marksOf]
      rfl

theorem references_marks (before : Nat) (p : Piece) :
    (p.marks before).filterMap Mark.reference? = List.range' (before + 1) p.count := by
  cases p with
  | label text =>
    rw [marks, List.filterMap_map]
    exact List.filterMap_eq_nil_iff.mpr fun _ _ => rfl
  | argument a => rfl

/-- the references of a message are the numbers of its arguments, in order -/
theorem references_marksOf (before : Nat) (ps : List Piece) :
    (List.intercalate [.char ' '] (marksOf before ps)).filterMap Mark.reference?
      = List.range' (before + 1) (ps.filterMap argument?).length := by
  induction ps generalizing before with
  | nil => rfl
  | cons p rest ih =>
    have hcount : ((p :: rest).filterMap argument?).length = p.count + (rest.filterMap argument?).length := by
      cases p with
      | label text => exact (Nat.zero_add _).symm
      | argument a => exact Nat.add_comm _ 1
    have hjoin : (List.intercalate [.char ' '] (marksOf before (p :: rest))).filterMap Mark.reference?
        = (p.marks before).filterMap Mark.reference?
          ++ (List.intercalate [.char ' '] (marksOf (before + p.count) rest)).filterMap Mark.reference? := by
      cases rest with
      | nil =>
        have hsingle : marksOf before [p] = [p.marks before] := rfl
        rw [hsingle, List.intercalate_singleton]
        exact (List.append_nil _).symm
      | cons q rest =>
        rw [intercalate_marksOf, List.filterMap_append]
        rfl
    rw [hjoin, references_marks, ih, hcount, ← List.range'_append_1, Nat.add_right_comm]

end Piece

/-! ## the message of a definition -/

/-- the pieces of an input are those of its fields and then its own -/
theorem pieces_eq (root : Block) :
    pieces root = (Block.chainOf (root.statement? "INPUTS")).flatMap fun input =>
      if (Descriptor.ofInput input).kind?.isSome then
        (Block.chainOf (input.statement? "FIELDS")).filterMap (fun field => (Descriptor.ofField field).piece?)
          ++ (Descriptor.ofInput input).piece?.toList
      else [] := by
  rw [pieces, descriptors, List.filterMap_flatMap]
  congr 1
  funext input
  rw [inputDescriptors]
  cases hkind : (Descriptor.ofInput input).kind? with
  | none => simp [Descriptor.piece?, hkind]
  | some k =>
    rw [Option.isSome_some, if_pos rfl, if_pos rfl, List.filterMap_append, List.filterMap_map, filterMap_cons_toList,
      List.filterMap_nil, List.append_nil]
    rfl

/-- a message is read as the pieces that the definition declares, in order and with a blank between two of them:
a label as its text, whatever its characters are, and an argument as a reference to it.  The references are the
numbers from one up to the number of entries, each once and in order, and the entries are the arguments.  The
pieces of an input are those of its fields and then its own -/
theorem message_matches_arguments (root : Block) (h : root.tag = rootTag) :
    ∃ s marks, (compile (some root)).definition = some s ∧ (compile (some root)).schema = s.toJson.pretty
      ∧ s.toJson.member? "message0" = some (.string s.message)
      ∧ readMarks s.message = some marks
      ∧ marks.filterMap Mark.reference? = List.range' 1 (args0 s.toJson).length
      ∧ marks = List.intercalate [.char ' '] (Piece.marksOf 0 (pieces root))
      ∧ args0 s.toJson = ((pieces root).filterMap Piece.argument?).map Argument.toJson
      ∧ pieces root = (Block.chainOf (root.statement? "INPUTS")).flatMap fun input =>
        if (Descriptor.ofInput input).kind?.isSome then
          (Block.chainOf (input.statement? "FIELDS")).filterMap (fun field => (Descriptor.ofField field).piece?)
            ++ (Descriptor.ofInput input).piece?.toList
        else [] := by
  have hentries : args0 (schemaOf root).toJson = ((pieces root).filterMap Piece.argument?).map Argument.toJson := by
    rw [Schema.args0_toJson, arguments_eq_pieces]
  have hmessage : (schemaOf root).message = String.intercalate " " (Piece.parts 0 (pieces root)) :=
    congrArg (String.intercalate " ") (message_collect root)
  refine ⟨schemaOf root, _, by rw [compile_root h]; rfl, by rw [compile_root h]; rfl, Schema.member?_message0 _, ?_, ?_,
    rfl, hentries, pieces_eq root⟩
  · rw [hmessage, Piece.readMarks_parts]
  · rw [Piece.references_marksOf, hentries, List.length_map]

/-- a definition whose labels look like references, with an input and two fields -/
def percentRoot : Block :=
  ⟨"r", rootTag, [], [],
    [("INPUTS", ⟨"i", "input_value", [("INPUTNAME", .string "A")], [],
      [("FIELDS", ⟨"l", "field_static", [("TEXT", .string "5%2 %")], [], [],
        some ⟨"e", "field_static", [], [], [],
          some ⟨"c", "field_checkbox", [], [], [],
            some ⟨"m", "field_static", [("TEXT", .string "1")], [], [], none⟩⟩⟩⟩)], none⟩)],
    none⟩

theorem message_matches_arguments_percentRoot :
    percentRoot.tag = rootTag
      ∧ ∃ s, (compile (some percentRoot)).definition = some s ∧ s.message = "5%%2 %% %1 1 %2"
        ∧ readMarks s.message = some [.char '5', .char '%', .char '2', .char ' ', .char '%', .char ' ', .reference 1,
          .char ' ', .char '1', .char ' ', .reference 2] := by
  refine ⟨rfl, ?_⟩
  obtain ⟨s, marks, hs, -, -, hread, -, hmarks, -, -⟩ := message_matches_arguments percentRoot rfl
  refine ⟨s, hs, ?_, ?_⟩
  · cases hs
    decide +kernel
  · rw [hread, hmarks]
    decide +kernel

end VisualProgram.Definition
