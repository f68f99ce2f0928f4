import VisualProgram.Proofs.Identifier.Names
import VisualProgram.Proofs.Literal.Spelling
import VisualProgram.Proofs.Python.Outline

/-!
# Simple statements of Python

`Item.statement?` reads a line of an outline as a statement: a comment, an assignment to a name, a
`return`, or an expression on its own.  The expressions are read by `lex` and `parse`, so nothing may be
left over.

An expression has neither an assignment sign nor the word `return` in it (`isPlain_of_derives`), so a line
can be read in one way only.
-/

namespace VisualProgram.Python

/-! ## reading -/

inductive Statement where
  | comment
  | assign (target : String) (value : Tree)
  | result (value : Tree)
  | expression (value : Tree)

/-- the tree of an expression that takes up all tokens -/
def whole? (ts : List Token) : Option Tree :=
  match parse .loosest ts with
  | some (t, []) => some t
  | _ => none

def Statement.ofTokens? : List Token → Option Statement
  | .name target :: .sign (.other ['=']) :: ts => (whole? ts).map (.assign target)
  | .key (.other "return") :: ts => (whole? ts).map .result
  | ts => (whole? ts).map .expression

def Item.statement? : Item → Option Statement
  | .comment _ => some .comment
  | .simple text => (lex (String.ofList text)).bind Statement.ofTokens?
  | .head _ _ => none

theorem whole?_of_derives {ts : List Token} {t : Tree} (h : Derives .loosest ts t) :
    whole? ts = some t := by
  have hparse := (parsed_of_derives h).whole [] (free_nil _)
  rw [List.append_nil] at hparse
  rw [whole?, hparse]

/-! ## the tokens of expressions -/

/-- a token with a place in an expression -/
def Token.isPlain : Token → Bool
  | .sign (.other _) | .key (.other _) => false
  | _ => true

theorem isPlain_commas {parts : List (List Token)} (h : ∀ ts ∈ parts, ∀ token ∈ ts, token.isPlain = true) :
    ∀ token ∈ commas parts, token.isPlain = true := by
  induction parts with
  | nil =>
    intro token ht
    cases ht
  | cons ts rest ih =>
    obtain ⟨hts, hrest⟩ := List.forall_mem_cons.mp h
    cases rest with
    | nil => exact hts
    | cons next more =>
      rw [commas_cons_cons]
      exact List.forall_mem_append.mpr ⟨hts, List.forall_mem_cons.mpr ⟨rfl, ih hrest⟩⟩

theorem isPlain_enclosed {first last : Token} (hfirst : first.isPlain = true)
    (hlast : last.isPlain = true) {ts : List Token} (h : ∀ token ∈ ts, token.isPlain = true) :
    ∀ token ∈ first :: (ts ++ [last]), token.isPlain = true :=
  List.forall_mem_cons.mpr
    ⟨hfirst, List.forall_mem_append.mpr ⟨h, List.forall_mem_singleton.mpr hlast⟩⟩

theorem isPlain_of_derives {p : Precedence} {ts : List Token} {t : Tree} (h : Derives p ts t) :
    ∀ token ∈ ts, token.isPlain = true := by
  induction h with
  | looser _ ih => exact ih
  | none | true | false | int | float | text | name => exact List.forall_mem_singleton.mpr rfl
  | paren _ ih => exact isPlain_enclosed rfl rfl ih
  | list items _ ih => exact isPlain_enclosed rfl rfl (isPlain_commas (List.forall_mem_map.mpr ih))
  | dict entries _ _ ihk ihv =>
    refine isPlain_enclosed rfl rfl (isPlain_commas (List.forall_mem_map.mpr fun x hx => ?_))
    exact List.forall_mem_append.mpr ⟨ihk x hx, List.forall_mem_cons.mpr ⟨rfl, ihv x hx⟩⟩
  | member name _ ih =>
    exact List.forall_mem_append.mpr
      ⟨ih, List.forall_mem_cons.mpr ⟨rfl, List.forall_mem_singleton.mpr rfl⟩⟩
  | call args _ _ ihf ih =>
    exact List.forall_mem_append.mpr
      ⟨ihf, isPlain_enclosed rfl rfl (isPlain_commas (List.forall_mem_map.mpr ih))⟩
  | index _ _ ih ihk => exact List.forall_mem_append.mpr ⟨ih, isPlain_enclosed rfl rfl ihk⟩
  | power _ _ ihb ihe =>
    exact List.forall_mem_append.mpr ⟨ihb, List.forall_mem_cons.mpr ⟨rfl, ihe⟩⟩
  | neg _ ih => exact List.forall_mem_cons.mpr ⟨rfl, ih⟩
  | binary op _ _ ihl ihr =>
    have hop : op.token.isPlain = true := by cases op <;> rfl
    exact List.forall_mem_append.mpr ⟨ihl, List.forall_mem_cons.mpr ⟨hop, ihr⟩⟩
  | compare links _ _ _ iht ih =>
    refine List.forall_mem_append.mpr ⟨iht, fun token htoken => ?_⟩
    obtain ⟨x, hx, hmem⟩ := List.mem_flatMap.mp htoken
    rcases List.mem_cons.mp hmem with rfl | hmem
    · cases x.1 <;> rfl
    · exact ih x hx token hmem
  | not _ ih => exact List.forall_mem_cons.mpr ⟨rfl, ih⟩
  | cond _ _ _ ihy ihc ihn =>
    exact List.forall_mem_append.mpr ⟨ihy, List.forall_mem_cons.mpr
      ⟨rfl, List.forall_mem_append.mpr ⟨ihc, List.forall_mem_cons.mpr ⟨rfl, ihn⟩⟩⟩⟩

theorem ofTokens?_expression {ts : List Token} {t : Tree} (h : Derives .loosest ts t) :
    Statement.ofTokens? ts = some (.expression t) := by
  have hplain := isPlain_of_derives h
  unfold Statement.ofTokens?
  split
  next target rest =>
    have hsign := hplain (.sign (.other ['='])) (by simp)
    cases hsign
  next rest =>
    have hword := hplain (.key (.other "return")) (by simp)
    cases hword
  next => rw [whole?_of_derives h, Option.map_some]

/-! ## statements by their texts -/

section
variable {cs : List Char} {t : Tree} (h : Spells .loosest cs t)
include h

theorem statement?_expression : Item.statement? (.simple cs) = some (.expression t) := by
  obtain ⟨ts, hreads, hd⟩ := h
  have hlex : lex (String.ofList cs) = some ts := lex_of_scans _ (by simpa using hreads.scans 0)
  rw [Item.statement?, hlex, Option.bind_some, ofTokens?_expression hd]

theorem statement?_assign {v : String} (hv : IsName v) :
    Item.statement? (.simple (v.toList ++ (spaced ['='] ++ cs))) = some (.assign v t) := by
  obtain ⟨ts, hreads, hd⟩ := h
  have hname : Reads v.toList [.name v] := ⟨fun d => hv.token ▸ scans_word hv.1 d, stops_word hv.1⟩
  have hsign : Apart ['='] (.sign (.other ['='])) := ⟨fun _ => rfl, fun _ => rfl⟩
  have hall := hname.between hreads hsign
  have hlex : lex (String.ofList (v.toList ++ (spaced ['='] ++ cs)))
      = some (.name v :: .sign (.other ['=']) :: ts) := lex_of_scans _ (by simpa using hall.scans 0)
  rw [Item.statement?, hlex, Option.bind_some, Statement.ofTokens?, whole?_of_derives hd,
    Option.map_some]

theorem statement?_result :
    Item.statement? (.simple ("return ".toList ++ cs)) = some (.result t) := by
  obtain ⟨ts, hreads, hd⟩ := h
  have hword : Apart "return".toList (.key (.other "return")) := ⟨fun _ => rfl, fun _ => rfl⟩
  have hall := (hword.scans 0).append (hreads.scans 0) fun _ _ => trivial
  have hlex : lex (String.ofList ("return ".toList ++ cs)) = some (.key (.other "return") :: ts) :=
    lex_of_scans _ (by simpa using hall)
  rw [Item.statement?, hlex, Option.bind_some, Statement.ofTokens?, whole?_of_derives hd,
    Option.map_some]

end

/-! ## calls with several arguments -/

/-- texts with a comma and a blank between each two -/
def separated : List (List Char) → List Char
  | [] => []
  | [cs] => cs
  | cs :: rest => cs ++ ',' :: ' ' :: separated rest

theorem scans_separated {args : List (List Char)} {parts : List (List Token)}
    (h : List.Forall₂ Reads args parts) (d : Nat) : Scans Ends d (separated args) (commas parts) d := by
  induction h with
  | nil => exact scans_nil _ _
  | @cons cs ts args parts hcs hmore ih =>
    cases hmore with
    | nil => exact hcs.scans d
    | cons hnext hrest =>
      have hblank : Scans (fun _ => True) d [' '] [] d := scans_blank rfl
      have htail := (scans_comma d).append (hblank.append ih fun _ _ => trivial) fun _ _ => trivial
      exact (hcs.scans d).append htail fun rest _ => ends_cons (by decide) _

theorem Spells.callAll {fs : List Char} {f : Tree} (hf : Opens fs f) {args : List (List Char)}
    {trees : List Tree} (h : List.Forall₂ (Spells .loosest) args trees) :
    Spells .call (fs ++ (separated args ++ [')'])) (.call f trees) := by
  obtain ⟨fts, hscan, hbegin, hne, hfd⟩ := hf
  -- the tokens of each argument
  have hargs : ∃ parts : List (List Token × Tree), List.Forall₂ Reads args (parts.map Prod.fst)
      ∧ (∀ x ∈ parts, Derives .loosest x.1 x.2) ∧ parts.map Prod.snd = trees := by
    induction h with
    | nil => exact ⟨[], .nil, List.forall_mem_nil _, rfl⟩
    | @cons cs t args trees hcs _ ih =>
      obtain ⟨ts, hreads, hd⟩ := hcs
      obtain ⟨parts, hparts, hds, htrees⟩ := ih
      exact ⟨(ts, t) :: parts, .cons hreads hparts, List.forall_mem_cons.mpr ⟨hd, hds⟩,
        congrArg (t :: ·) htrees⟩
  obtain ⟨parts, hparts, hds, rfl⟩ := hargs
  refine ⟨(fts ++ [.sign .leftParen]) ++ (commas (parts.map Prod.fst) ++ [.sign .rightParen]),
    ⟨fun d => ?_, ?_⟩, ?_⟩
  · have hinner := (scans_separated hparts (d + 1)).append (scans_rightParen d)
      fun rest _ => ends_cons (by decide) rest
    exact ((hscan d).append hinner fun _ _ => trivial).imp fun _ _ => trivial
  · obtain ⟨c, tail, rfl⟩ := List.exists_cons_of_ne_nil hne
    exact hbegin
  · have hcall := Derives.call parts hfd hds
    simpa using hcall

end VisualProgram.Python
