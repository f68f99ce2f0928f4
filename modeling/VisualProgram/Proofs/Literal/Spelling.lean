import VisualProgram.Proofs.Decimal.Spelling
import VisualProgram.Proofs.Python.Spelling

/-!
# Literals are texts of expressions

`Tree.ofJson` is the syntax tree of the literal of a value: a display for a container, a sign in
front of a number below zero.  `spells_render` says that the text of the literal is a text of this
tree, at every level of indentation by spaces and tabs.
-/

namespace VisualProgram.Python

/-! ## trees of values -/

/-- the digits of a float; a minus sign at the front belongs to the expression, not to the number (`ofFloat_eq`),
and the value of both is the float again if its digits read back (`value?_ofFloat`) -/
def Tree.ofFloat (x : Float) : Tree :=
  match (Literal.float x).toList with
  | '-' :: spelling => .neg (.float (String.ofList spelling))
  | spelling => .float (String.ofList spelling)

def Tree.ofInt (n : Int) : Tree := if n < 0 then .neg (.int n.natAbs) else .int n.natAbs

def Tree.ofNumber : Number → Tree
  | .whole n _ => .ofInt n
  | .float x _ => .ofFloat x

mutual
def Tree.ofJson : Json → Tree
  | .null => .none
  | .bool b => .truth b
  | .number n => .ofNumber n
  | .string s => .text s
  | .array items => .list (Tree.ofItems items)
  | .object members => .dict (Tree.ofMembers members)

def Tree.ofItems : List Json → List Tree
  | [] => []
  | v :: rest => Tree.ofJson v :: Tree.ofItems rest

def Tree.ofMembers : List (String × Json) → List (Tree × Tree)
  | [] => []
  | (k, v) :: rest => (.text k, Tree.ofJson v) :: Tree.ofMembers rest
end

/-! ## leaves -/

theorem spells_of_scans {cs : List Char} {token : Token} {t : Tree}
    (h : ∀ d, Scans Ends d cs [token] d) (hb : Stops joinsMinus cs) (hd : Derives .atomic [token] t) :
    Spells .atomic cs t := ⟨[token], ⟨h, hb⟩, hd⟩

theorem spells_none : Spells .atomic Literal.absent.toList .none :=
  spells_of_scans (scans_word (by decide)) (stops_cons rfl _) .none

theorem spells_truth (b : Bool) : Spells .atomic (Literal.truth b).toList (.truth b) := by
  cases b with
  | false => exact spells_of_scans (scans_word (by decide)) (stops_cons rfl _) .false
  | true => exact spells_of_scans (scans_word (by decide)) (stops_cons rfl _) .true

/-- the two digits behind `\x` -/
theorem hexText_two : ∀ n < 128, Json.hexText 2 n = [Nat.digitChar (n / 16), Nat.digitChar (n % 16)]
    ∧ Json.hexDigit? (Nat.digitChar (n / 16)) = some (n / 16)
    ∧ Json.hexDigit? (Nat.digitChar (n % 16)) = some (n % 16) := by decide

theorem quoted?_quoteChar (c : Char) (cs : List Char) :
    quoted? (Literal.quoteChar c ++ cs) = prepend c (quoted? cs) := by
  by_cases hback : c = '\\'
  · subst hback
    simp [Literal.quoteChar, quoted?, escape?]
  by_cases hquote : c = '"'
  · subst hquote
    simp [Literal.quoteChar, quoted?, escape?]
  by_cases hn : c = '\n'
  · subst hn
    simp [Literal.quoteChar, quoted?, escape?]
  by_cases hr : c = '\r'
  · subst hr
    simp [Literal.quoteChar, quoted?, escape?]
  by_cases ht : c = '\t'
  · subst ht
    simp [Literal.quoteChar, quoted?, escape?]
  by_cases hhex : c.toNat < 0x20 ∨ c.toNat = 0x7f
  · obtain ⟨htext, hhigh, hlow⟩ := hexText_two c.toNat (by omega)
    have hself : Char.ofNat (16 * (c.toNat / 16) + c.toNat % 16) = c := by
      rw [Nat.div_add_mod, Char.ofNat_toNat]
    simp [Literal.quoteChar, hback, hquote, hn, hr, ht, hhex, htext, quoted?, hhigh, hlow, hself]
  · have hnul : c ≠ '\x00' := by
      rintro rfl
      exact hhex (Or.inl (by decide))
    simp [Literal.quoteChar, hback, hquote, hn, hr, ht, hhex, quoted?, hnul]

theorem quoted?_quote (s rest : List Char) :
    quoted? (s.flatMap Literal.quoteChar ++ '"' :: rest) = some (s, rest) := by
  induction s with
  | nil => rfl
  | cons c s ih => rw [List.flatMap_cons, List.append_assoc, quoted?_quoteChar, ih]; rfl

theorem text?_quote {s rest : List Char} (h : Ends rest) :
    text? (s.flatMap Literal.quoteChar ++ '"' :: rest) = some (.text (String.ofList s), rest) := by
  unfold text?
  rw [quoted?_quote]
  split
  next h' => cases h'
  next tail h' =>
    cases h'
    exact absurd (h _ rfl) (by decide)
  next h' => cases h'; rfl

theorem scans_quote (s : String) (d : Nat) : Scans Ends d (Literal.quote s).toList [.text s] d := by
  refine scans_token (fun rest hrest => ?_) rfl
  have h := text?_quote (s := s.toList) hrest
  rw [String.ofList_toList] at h
  rw [← h]
  simp [Literal.quote, next?, isWordStart]

theorem spells_text (s : String) : Spells .atomic (Literal.quote s).toList (.text s) := by
  refine spells_of_scans (scans_quote s) ?_ (.text s)
  simpa [Literal.quote] using stops_cons (p := joinsMinus) (c := '"') rfl _

/-! ## numbers -/

theorem AllDigits.stops {cs : List Char} (h : AllDigits cs) (p : Char → Bool)
    (hp : ∀ c, c.isDigit = true → p c = false) : Stops p cs := by
  intro c hc
  exact hp c (h c (List.mem_of_mem_head? hc))

theorem joinsMinus_digit (c : Char) (h : c.isDigit = true) : joinsMinus c = false := by
  have hne : c ≠ '=' ∧ c ≠ '>' := by
    constructor
    · rintro rfl
      revert h
      decide
    · rintro rfl
      revert h
      decide
  simp [joinsMinus, hne]

/-- the level of a numeral: it has a sign or stands for itself -/
def numeralLevel (cs : List Char) : Precedence := if cs.head? = some '-' then .sign else .atomic

theorem spells_signed {cs : List Char} {t : Tree} (h : Spells .atomic cs t) :
    Spells (numeralLevel ('-' :: cs)) ('-' :: cs) (.neg t) := (h.mono (by decide)).neg

theorem spells_unsigned {c : Char} {cs : List Char} {t : Tree} (hc : c.isDigit = true)
    (h : Spells .atomic (c :: cs) t) : Spells (numeralLevel (c :: cs)) (c :: cs) t := by
  have hne : c ≠ '-' := by
    rintro rfl
    revert hc
    decide
  have hlevel : numeralLevel (c :: cs) = .atomic := if_neg (by simpa using hne)
  rw [hlevel]
  exact h

theorem spells_nat (n : Nat) : Spells .atomic (Nat.toDigits 10 n) (.int n) :=
  spells_of_scans (scans_int n) ((Decimal.allDigits_toDigits n).stops _ joinsMinus_digit) (.int n)

theorem toList_int (n : Int) :
    (toString n).toList = if n < 0 then '-' :: Nat.toDigits 10 n.natAbs
      else Nat.toDigits 10 n.natAbs := by
  rw [Int.toString_eq_repr, Int.repr_eq_if]
  by_cases hn : n < 0
  · have habs : (-n).toNat = n.natAbs := by omega
    rw [if_neg (by omega), if_pos hn, String.toList_append, Nat.toList_repr, habs]
    rfl
  · have habs : n.toNat = n.natAbs := by omega
    rw [if_pos (by omega), if_neg hn, Nat.toList_repr, habs]

theorem spells_int (n : Int) :
    Spells (numeralLevel (toString n).toList) (toString n).toList (.ofInt n) := by
  rw [toList_int, Tree.ofInt]
  split
  · exact spells_signed (spells_nat _)
  · have hn := spells_nat n.natAbs
    cases hd : Nat.toDigits 10 n.natAbs with
    | nil => exact absurd hd Nat.toDigits_ne_nil
    | cons c cs =>
      rw [hd] at hn
      exact spells_unsigned (Decimal.allDigits_toDigits n.natAbs c (by simp [hd])) hn

theorem IsFloat.head {cs : List Char} (h : IsFloat cs) :
    ∃ c tail, cs = c :: tail ∧ c.isDigit = true := by
  obtain ⟨whole, frac, expo, hne, hw, -⟩ := h
  obtain ⟨c, tail, rfl⟩ := List.exists_cons_of_ne_nil hne
  exact ⟨c, _, rfl, hw c List.mem_cons_self⟩

theorem IsFloat.spells {cs : List Char} (h : IsFloat cs) :
    Spells .atomic cs (.float (String.ofList cs)) := by
  refine spells_of_scans (scans_float h) ?_ (.float _)
  obtain ⟨c, tail, rfl, hc⟩ := h.head
  exact stops_cons (joinsMinus_digit c hc) _

/-- a float is a spelling of a float, with a minus sign exactly if its sign bit is set -/
theorem Tree.ofFloat_eq {x : Float} (h : x.isFinite = true) :
    ∃ s, IsFloat s
      ∧ (Literal.float x).toList = (if Decimal.signBit x.toBits then '-' :: s else s)
      ∧ Tree.ofFloat x = if Decimal.signBit x.toBits then .neg (.float (String.ofList s))
          else .float (String.ofList s) := by
  obtain ⟨s, hs, htext⟩ := Decimal.float_spelling h
  refine ⟨s, hs, htext, ?_⟩
  rw [Tree.ofFloat, htext]
  by_cases hsign : Decimal.signBit x.toBits = true
  · rw [if_pos hsign, if_pos hsign]
    rfl
  · rw [if_neg hsign, if_neg hsign]
    obtain ⟨c, tail, rfl, hc⟩ := hs.head
    split
    next heq =>
      cases heq
      exact absurd hc (by decide)
    next => rfl

theorem spells_float {x : Float} (h : x.isFinite = true) :
    Spells (numeralLevel (Literal.float x).toList) (Literal.float x).toList (.ofFloat x) := by
  obtain ⟨s, hs, htext, htree⟩ := Tree.ofFloat_eq h
  rw [htext, htree]
  split
  next => exact spells_signed hs.spells
  next =>
    obtain ⟨c, tail, rfl, hc⟩ := hs.head
    exact spells_unsigned hc hs.spells

theorem spells_number (n : Number) :
    Spells (numeralLevel (Literal.number n).toList) (Literal.number n).toList (.ofNumber n) := by
  cases n with
  | whole n fits => exact spells_int n
  | float x finite => exact spells_float finite

theorem rank_numeralLevel (cs : List Char) : (numeralLevel cs).rank ≤ Precedence.sign.rank := by
  unfold numeralLevel
  split <;> decide

/-! ## containers -/

/-- a unit of indentation is made of blanks -/
def IsIndent (unit : String) : Prop := ∀ c ∈ unit.toList, c = ' ' ∨ c = '\t'

instance : DecidablePred IsIndent :=
  fun unit => List.decidableBAll (fun c : Char => c = ' ' ∨ c = '\t') unit.toList

theorem IsIndent.pad {unit : String} (h : IsIndent unit) (level : Nat) :
    IsIndent (Text.pad unit level) := by
  intro c hc
  rw [Text.pad, String.toList_join] at hc
  obtain ⟨part, hp, hcp⟩ := List.mem_flatMap.mp hc
  rw [List.eq_of_mem_replicate hp] at hcp
  exact h c hcp

theorem scans_nil (P : List Char → Prop) (d : Nat) : Scans P d [] [] d := by
  intro rest _
  simp

theorem IsIndent.scans {unit : String} (h : IsIndent unit) (d : Nat) :
    Scans (fun _ => True) d unit.toList [] d := by
  unfold IsIndent at h
  generalize unit.toList = cs at h
  induction cs with
  | nil => exact scans_nil _ d
  | cons c cs ih =>
    have hblank : isBlank d c = true := by
      rcases h c List.mem_cons_self with rfl | rfl <;> rfl
    exact (scans_blank hblank).append (ih fun x hx => h x (List.mem_cons_of_mem _ hx))
      fun _ _ => trivial

/-- a line of a container and its tokens -/
def Element (line : String) (ts : List Token) : Prop := ∀ d, Scans Ends d line.toList ts d

theorem scans_newline (d : Nat) : Scans (fun _ => True) (d + 1) ['\n'] [] (d + 1) :=
  scans_blank (by simp [isBlank])

theorem scans_comma (d : Nat) : Scans (fun _ => True) d [','] [.sign .comma] d :=
  scans_token (fun _ _ => rfl) rfl

theorem scans_elements {lines : List String} {tss : List (List Token)}
    (h : List.Forall₂ Element lines tss) (d : Nat) :
    Scans Ends (d + 1) (String.intercalate ",\n" lines).toList (commas tss) (d + 1) := by
  induction h with
  | nil => exact scans_nil _ _
  | @cons line ts lines tss hline hmore ih =>
    cases hmore with
    | nil =>
      rw [String.intercalate_singleton]
      exact hline (d + 1)
    | cons hnext hmore =>
      rw [String.intercalate_cons_cons, String.toList_append, String.toList_append, commas_cons_cons]
      have hbreak := (scans_comma (d + 1)).append (scans_newline d) fun _ _ => trivial
      rw [List.append_assoc]
      exact (hline (d + 1)).append (hbreak.append ih fun _ _ => trivial)
        fun rest _ => ends_cons (by decide) _

theorem scans_enclose {unit opening closing : String} {level : Nat} {first last : Token}
    {lines : List String} {tss : List (List Token)} (hu : IsIndent unit)
    (ho : ∀ d, Scans (fun _ => True) d opening.toList [first] (d + 1))
    (hc : ∀ d, Scans (fun _ => True) (d + 1) closing.toList [last] d)
    (h : List.Forall₂ Element lines tss) (d : Nat) :
    Scans (fun _ => True) d (Json.enclose unit level opening closing lines).toList
      (first :: (commas tss ++ [last])) d := by
  have hall := scans_elements h d
  unfold Json.enclose
  split
  next =>
    cases h
    rw [String.toList_append]
    exact (ho d).append (hc d) fun _ _ => trivial
  next =>
    have hend := (scans_newline d).append (((hu.pad level).scans (d + 1)).append (hc d)
      fun _ _ => trivial) fun _ _ => trivial
    have hbody := (scans_newline d).append (hall.append hend
      fun rest _ => ends_cons (by decide) _) fun _ _ => trivial
    have hwhole := (ho d).append hbody fun _ _ => trivial
    simpa using hwhole

theorem Spells.element {line : String} {p : Precedence} {t : Tree} (h : Spells p line.toList t) :
    ∃ ts, Element line ts ∧ Derives p ts t := by
  obtain ⟨ts, hr, hd⟩ := h
  exact ⟨ts, hr.scans, hd⟩

/-- blanks in front of a line leave its tokens -/
theorem Element.indented {unit line : String} {ts : List Token} (hu : IsIndent unit)
    (h : Element line ts) : Element (unit ++ line) ts := by
  intro d
  rw [String.toList_append]
  exact (hu.scans d).append (h d) fun _ _ => trivial

/-- a key, a colon and a value -/
theorem Element.entry {line : String} {ts : List Token} (key : String) (h : Element line ts) :
    Element (Literal.quote key ++ ": " ++ line) (entryTokens [.text key] ts) := by
  intro d
  have hcolon : Apart [':'] (.sign .colon) := ⟨fun _ => rfl, fun _ => rfl⟩
  have hvalue := (hcolon.scans d).append (h d) fun _ _ => trivial
  have hentry := (scans_quote key d).append hvalue fun rest _ => ends_cons (by decide) _
  simpa [entryTokens] using hentry

theorem spells_enclose {unit : String} (opening closing : String) (level : Nat) {first last : Token}
    {lines : List String} {tss : List (List Token)} {t : Tree} (hu : IsIndent unit)
    (ho : ∀ d, Scans (fun _ => True) d opening.toList [first] (d + 1))
    (hc : ∀ d, Scans (fun _ => True) (d + 1) closing.toList [last] d)
    (hbegin : ∀ rest, Stops joinsMinus (opening.toList ++ rest))
    (h : List.Forall₂ Element lines tss)
    (hd : Derives .atomic (first :: (commas tss ++ [last])) t) :
    Spells .atomic (Json.enclose unit level opening closing lines).toList t := by
  refine ⟨_, ⟨fun d => (scans_enclose hu ho hc h d).imp fun _ _ => trivial, ?_⟩, hd⟩
  unfold Json.enclose
  split
  · rw [String.toList_append]
    exact hbegin _
  · simp only [String.toList_append, List.append_assoc]
    exact hbegin _

/-! ## values -/

section
variable {unit : String} (hu : IsIndent unit)
include hu

mutual
theorem spells_render (level : Nat) :
    (v : Json) → Spells .sign (Literal.render unit level v).toList (.ofJson v)
  | .null => spells_none.mono (by decide)
  | .bool b => (spells_truth b).mono (by decide)
  | .number n => (spells_number n).mono (rank_numeralLevel _)
  | .string s => (spells_text s).mono (by decide)
  | .array items => by
    obtain ⟨parts, hlines, hd, htrees⟩ := exists_items (level + 1) items
    have h := spells_enclose "[" "]" level hu
      (fun d => scans_token (fun _ _ => rfl) rfl) (fun d => scans_token (fun _ _ => rfl) rfl)
      (fun _ => stops_cons rfl _) hlines (Derives.list parts hd)
    rw [htrees] at h
    exact h.mono (by decide)
  | .object members => by
    obtain ⟨parts, hlines, hk, hv, htrees⟩ := exists_members (level + 1) members
    have h := spells_enclose "\x7b" "\x7d" level hu
      (fun d => scans_token (fun _ _ => rfl) rfl) (fun d => scans_token (fun _ _ => rfl) rfl)
      (fun _ => stops_cons rfl _) hlines (Derives.dict parts hk hv)
    rw [htrees] at h
    exact h.mono (by decide)

theorem exists_items (level : Nat) : (items : List Json) →
    ∃ parts : List (List Token × Tree),
      List.Forall₂ Element (Json.spreadItems Literal.dialect unit level items) (parts.map Prod.fst)
      ∧ (∀ x ∈ parts, Derives .loosest x.1 x.2) ∧ parts.map Prod.snd = Tree.ofItems items
  | [] => ⟨[], .nil, by simp, rfl⟩
  | v :: rest => by
    obtain ⟨ts, hline, hd⟩ := (spells_render level v).element
    obtain ⟨parts, hlines, hds, htrees⟩ := exists_items level rest
    refine ⟨(ts, Tree.ofJson v) :: parts, .cons (hline.indented (hu.pad level)) hlines, ?_, ?_⟩
    · exact List.forall_mem_cons.mpr ⟨hd.mono (by decide), hds⟩
    · rw [List.map_cons, htrees, Tree.ofItems]

theorem exists_members (level : Nat) : (members : List (String × Json)) →
    ∃ parts : List ((List Token × List Token) × (Tree × Tree)),
      List.Forall₂ Element (Json.spreadMembers Literal.dialect unit level members)
        (parts.map fun x => entryTokens x.1.1 x.1.2)
      ∧ (∀ x ∈ parts, Derives .loosest x.1.1 x.2.1) ∧ (∀ x ∈ parts, Derives .loosest x.1.2 x.2.2)
      ∧ parts.map Prod.snd = Tree.ofMembers members
  | [] => ⟨[], .nil, by simp, by simp, rfl⟩
  | (k, v) :: rest => by
    obtain ⟨ts, hline, hd⟩ := (spells_render level v).element
    obtain ⟨parts, hlines, hks, hvs, htrees⟩ := exists_members level rest
    refine ⟨(([.text k], ts), (.text k, Tree.ofJson v)) :: parts, .cons ?_ hlines, ?_, ?_, ?_⟩
    · have hentry := (hline.entry k).indented (hu.pad level)
      rw [← String.append_assoc, ← String.append_assoc] at hentry
      exact hentry
    · exact List.forall_mem_cons.mpr ⟨(Derives.text k).mono (by decide), hks⟩
    · exact List.forall_mem_cons.mpr ⟨hd.mono (by decide), hvs⟩
    · rw [List.map_cons, htrees, Tree.ofMembers]
end

end

end VisualProgram.Python
