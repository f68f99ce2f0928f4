import VisualProgram.Script
import VisualProgram.Proofs.Script.Layout
import Mathlib.Data.List.Forall2

/-!
# The suites of the statement rules

A statement block makes a comment, a line, or heads with a suite each.  `Site.heads?` says which heads a
block has and from which statement socket the suite of each is made; `Site.Owns` ties items to the block
by it, given what is in the sockets.

`statementOf_leaves` is the result of this file: whatever is in the fields of a block, the code of its
rule is the layout of items that the block owns.  A body is indented as text, line by line, so this rests
on `indentLines_write`, which takes the layout of items to their layout one level deeper.
-/

namespace VisualProgram
open Python

/-! ## layouts -/

/-- the text is the layout of items that can be read from it -/
structure LaidOut (n : Nat) (items : List Item) (text : String) : Prop where
  text : text.toList = write n 0 items
  proper : ∀ item ∈ items, item.Proper Text.Solid

section
variable {n : Nat}

theorem LaidOut.nil : LaidOut n [] "" := ⟨rfl, List.forall_mem_nil _⟩

theorem LaidOut.append {a b : List Item} {s t : String} (ha : LaidOut n a s) (hb : LaidOut n b t) :
    LaidOut n (a ++ b) (s ++ t) := by
  refine ⟨?_, List.forall_mem_append.mpr ⟨ha.proper, hb.proper⟩⟩
  simp [ha.text, hb.text]

theorem laidOut_comment {text : String} (h : IsLine .comment text.toList)
    (hs : Text.Solid text.toList) :
    LaidOut n [.comment text.toList] (text ++ "\n") := by
  refine ⟨?_, List.forall_mem_singleton.mpr (.comment h hs)⟩
  rw [String.toList_append, write_singleton, Item.entries, List.flatMap_singleton, Entry.write_zero]
  rfl

theorem laidOut_line {text : String} (h : Snippet text.toList) :
    LaidOut n [.simple text.toList] (text ++ "\n") := by
  refine ⟨?_, List.forall_mem_singleton.mpr (.simple h.isLine h.solid)⟩
  rw [String.toList_append, write_singleton, Item.entries, List.flatMap_singleton, Entry.write_zero]
  rfl

/-- the layout of a suite under its head -/
structure LaidUnder (n : Nat) (suite : List Item) (text : String) : Prop where
  text : text.toList = write n 1 suite
  proper : ∀ item ∈ suite, item.Proper Text.Solid
  code : suite.any Item.isCode = true

theorem laidOut_head {text body : String} {suite : List Item} (h : IsLine .head text.toList)
    (hs : Text.Solid text.toList) (hbody : LaidUnder n suite body) :
    LaidOut n [.head text.toList suite] (text ++ "\n" ++ body) := by
  refine ⟨?_, List.forall_mem_singleton.mpr (.head h hs hbody.code hbody.proper)⟩
  rw [String.toList_append, String.toList_append, hbody.text, write_singleton, Item.entries,
    List.flatMap_cons, Entry.write_zero]
  rfl

/-- a layout has the newline at its end -/
theorem LaidOut.terminated {items : List Item} {text : String} (h : LaidOut n items text) :
    Text.terminated text = text := by
  unfold Text.terminated
  split
  next hempty => exact hempty.symm
  next hne =>
    refine if_pos ?_
    rw [h.text, write]
    rcases (entriesOf 0 items).eq_nil_or_concat with hnil | ⟨init, last, heq⟩
    · have htext := h.text
      rw [write, hnil, List.flatMap_nil, String.toList_eq_nil_iff] at htext
      exact absurd htext hne
    · rw [heq, List.concat_eq_append, List.flatMap_append, List.flatMap_singleton, Entry.write,
        ← List.append_assoc, List.getLast?_concat]

theorem terminated_snippet {text : String} (h : Snippet text.toList) :
    Text.terminated text = text ++ "\n" := by
  have hne : text ≠ "" := by
    rintro rfl
    exact h.ne_nil rfl
  rw [Text.terminated, if_neg hne, if_neg h.solid.getLast?_ne]

/-! ## bodies -/

/-- a suite that would do nothing says so -/
def closeSuite (items : List Item) : List Item :=
  if items.any Item.isCode then items else items ++ [.simple "pass".toList]

variable {unit : String} (hu : unit.toList = List.replicate n ' ')
include hu

theorem LaidOut.indent {items : List Item} {code : String} (h : LaidOut n items code)
    (hcode : items.any Item.isCode = true) : LaidUnder n items (Text.indentLines unit code) := by
  refine ⟨?_, h.proper, hcode⟩
  have htext : code = String.ofList (write n 0 items) := by rw [← h.text, String.ofList_toList]
  rw [htext]
  exact indentLines_write hu h.proper 0

theorem LaidOut.asBody {items : List Item} {code : String} (h : LaidOut n items code) :
    LaidUnder n (closeSuite items) (Site.asBody unit code) := by
  have hany : (Text.lines code).any Text.isExecutable = items.any Item.isCode := by
    have htext : code = String.ofList (write n 0 items) := by rw [← h.text, String.ofList_toList]
    rw [htext]
    exact any_executable_write n h.proper
  have hpass : LaidOut n [.simple "pass".toList] "pass\n" :=
    laidOut_line (Shape.snippet (s := [some "pass".toList]) (by decide) (.cons rfl .nil))
  rw [Site.asBody, hany, closeSuite]
  split
  next hcode => exact h.indent hu hcode
  next => exact (h.append hpass).indent hu (by simp [Item.isCode])

end

/-! ## what a block owns -/

namespace Site

/-- the statements in the sockets are laid out; `suite` tells which items belong to a socket -/
structure Ready (n : Nat) (suite : String → List Item → Prop) (site : Site) : Prop where
  fine : site.Fine
  filled : ∀ socket child, Assoc.get? socket site.statements = some child →
    Leaves child.chain fun code => ∃ items, LaidOut n items code ∧ suite socket items
  empty : ∀ socket, Assoc.get? socket site.statements = none → suite socket []

/-- a head of a suite: its keyword, and the statement socket that the suite is made from -/
abbrev Head := String × String

/-- the item is a head with the keyword, over the items that belong to the socket -/
def HeadOf (suite : String → List Item → Prop) (head : Head) (item : Item) : Prop :=
  ∃ text body, item = .head text (closeSuite body) ∧ firstWord text = head.1 ∧ suite head.2 body

def branchHead (index : Nat) : Head := (if index = 0 then "if" else "elif", slot "DO" index)

/-- the branches of a conditional: those that are connected or declared, as far as slots go -/
def branchCount (site : Site) : Nat :=
  let indices := (slotIndices "IF" site.inputs ++ slotIndices "DO" site.statements).eraseDups
  let last := max ((indices.max?).getD 0) (site.declaredCount "ELSEIF")
  min (min (last + 1) countLimit) (indices.length + spareSlots)

/-- a conditional may end in a branch without a condition, also if nothing is connected there -/
def elseHeads (site : Site) : List Head :=
  if Assoc.contains "ELSE" site.statements ∨ Field.flag? "HAS_ELSE" site.fields = some true then
    [("else", "ELSE")]
  else []

/-- the heads of a block that has any -/
def heads? (site : Site) : Option (List Head) :=
  if site.tag = "controls_if" then
    some ((List.range site.branchCount).map branchHead ++ site.elseHeads)
  else if site.tag = "controls_whileUntil" then some [("while", "DO")]
  else if site.tag = "controls_repeat_ext" then some [("for", "DO")]
  else none

/-- the items are those of the block itself, the rest of its chain aside -/
def Owns (suite : String → List Item → Prop) (site : Site) (items : List Item) : Prop :=
  match site.heads? with
  | some heads => List.Forall₂ (HeadOf suite) heads items
  | none =>
    ∃ text, items = [if Assoc.contains site.tag Rule.Standard.table then .simple text else .comment text]

/-! ## heads -/

variable {site : Site} {n : Nat} {suite : String → List Item → Prop}

/-- a body stands under a line that is a head -/
theorem laidOut_headOf {text code word socket : String}
    (hline : IsLine .head text.toList ∧ Text.Solid text.toList ∧ firstWord text.toList = word)
    (hbody : ∃ body, LaidUnder n (closeSuite body) code ∧ suite socket body) :
    ∃ item, LaidOut n [item] (text ++ "\n" ++ code) ∧ HeadOf suite (word, socket) item := by
  obtain ⟨body, hlaid, hsuite⟩ := hbody
  obtain ⟨hhead, hsolid, hword⟩ := hline
  exact ⟨_, laidOut_head hhead hsolid hlaid, text.toList, body, rfl, hword, hsuite⟩

theorem head_condition {opening word condition : String} (hw : word ∈ headWords)
    (hs : Shape.isHead word [some opening.toList, none, some [':']] = true)
    (hc : Snippet condition.toList) :
    IsLine .head (opening ++ condition ++ ":").toList
      ∧ Text.Solid (opening ++ condition ++ ":").toList
      ∧ firstWord (opening ++ condition ++ ":").toList = word := by
  have h := Shape.head hs hw (.cons rfl (.cons hc (.cons rfl .nil)))
  simpa using h

variable {unit : String} (hu : unit.toList = List.replicate n ' ') (h : site.Ready n suite)
include hu h

theorem body_leaves (socket : String) :
    Leaves (site.body unit socket) fun code =>
      ∃ body, LaidUnder n (closeSuite body) code ∧ suite socket body := by
  unfold Site.body
  split
  next child hc =>
    refine (h.filled socket child hc).bind fun code hcode => .pure ?_
    obtain ⟨items, hlaid, hsuite⟩ := hcode
    exact ⟨items, hlaid.asBody hu, hsuite⟩
  next hc => exact .pure ⟨[], LaidOut.nil.asBody hu, h.empty socket hc⟩

/-! ## conditionals and loops -/

theorem branch_leaves (index : Nat) :
    Leaves (site.branch unit index) fun code =>
      ∃ item, LaidOut n [item] code ∧ HeadOf suite (branchHead index) item := by
  refine (operand_leaves h.fine hu (slot "IF" index) .loosest never).bind fun condition hc => ?_
  refine (body_leaves hu h (slot "DO" index)).bind fun body hbody => .pure ?_
  have hcolon : ":\n" = ":" ++ "\n" := rfl
  rw [hcolon, ← String.append_assoc, branchHead]
  split
  next => exact laidOut_headOf (head_condition (by decide) (by decide) hc) hbody
  next => exact laidOut_headOf (head_condition (by decide) (by decide) hc) hbody

theorem branchList_leaves (indices : List Nat) :
    Leaves (site.branchList unit indices) fun code =>
      ∃ items, LaidOut n items code ∧ List.Forall₂ (HeadOf suite) (indices.map branchHead) items := by
  induction indices with
  | nil => exact .pure ⟨[], .nil, .nil⟩
  | cons index rest ih =>
    refine (branch_leaves hu h index).bind fun code hcode => ih.bind fun more hmore => .pure ?_
    obtain ⟨item, hlaid, hhead⟩ := hcode
    obtain ⟨items, hlaid', hheads⟩ := hmore
    exact ⟨item :: items, hlaid.append hlaid', .cons hhead hheads⟩

theorem otherwise_leaves :
    Leaves (site.otherwise unit) fun code =>
      ∃ items, LaidOut n items code ∧ List.Forall₂ (HeadOf suite) site.elseHeads items := by
  unfold Site.otherwise Site.elseHeads
  split
  next =>
    refine (body_leaves hu h "ELSE").bind fun body hbody => .pure ?_
    have hline : IsLine .head "else:".toList ∧ Text.Solid "else:".toList
        ∧ firstWord "else:".toList = "else" :=
      Shape.head (s := [some "else:".toList]) (by decide) (by decide) (.cons rfl .nil)
    obtain ⟨item, hlaid, hhead⟩ := laidOut_headOf hline hbody
    exact ⟨[item], hlaid, .cons hhead .nil⟩
  next => exact .pure ⟨[], .nil, .nil⟩

theorem branches_leaves :
    Leaves (site.branches unit) fun code => ∃ items, LaidOut n items code
      ∧ List.Forall₂ (HeadOf suite) ((List.range site.branchCount).map branchHead ++ site.elseHeads)
          items := by
  refine (clampSlots_leaves site _ _ _).bind fun count hcount => ?_
  refine (branchList_leaves hu h (List.range count)).bind fun code hcode => ?_
  refine (otherwise_leaves hu h).bind fun rest hrest => .pure ?_
  obtain ⟨items, hlaid, hheads⟩ := hcode
  obtain ⟨items', hlaid', hheads'⟩ := hrest
  have hbranches : site.branchCount = count := hcount.symm
  rw [hbranches]
  exact ⟨items ++ items', hlaid.append hlaid', List.rel_append hheads hheads'⟩

/-- the head of a loop, then its body -/
theorem while_leaves (opening : String) (required : Precedence)
    (hs : Shape.isHead "while" [some opening.toList, none, some [':']] = true) :
    Leaves (do
        let condition ← site.operand unit "BOOL" required never
        let header ← pure (opening ++ condition ++ ":\n")
        let body ← site.body unit "DO"
        pure (header ++ body)) fun code =>
      ∃ items, LaidOut n items code ∧ List.Forall₂ (HeadOf suite) [("while", "DO")] items := by
  refine (operand_leaves h.fine hu "BOOL" required never).bind fun condition hc => ?_
  refine (body_leaves hu h "DO").bind fun body hbody => .pure ?_
  have hcolon : ":\n" = ":" ++ "\n" := rfl
  obtain ⟨item, hlaid, hhead⟩ := laidOut_headOf (head_condition (by decide) hs hc) hbody
  rw [hcolon, ← String.append_assoc]
  exact ⟨[item], hlaid, .cons hhead .nil⟩

theorem loop_leaves :
    Leaves (site.loop unit) fun code =>
      ∃ items, LaidOut n items code ∧ List.Forall₂ (HeadOf suite) [("while", "DO")] items := by
  have hwhile := while_leaves hu h "while " .loosest (by decide)
  simp only [Site.loop]
  split
  next => exact while_leaves hu h "while not " .negation (by decide)
  next =>
    split
    next =>
      split
      next => exact (Leaves.report site _ _).bind fun _ _ => hwhile
      next => exact hwhile
    next => exact hwhile

/-! ## templates -/

theorem line_leaves {form : Template} (hform : form.isLaid = true) :
    Leaves (site.renderLines unit [.code form]) fun code => ∃ text, LaidOut n [.simple text] code := by
  refine (render_leaves hu h.fine isSnippet_of_none hform).bind fun e he => .pure ?_
  exact ⟨e.text.toList, (laidOut_line he).append .nil⟩

theorem suite_leaves {form : Template} {word : String} (socket : String) (hw : word ∈ headWords)
    (hpieces : ∀ piece ∈ form.pieces, piece.isLaid = true) (hs : form.shape.isHead word = true) :
    Leaves (site.renderLines unit [.code form, .body socket]) fun code =>
      ∃ items, LaidOut n items code ∧ List.Forall₂ (HeadOf suite) [(word, socket)] items := by
  have hbodies : Leaves (site.renderLines unit [.body socket]) fun code =>
      ∃ body, LaidUnder n (closeSuite body) code ∧ suite socket body := by
    refine (body_leaves hu h socket).bind fun body hbody => .pure ?_
    rw [String.append_empty]
    exact hbody
  refine Leaves.bind (P := fun e : Expr => IsLine .head e.text.toList ∧ Text.Solid e.text.toList
    ∧ firstWord e.text.toList = word) ?_ fun e hline => ?_
  · refine (renderPieces_leaves hu h.fine isSnippet_of_none hpieces).bind fun text htext => ?_
    obtain ⟨parts, hparts, hflat⟩ := htext
    refine .pure ?_
    rw [hflat]
    exact Shape.head hs hw hparts
  · refine hbodies.bind fun body hbody => .pure ?_
    obtain ⟨item, hlaid, hhead⟩ := laidOut_headOf hline hbody
    exact ⟨[item], hlaid, .cons hhead .nil⟩

/-! ## blocks without a rule -/

omit hu h in
theorem unknownStatement_leaves (n : Nat) (site : Site) :
    Leaves site.unknownStatement fun code => ∃ text, LaidOut n [.comment text] code := by
  refine (Leaves.report site _ _).bind fun _ _ => .pure ?_
  have hfixed : ∀ {text : String}, text.toList.any Text.isControl = false →
      ∀ c ∈ text.toList, Text.isControl c = false := fun h => by simpa using h
  have hclear : ∀ c ∈ " Unknown block type '".toList ++ (Text.commentText site.tag).toList
      ++ "' (".toList ++ (Text.commentText site.id).toList ++ ")".toList,
      Text.isControl c = false := by
    simp only [List.forall_mem_append]
    exact ⟨⟨⟨⟨hfixed (by decide), Text.isControl_commentText _⟩, hfixed (by decide)⟩,
      Text.isControl_commentText _⟩, hfixed (by decide)⟩
  have htext : site.unknownComment = "# Unknown block type '" ++ Text.commentText site.tag ++ "' ("
      ++ Text.commentText site.id ++ ")" ++ "\n" := by
    rw [String.append_assoc]
    rfl
  rw [htext]
  refine ⟨_, laidOut_comment ?_ ?_⟩ <;> simp only [String.toList_append]
  · exact isLine_comment hclear
  · exact solid_comment hclear

end Site

/-! ## rules -/

/-- the tags of the blocks with suites -/
def suiteTags : List String := ["controls_if", "controls_whileUntil", "controls_repeat_ext"]

/-- the rule makes what a block with the tag owns -/
def StatementRule.isLaid (tag : String) : StatementRule → Bool
  | .branches => tag == "controls_if"
  | .loop => tag == "controls_whileUntil"
  | .template [.code form] => form.isLaid && !suiteTags.contains tag
  | .template [.code form, .body socket] =>
    form.pieces.all Piece.isLaid && form.shape.isHead "for" && socket == "DO"
      && tag == "controls_repeat_ext"
  | _ => false

def Rule.isLaid (tag : String) : Rule → Bool
  | .value rule => rule.isLaid && !suiteTags.contains tag
  | .statement rule => rule.isLaid tag

theorem table_laid : ∀ entry ∈ Rule.Standard.table, entry.2.isLaid entry.1 = true := by decide

namespace Site
variable {site : Site} {n : Nat} {suite : String → List Item → Prop}

theorem heads?_eq_none (h : suiteTags.contains site.tag = false) : site.heads? = none := by
  simp only [suiteTags, List.contains_eq_mem, decide_eq_false_iff_not, List.mem_cons, not_or] at h
  rw [heads?, if_neg h.1, if_neg h.2.1, if_neg h.2.2.1]

theorem owns_heads {heads : List Head} (h : site.heads? = some heads) {items : List Item}
    (hitems : List.Forall₂ (HeadOf suite) heads items) : site.Owns suite items := by
  rw [Owns, h]
  exact hitems

/-- a block without suites owns one line -/
theorem owns_line (h : suiteTags.contains site.tag = false)
    (hrule : Assoc.contains site.tag Rule.Standard.table = true) (text : List Char) :
    site.Owns suite [.simple text] := by
  rw [Owns, heads?_eq_none h, hrule]
  exact ⟨text, rfl⟩

theorem owns_comment (h : Assoc.get? site.tag Rule.Standard.table = none) (text : List Char) :
    site.Owns suite [.comment text] := by
  have hcontains : Assoc.contains site.tag Rule.Standard.table = false := by
    rw [Assoc.contains, h]
    rfl
  have htag : suiteTags.contains site.tag = false := by
    have hkeys : ∀ tag ∈ suiteTags, Assoc.get? tag Rule.Standard.table ≠ none := by decide
    rw [List.contains_eq_mem, decide_eq_false_iff_not]
    exact fun hmem => hkeys _ hmem h
  rw [Owns, heads?_eq_none htag, hcontains]
  exact ⟨text, rfl⟩

variable {unit : String} (hu : unit.toList = List.replicate n ' ')
include hu

theorem statementRule_leaves (h : site.Ready n suite) {rule : StatementRule}
    (hrule : Assoc.contains site.tag Rule.Standard.table = true)
    (hlaid : rule.isLaid site.tag = true) :
    Leaves (rule.run unit site) fun code => ∃ items, LaidOut n items code ∧ site.Owns suite items := by
  unfold StatementRule.isLaid at hlaid
  split at hlaid
  next =>
    have hheads : site.heads? = some _ := if_pos (beq_iff_eq.mp hlaid)
    refine (branches_leaves hu h).imp fun code hcode => ?_
    obtain ⟨items, hitems, hforall⟩ := hcode
    exact ⟨items, hitems, owns_heads hheads hforall⟩
  next =>
    have hheads : site.heads? = some [("while", "DO")] := by
      rw [heads?, beq_iff_eq.mp hlaid]
      rfl
    refine (loop_leaves hu h).imp fun code hcode => ?_
    obtain ⟨items, hitems, hforall⟩ := hcode
    exact ⟨items, hitems, owns_heads hheads hforall⟩
  next form =>
    rw [Bool.and_eq_true, Bool.not_eq_true'] at hlaid
    refine (line_leaves hu h hlaid.1).imp fun code hcode => ?_
    obtain ⟨text, hline⟩ := hcode
    exact ⟨_, hline, owns_line hlaid.2 hrule text⟩
  next form socket =>
    simp only [Bool.and_eq_true, List.all_eq_true, beq_iff_eq] at hlaid
    obtain ⟨⟨⟨hpieces, hshape⟩, rfl⟩, htag⟩ := hlaid
    have hheads : site.heads? = some [("for", "DO")] := by
      rw [heads?, htag]
      rfl
    refine (suite_leaves hu h "DO" (by decide) hpieces hshape).imp fun code hcode => ?_
    obtain ⟨items, hitems, hforall⟩ := hcode
    exact ⟨items, hitems, owns_heads hheads hforall⟩
  next => cases hlaid

end Site

/-! ## toolchains -/

namespace Toolchain
variable {t : Toolchain} (ht : t.rules = Rule.Standard.table) {n : Nat}
  (hu : t.options.indent.toList = List.replicate n ' ') {site : Site}
include ht hu

theorem valueOf_leaves (h : site.Fine) : Leaves (t.valueOf site) Expr.IsSnippet := by
  unfold Toolchain.valueOf
  split
  next rule hrule =>
    rw [Toolchain.rule?, ht] at hrule
    have hlaid := table_laid _ (Assoc.mem_of_get? hrule)
    rw [Rule.isLaid, Bool.and_eq_true] at hlaid
    exact Site.valueRule_leaves hu h hlaid.1
  next => exact (Leaves.report site _ _).bind fun _ _ => .pure isSnippet_absent
  next => exact (Leaves.report site _ _).bind fun _ _ => .pure isSnippet_absent

/-- a block's own code is the layout of the items that the block owns -/
theorem statementOf_leaves {suite : String → List Item → Prop} (h : site.Ready n suite) :
    Leaves (t.statementOf site) fun text =>
      ∃ items, LaidOut n items (Text.terminated text) ∧ site.Owns suite items := by
  unfold Toolchain.statementOf
  split
  next rule hrule =>
    rw [Toolchain.rule?, ht] at hrule
    have hlaid := table_laid _ (Assoc.mem_of_get? hrule)
    have hcontains : Assoc.contains site.tag Rule.Standard.table = true := by
      rw [Assoc.contains, hrule]
      rfl
    refine (Site.statementRule_leaves hu h hcontains hlaid).imp fun text htext => ?_
    obtain ⟨items, hitems, howns⟩ := htext
    rw [hitems.terminated]
    exact ⟨items, hitems, howns⟩
  next rule hrule =>
    rw [Toolchain.rule?, ht] at hrule
    have hlaid := table_laid _ (Assoc.mem_of_get? hrule)
    have hcontains : Assoc.contains site.tag Rule.Standard.table = true := by
      rw [Assoc.contains, hrule]
      rfl
    rw [Rule.isLaid, Bool.and_eq_true, Bool.not_eq_true'] at hlaid
    refine (Site.valueRule_leaves hu h.fine hlaid.1).bind fun e he => .pure ?_
    rw [terminated_snippet he]
    exact ⟨_, laidOut_line he, Site.owns_line hlaid.2 hcontains _⟩
  next hrule =>
    rw [Toolchain.rule?, ht] at hrule
    refine (Site.unknownStatement_leaves n site).imp fun text htext => ?_
    obtain ⟨comment, hitems⟩ := htext
    rw [hitems.terminated]
    exact ⟨_, hitems, Site.owns_comment hrule comment⟩

end Toolchain

end VisualProgram
