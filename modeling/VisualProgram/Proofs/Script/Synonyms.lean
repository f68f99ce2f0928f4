import VisualProgram.Proofs.Script.Reads

/-!
# Tags that share a rule

A toolchain can give a second tag the rule of one that has one (`Toolchain.addAlias`).  Blocks of either
tag then compile by the same rule, so the code should be the same whichever of the two tags they have.

Almost every rule looks at the code of what is in its sockets and never at tags.  There are two exceptions.
Joined text calls `str` for all parts but those with the tag `text`, whatever the rule of that tag is; and
the rule for unknown blocks writes the tag into a comment.  `compile_retag` shows that there are no others:
it compiles a workspace under two sets of tags at once, as a family (`Varies`).  `synonym_compiles_alike_iff`
says exactly for which tags the code is always the same.
-/

namespace VisualProgram

/-! ## other tags -/

namespace Block

mutual
/-- the tree with other tags, each made from the id and the tag of its block -/
def retag (rename : String → String → String) : Block → Block
  | ⟨id, tag, fields, inputs, statements, next⟩ =>
    ⟨id, rename id tag, fields, retagSockets rename inputs, retagSockets rename statements,
      retagNext rename next⟩

def retagSockets (rename : String → String → String) : List (String × Block) → List (String × Block)
  | [] => []
  | (socket, child) :: rest => (socket, child.retag rename) :: retagSockets rename rest

def retagNext (rename : String → String → String) : Option Block → Option Block
  | none => none
  | some b => some (b.retag rename)
end

mutual
theorem retag_self : (b : Block) → b.retag (fun _ tag => tag) = b
  | ⟨id, tag, fields, inputs, statements, next⟩ => by
    rw [retag, retagSockets_self inputs, retagSockets_self statements, retagNext_self next]

theorem retagSockets_self : (sockets : List (String × Block)) →
    retagSockets (fun _ tag => tag) sockets = sockets
  | [] => rfl
  | (socket, child) :: rest => by rw [retagSockets, retag_self child, retagSockets_self rest]

theorem retagNext_self : (next : Option Block) → retagNext (fun _ tag => tag) next = next
  | none => rfl
  | some b => by rw [retagNext, retag_self b]
end

theorem retagSockets_eq_map (rename : String → String → String) (sockets : List (String × Block)) :
    retagSockets rename sockets = sockets.map fun e => (e.1, e.2.retag rename) := by
  induction sockets with
  | nil => rfl
  | cons entry rest ih =>
    obtain ⟨socket, child⟩ := entry
    rw [retagSockets, ih, List.map_cons]

theorem tag_retag (t : Toolchain) (rename : String → String → String) (b : Block) :
    ((b.retag rename).compile t).tag = rename b.id b.tag := by
  cases b
  rfl

end Block

/-- what a diagnostic is about, its message aside -/
def Diagnostic.cause (d : Diagnostic) : String × Diagnostic.Kind := (d.subject, d.kind)

/-! ## one compilation for several sets of tags -/

section
variable {ι : Type} {t : Toolchain} {rename : ι → String → String → String}

/-- whichever tag a block gets, its rule is the same, and so is the comment if it has none -/
structure Renames (t : Toolchain) (rename : ι → String → String → String) : Prop where
  rules : ∀ id tag, Still fun i => t.rule? (rename i id tag)
  comments : ∀ id tag found, (∀ i, t.rule? (rename i id tag) = found) →
    found = some (.statement .unknown) ∨ found = none → Still fun i => Text.commentText (rename i id tag)

/-- a part of a joined text has the tag `text` under all sets of tags or under none -/
def Block.TextApart (t : Toolchain) (rename : ι → String → String → String) (b : Block) : Prop :=
  (∀ i, t.rule? (rename i b.id b.tag) = some (.value .join)) → ∀ e ∈ b.inputs,
    (∀ i, rename i e.2.id e.2.tag = "text") ∨ ∀ i, rename i e.2.id e.2.tag ≠ "text"

/-- a block in a socket gives the same under all sets of tags -/
structure StillChild (c : ι → Child) : Prop where
  value : ∀ required, Varies Diagnostic.cause (fun i => (c i).value required) Still
  chain : Varies Diagnostic.cause (fun i => (c i).chain) Still

/-- nothing is live, so whatever is put together is still -/
def noText : ι → String := fun _ => ""
def noneLive : Socket → Bool := fun _ => false

theorem Sites.Gathers.still {f : ι → String} (h : Gathers noText noneLive false f) : Still f := by
  obtain ⟨reads, -, hf⟩ := h
  exact hf.still fun _ _ => rfl

theorem Sites.GathersExpr.still {e : ι → Expr} (h : GathersExpr noText noneLive false e) : Still e := by
  obtain ⟨reads, -, ⟨level, hlevel⟩, htext⟩ := h
  obtain ⟨text, htext⟩ := htext.still fun _ _ => rfl
  refine ⟨⟨text, level⟩, fun i => ?_⟩
  rw [← htext i, ← hlevel i]

/-- the blocks at one place of the tree, under all sets of tags -/
def Block.sites (t : Toolchain) (rename : ι → String → String → String) (b : Block) : Sites ι where
  id := b.id
  tag i := rename i b.id b.tag
  fields := b.fields
  inputs := b.inputs.map fun e => (e.1, fun i => (e.2.retag (rename i)).compile t)
  statements := b.statements.map fun e => (e.1, fun i => (e.2.retag (rename i)).compile t)

theorem Block.site_retag (b : Block) (i : ι) :
    (b.retag (rename i)).site t = (b.sites t rename).site i := by
  obtain ⟨id, tag, fields, inputs, statements, next⟩ := b
  simp only [retag, site, compileSockets_eq_map, retagSockets_eq_map, sites, Sites.site, List.map_map]
  rfl

theorem Block.coherent_sites {b : Block}
    (hi : ∀ e ∈ b.inputs, StillChild fun i => (e.2.retag (rename i)).compile t)
    (hs : ∀ e ∈ b.statements, StillChild fun i => (e.2.retag (rename i)).compile t) :
    (b.sites t rename).Coherent Diagnostic.cause noText noneLive where
  inputs := by
    intro e he required
    obtain ⟨entry, hentry, rfl⟩ := List.mem_map.mp he
    exact ((hi entry hentry).value required).imp fun f hf =>
      ⟨hf.map Expr.level, draws_of_still (hf.map Expr.text)⟩
  bodies := by
    intro e he
    obtain ⟨entry, hentry, rfl⟩ := List.mem_map.mp he
    exact (hs entry hentry).chain.imp fun f hf => draws_of_still hf
  tags _ _ _ _ := rfl

theorem Block.textApart_sites {b : Block} (h : b.TextApart t rename)
    (hr : ∀ i, t.rule? (rename i b.id b.tag) = some (.value .join)) : (b.sites t rename).TextApart := by
  intro e he
  obtain ⟨entry, hentry, rfl⟩ := List.mem_map.mp he
  simp only [tag_retag]
  exact h hr entry hentry

/-- a block gives the same if what is in its sockets and the rest of its chain do -/
theorem Block.still_of_parts (h : Renames t rename) {b : Block} (ht : b.TextApart t rename)
    (hi : ∀ e ∈ b.inputs, StillChild fun i => (e.2.retag (rename i)).compile t)
    (hs : ∀ e ∈ b.statements, StillChild fun i => (e.2.retag (rename i)).compile t)
    (hn : Varies Diagnostic.cause (fun i => compileNext t (retagNext (rename i) b.next)) Still) :
    StillChild fun i => (b.retag (rename i)).compile t := by
  obtain ⟨found, hfound⟩ := h.rules b.id b.tag
  have hS := coherent_sites hi hs
  have hjoin : found = some (.value .join) → (b.sites t rename).TextApart := fun hj =>
    textApart_sites ht fun i => (hfound i).trans hj
  have hcompile : ∀ i, (b.retag (rename i)).compile t
      = { tag := rename i b.id b.tag
          value := fun required => t.valueOf ((b.sites t rename).site i) >>= fun e => pure (e.place required)
          chain := t.statementOf ((b.sites t rename).site i) >>= fun text =>
            compileNext t (retagNext (rename i) b.next) >>= fun rest => pure (Text.terminated text ++ rest) } := by
    intro i
    rw [compile_eq, site_retag]
    cases b
    rfl
  simp only [hcompile]
  refine ⟨fun required => ?_, ?_⟩
  · refine (Sites.valueOf_varies hS hfound (fun _ _ hl => absurd hl Bool.false_ne_true) hjoin).map ?_
    exact fun e he => he.still.map (·.place required)
  · refine (Sites.statementOf_varies hS hfound (fun _ _ hl => absurd hl Bool.false_ne_true) hjoin
      (h.comments b.id b.tag found hfound)).bind fun code hcode => hn.map fun rest hrest => ?_
    obtain ⟨c, hc⟩ := hcode.still
    obtain ⟨r, hr⟩ := hrest
    exact ⟨Text.terminated c ++ r, fun i => congrArg₂ (Text.terminated · ++ ·) (hc i) (hr i)⟩

mutual
theorem Block.still_retag (h : Renames t rename) : (b : Block) →
    (∀ p ∈ b.walk, p.TextApart t rename) → StillChild fun i => (b.retag (rename i)).compile t
  | ⟨id, tag, fields, inputs, statements, next⟩, hb => by
    simp only [walk, List.mem_cons, List.mem_append, or_imp, forall_and, forall_eq] at hb
    obtain ⟨hself, ⟨hi, hs⟩, hn⟩ := hb
    exact still_of_parts h hself (still_retagSockets h inputs hi) (still_retagSockets h statements hs)
      (still_retagNext h next hn)

theorem Block.still_retagSockets (h : Renames t rename) : (sockets : List (String × Block)) →
    (∀ p ∈ walkSockets sockets, p.TextApart t rename) →
    ∀ e ∈ sockets, StillChild fun i => (e.2.retag (rename i)).compile t
  | [], _ => List.forall_mem_nil _
  | (socket, child) :: rest, hb => by
    simp only [walkSockets, List.mem_append, or_imp, forall_and] at hb
    exact List.forall_mem_cons.mpr ⟨still_retag h child hb.1, still_retagSockets h rest hb.2⟩

theorem Block.still_retagNext (h : Renames t rename) : (next : Option Block) →
    (∀ p ∈ walkNext next, p.TextApart t rename) →
    Varies Diagnostic.cause (fun i => compileNext t (retagNext (rename i) next)) Still
  | none, _ => .pure (still_const _)
  | some b, hb => (still_retag h b hb).chain
end

/-! ## whole scripts -/

theorem Session.Alike.assemble {a b : Session} (h : a.Alike Diagnostic.cause b) (chains : List String) :
    a.assemble chains = b.assemble chains := by
  simp only [Session.assemble, Session.importSection, Session.variableSection, h.imports, h.identifiers]

theorem compileChains_retag (h : Renames t rename) (blocks : List Block)
    (hb : ∀ b ∈ blocks, ∀ p ∈ b.walk, p.TextApart t rename) :
    Varies Diagnostic.cause (fun i => Workspace.compileChains t (blocks.map (Block.retag (rename i))))
      Still := by
  induction blocks with
  | nil => exact .pure (still_const _)
  | cons b rest ih =>
    rw [List.forall_mem_cons] at hb
    have hchain : Varies Diagnostic.cause
        (fun i => Block.compileChain t (some (b.retag (rename i)))) Still :=
      (Block.still_retag h b hb.1).chain
    refine hchain.bind fun code ⟨c, hc⟩ => (ih hb.2).map fun more ⟨m, hm⟩ => ?_
    exact ⟨c :: m, fun i => congrArg₂ List.cons (hc i) (hm i)⟩

end

namespace Workspace

/-- the workspace with other tags -/
def retag (rename : String → String → String) (w : Workspace) : Workspace :=
  ⟨w.blocks.map (Block.retag rename)⟩

/-- under all sets of tags a workspace has the same code, and the same is reported of the same blocks -/
theorem compile_retag {ι : Type} {t : Toolchain} {rename : ι → String → String → String}
    (h : Renames t rename) {w : Workspace}
    (hw : ∀ p ∈ w.blocks.flatMap Block.walk, p.TextApart t rename) (i j : ι) :
    ((w.retag (rename i)).compile t).code = ((w.retag (rename j)).compile t).code
    ∧ ((w.retag (rename i)).compile t).diagnostics.map Diagnostic.cause
      = ((w.retag (rename j)).compile t).diagnostics.map Diagnostic.cause := by
  have hchains := compileChains_retag h w.blocks fun b hb p hp =>
    hw p (List.mem_flatMap.mpr ⟨b, hb, hp⟩)
  obtain ⟨⟨chains, hsame⟩, halike⟩ := hchains (fun _ => .initial) fun _ _ => .refl _
  refine ⟨?_, (halike i j).diagnostics⟩
  exact ((halike i j).assemble _).trans (congrArg _ ((hsame i).trans (hsame j).symm))

end Workspace

/-! ## tags with the rule of another -/

namespace Toolchain

theorem rule?_addRule (t : Toolchain) (tag other : String) (rule : Rule) :
    (t.addRule tag rule).rule? other = if tag = other then some rule else t.rule? other :=
  Assoc.get?_put tag other rule t.rules

theorem rule?_addAlias {t : Toolchain} {existing : String} {rule : Rule} (h : t.rule? existing = some rule)
    (synonym other : String) :
    (t.addAlias synonym existing).rule? other = if synonym = other then some rule else t.rule? other := by
  rw [addAlias, h]
  exact t.rule?_addRule synonym other rule

end Toolchain

/-- another tag for those blocks of one tag whose id is chosen; ids tell the blocks of a workspace apart,
so the chosen ones can be any of them -/
def exchange (chosen : String → Bool) (existing synonym id tag : String) : String :=
  if tag = existing ∧ chosen id = true then synonym else tag

theorem exchange_cases (chosen : String → Bool) (existing synonym id tag : String) :
    exchange chosen existing synonym id tag = tag
    ∨ tag = existing ∧ exchange chosen existing synonym id tag = synonym := by
  unfold exchange
  split
  next h => exact Or.inr ⟨h.1, rfl⟩
  next => exact Or.inl rfl

section
variable {t : Toolchain} {existing synonym : String} {rule : Rule}

theorem renames_exchange (he : t.rule? existing = some rule) (hs : t.rule? synonym = some rule)
    (hc : rule = .statement .unknown → Text.commentText existing = Text.commentText synonym)
    (chosen : String → Bool) :
    Renames t fun (changed : Bool) id tag => if changed then exchange chosen existing synonym id tag else tag where
  rules id tag := by
    refine ⟨t.rule? tag, fun changed => ?_⟩
    cases changed with
    | false => rfl
    | true =>
      rcases exchange_cases chosen existing synonym id tag with h | ⟨rfl, h⟩
      · exact congrArg t.rule? h
      · exact (congrArg t.rule? h).trans (hs.trans he.symm)
  comments id tag found hfound hunknown := by
    refine ⟨Text.commentText tag, fun changed => ?_⟩
    cases changed with
    | false => rfl
    | true =>
      rcases exchange_cases chosen existing synonym id tag with h | ⟨rfl, h⟩
      · exact congrArg Text.commentText h
      · have hrule : some rule = found := he.symm.trans (hfound false)
        -- the tag has a rule, so the comment is that of the rule for unknown blocks
        have hu : rule = .statement .unknown := by
          rcases hunknown with hu | hu
          · exact Option.some.inj (hrule.trans hu)
          · exact absurd (hrule.trans hu) (Option.some_ne_none _)
        exact (congrArg Text.commentText h).trans (hc hu).symm

/-- blocks that exchange their tags compile alike, if no part of a joined text becomes or stops being `text` -/
theorem compile_exchange (he : t.rule? existing = some rule) (hs : t.rule? synonym = some rule)
    (hc : rule = .statement .unknown → Text.commentText existing = Text.commentText synonym)
    {chosen : String → Bool} {w : Workspace}
    (hw : ∀ p ∈ w.blocks.flatMap Block.walk, t.rule? p.tag = some (.value .join) → ∀ e ∈ p.inputs,
      (exchange chosen existing synonym e.2.id e.2.tag = "text" ↔ e.2.tag = "text")) :
    ((w.retag (exchange chosen existing synonym)).compile t).code = (w.compile t).code
    ∧ ((w.retag (exchange chosen existing synonym)).compile t).diagnostics.map Diagnostic.cause
      = (w.compile t).diagnostics.map Diagnostic.cause := by
  have hsame : w.retag (fun _ tag => tag) = w := by
    have hmap : w.blocks.map (Block.retag fun _ tag => tag) = w.blocks.map id :=
      List.map_congr_left fun b _ => b.retag_self
    rw [Workspace.retag, hmap, List.map_id]
  have halike := Workspace.compile_retag (renames_exchange he hs hc chosen) (w := w) ?_ true false
  · simp only [if_true, Bool.false_eq_true, if_false, hsame] at halike
    exact halike
  · intro p hp hjoin e hin
    have htext := hw p hp (hjoin false) e hin
    by_cases h : e.2.tag = "text"
    · exact Or.inl (Bool.rec h (htext.mpr h))
    · exact Or.inr (Bool.rec h (mt htext.mp h))

/-! ## where a tag shows -/

theorem join_single (id tag : String) (part : Child) :
    Site.join ⟨id, tag, [], [("ADD0", part)], []⟩ = Site.joinPart ⟨id, tag, [], [("ADD0", part)], []⟩ 0 := by
  have hindices : Site.slotIndices "ADD" [("ADD0", part)] = [0] := by
    rw [Site.slotIndices, Assoc.keys_cons, Assoc.keys_nil]
    decide
  have hcount : Site.declaredCount ⟨id, tag, [], [("ADD0", part)], []⟩ "ITEMS" = 0 := rfl
  have hwanted : max 0 (Site.pastGreatest [0]) = 1 := by decide
  have hfits : 1 ≤ [0].length + Site.spareSlots := by decide
  simp only [Site.join, hindices, hcount, hwanted, Site.clampSlots, hfits, if_true, pure_bind]
  show Site.joinParts _ [0] >>= (fun parts => pure (Site.sumOf parts)) = _
  simp only [Site.joinParts, pure_bind, bind_assoc, Site.sumOf, bind_pure]

/-- a block with nothing but a tag -/
def Block.bare (tag : String) : Block := ⟨"part", tag, [], [], [], none⟩

/-- a block with one part of a joined text -/
def Block.joining (tag : String) (part : Block) : Block := ⟨"join", tag, [], [("ADD0", part)], [], none⟩

/-- the part of a joined text that a block of some tag becomes -/
def joinedText (tag : String) (e : Expr) : String :=
  if tag = "text" then (e.place .sum).text else "str(" ++ (e.place .loosest).text ++ ")"

theorem code_joining {join : String} (h : t.rule? join = some (.value .join)) (tag : String) :
    ((Workspace.mk [.joining join (.bare tag)]).compile t).code
      = ((t.valueOf ((Block.bare tag).site t)).run .initial).2.assemble
        [Text.terminated (joinedText tag ((t.valueOf ((Block.bare tag).site t)).run .initial).1)] := by
  have hpart : Site.joinPart ⟨"join", join, [], [("ADD0", (Block.bare tag).compile t)], []⟩ 0
      = t.valueOf ((Block.bare tag).site t) >>= fun e => pure
        (if tag = "text" then e.place .sum else ⟨"str(" ++ (e.place .loosest).text ++ ")", .call⟩) := by
    show (if tag = "text" then ((Block.bare tag).compile t).value .sum
      else ((Block.bare tag).compile t).value .loosest >>= fun e => pure ⟨"str(" ++ e.text ++ ")", .call⟩) = _
    split
    · rfl
    · rfl
  have hstatement : t.statementOf ((Block.joining join (.bare tag)).site t)
      = t.valueOf ((Block.bare tag).site t) >>= fun e => pure (joinedText tag e) := by
    have htag : ((Block.joining join (.bare tag)).site t).tag = join := rfl
    rw [Toolchain.statementOf, htag, h]
    show Site.join ⟨"join", join, [], [("ADD0", (Block.bare tag).compile t)], []⟩ >>= _ = _
    rw [join_single, hpart, bind_assoc]
    simp only [pure_bind, joinedText, apply_ite Expr.text]
  have hchain : ((Block.joining join (.bare tag)).compile t).chain
      = t.valueOf ((Block.bare tag).site t) >>= fun e => pure (Text.terminated (joinedText tag e)) := by
    show t.statementOf ((Block.joining join (.bare tag)).site t) >>= _ = _
    rw [hstatement]
    simp only [Block.compileNext, bind_assoc, pure_bind, String.append_empty]
  show (((Block.joining join (.bare tag)).compile t).chain.run .initial).2.assemble
    [(((Block.joining join (.bare tag)).compile t).chain.run .initial).1] = _
  rw [hchain]
  rfl

theorem length_terminated (s : String) :
    s.length ≤ (Text.terminated s).length ∧ (Text.terminated s).length ≤ s.length + 1 := by
  have hnewline : "\n".length = 1 := rfl
  unfold Text.terminated
  split
  next h => rw [h]; exact ⟨Nat.le_refl _, Nat.le_succ _⟩
  next =>
    split
    next => omega
    next => rw [String.length_append]; omega

theorem length_place (e : Expr) (required : Precedence) :
    e.text.length ≤ (e.place required).text.length ∧ (e.place required).text.length ≤ e.text.length + 2 := by
  have hparens : ("(" ++ e.text ++ ")").length = e.text.length + 2 := by
    rw [String.length_append, String.length_append, Nat.add_comm "(".length]
    rfl
  unfold Expr.place
  split
  next =>
    show _ ≤ ("(" ++ e.text ++ ")").length ∧ ("(" ++ e.text ++ ")").length ≤ _
    omega
  next => exact ⟨Nat.le_refl _, Nat.le_add_right _ _⟩

/-- a call of `str` is too long to be taken for the text in it -/
theorem terminated_ne (e : Expr) :
    Text.terminated (e.place .sum).text ≠ Text.terminated ("str(" ++ (e.place .loosest).text ++ ")") := by
  intro h
  have hlength := congrArg String.length h
  have hcall : ("str(" ++ (e.place .loosest).text ++ ")").length = (e.place .loosest).text.length + 5 := by
    rw [String.length_append, String.length_append, Nat.add_comm "str(".length]
    rfl
  have hsum := length_terminated (e.place .sum).text
  have hstr := length_terminated ("str(" ++ (e.place .loosest).text ++ ")")
  have hplain := length_place e .sum
  have hinner := length_place e .loosest
  omega

/-- the two tags give the same expression -/
theorem valueOf_bare (he : t.rule? existing = some rule) (hs : t.rule? synonym = some rule) :
    ((t.valueOf ((Block.bare synonym).site t)).run .initial).1
      = ((t.valueOf ((Block.bare existing).site t)).run .initial).1
    ∧ ((t.valueOf ((Block.bare synonym).site t)).run .initial).2.Alike Diagnostic.cause
      ((t.valueOf ((Block.bare existing).site t)).run .initial).2 := by
  let S : Sites Bool := ⟨"part", fun changed => if changed then synonym else existing, [], [], []⟩
  have hS : S.Coherent Diagnostic.cause noText noneLive :=
    ⟨List.forall_mem_nil _, List.forall_mem_nil _, fun _ _ _ _ => rfl⟩
  have hr : ∀ changed, t.rule? (S.tag changed) = some rule := Bool.rec he hs
  obtain ⟨hvalue, halike⟩ := Sites.valueOf_varies hS hr (fun _ _ hl => absurd hl Bool.false_ne_true)
    (fun _ => List.forall_mem_nil _) (fun _ => .initial) fun _ _ => .refl _
  obtain ⟨e, hsame⟩ := hvalue.still
  exact ⟨(hsame true).trans (hsame false).symm, halike true false⟩

theorem text_iff_of_alike (he : t.rule? existing = some rule) (hs : t.rule? synonym = some rule)
    {join : String} (hjoin : t.rule? join = some (.value .join))
    (h : ((Workspace.mk [.joining join (.bare synonym)]).compile t).code
      = ((Workspace.mk [.joining join (.bare existing)]).compile t).code) :
    existing = "text" ↔ synonym = "text" := by
  obtain ⟨hvalue, halike⟩ := valueOf_bare he hs
  rw [code_joining hjoin, code_joining hjoin, hvalue, halike.assemble] at h
  have hparts := Session.assemble_cancel [] [] h
  by_cases hexisting : existing = "text" <;> by_cases hsynonym : synonym = "text"
  · simp only [hexisting, hsynonym]
  · rw [joinedText, joinedText, if_neg hsynonym, if_pos hexisting] at hparts
    exact absurd hparts.symm (terminated_ne _)
  · rw [joinedText, joinedText, if_pos hsynonym, if_neg hexisting] at hparts
    exact absurd hparts (terminated_ne _)
  · simp only [hexisting, hsynonym]

theorem terminated_unknownComment (site : Site) :
    Text.terminated site.unknownComment = site.unknownComment := by
  have hlast : site.unknownComment.toList.getLast? = some '\n' := by
    unfold Site.unknownComment
    rw [String.toList_append, List.getLast?_append]
    rfl
  rw [Text.terminated, if_pos hlast, ite_eq_right_iff]
  exact fun hempty => hempty.symm

theorem code_unknown {tag : String} (h : t.rule? tag = some (.statement .unknown)) :
    ((Workspace.mk [.bare tag]).compile t).code
      = Session.initial.assemble [((Block.bare tag).site t).unknownComment] := by
  have hstatement : t.statementOf ((Block.bare tag).site t) = ((Block.bare tag).site t).unknownStatement := by
    have htag : ((Block.bare tag).site t).tag = tag := rfl
    rw [Toolchain.statementOf, htag, h]
    rfl
  have hchain : ((Block.bare tag).compile t).chain = (do
      ((Block.bare tag).site t).reportUnknown
      pure ((Block.bare tag).site t).unknownComment) := by
    show t.statementOf ((Block.bare tag).site t) >>= _ = _
    rw [hstatement]
    simp only [Site.unknownStatement, Block.compileNext, bind_assoc, pure_bind, String.append_empty,
      terminated_unknownComment]
  show (((Block.bare tag).compile t).chain.run .initial).2.assemble
    [(((Block.bare tag).compile t).chain.run .initial).1] = _
  rw [hchain]
  rfl

theorem comment_eq_of_alike (he : t.rule? existing = some (.statement .unknown))
    (hs : t.rule? synonym = some (.statement .unknown))
    (h : ((Workspace.mk [.bare synonym]).compile t).code = ((Workspace.mk [.bare existing]).compile t).code) :
    Text.commentText existing = Text.commentText synonym := by
  rw [code_unknown he, code_unknown hs] at h
  have hlines := Session.assemble_cancel [] [] h
  unfold Site.unknownComment at hlines
  -- the comments differ in nothing but the tag
  have hid : ((Block.bare existing).site t).id = ((Block.bare synonym).site t).id := rfl
  rw [hid, String.append_left_inj, String.append_left_inj, String.append_left_inj,
    String.append_right_inj] at hlines
  exact hlines.symm

end

/-- blocks of a tag and of its alias compile to the same code in every workspace, unless a joined text can
have one of them as its part and just one of the two tags is `text`, or the tag is written in a comment.
In a workspace where no part of a joined text becomes or stops being `text`, they always do, and the same
is reported of the same blocks -/
theorem synonym_compiles_alike_iff (t : Toolchain) {existing : String} {rule : Rule}
    (h : t.rule? existing = some rule) (synonym : String) :
    ((∀ (w : Workspace) (chosen : String → Bool),
        ((w.retag (exchange chosen existing synonym)).compile (t.addAlias synonym existing)).code
          = (w.compile (t.addAlias synonym existing)).code)
      ↔ ((∃ tag, (t.addAlias synonym existing).rule? tag = some (.value .join)) →
          (existing = "text" ↔ synonym = "text"))
        ∧ (rule = .statement .unknown → Text.commentText existing = Text.commentText synonym))
    ∧ ∀ (w : Workspace) (chosen : String → Bool),
        (rule = .statement .unknown → Text.commentText existing = Text.commentText synonym) →
        (∀ p ∈ w.blocks.flatMap Block.walk,
          (t.addAlias synonym existing).rule? p.tag = some (.value .join) → ∀ e ∈ p.inputs,
            (exchange chosen existing synonym e.2.id e.2.tag = "text" ↔ e.2.tag = "text")) →
        ((w.retag (exchange chosen existing synonym)).compile (t.addAlias synonym existing)).code
            = (w.compile (t.addAlias synonym existing)).code
          ∧ ((w.retag (exchange chosen existing synonym)).compile
              (t.addAlias synonym existing)).diagnostics.map Diagnostic.cause
            = (w.compile (t.addAlias synonym existing)).diagnostics.map Diagnostic.cause := by
  have hs : (t.addAlias synonym existing).rule? synonym = some rule := by
    rw [Toolchain.rule?_addAlias h, if_pos rfl]
  have he : (t.addAlias synonym existing).rule? existing = some rule := by
    rw [Toolchain.rule?_addAlias h, h, ite_self]
  refine ⟨⟨fun halike => ⟨?_, ?_⟩, ?_⟩, fun w chosen hc hw => compile_exchange he hs hc hw⟩
  · rintro ⟨join, hjoin⟩
    have hexchange : (Workspace.mk [.joining join (.bare existing)]).retag
        (exchange (· == "part") existing synonym) = ⟨[.joining join (.bare synonym)]⟩ := by
      simp [Workspace.retag, Block.joining, Block.bare, Block.retag, Block.retagSockets, Block.retagNext, exchange]
    have hcode := halike ⟨[.joining join (.bare existing)]⟩ (· == "part")
    rw [hexchange] at hcode
    exact text_iff_of_alike he hs hjoin hcode
  · rintro rfl
    have hexchange : (Workspace.mk [.bare existing]).retag
        (exchange (· == "part") existing synonym) = ⟨[.bare synonym]⟩ := by
      simp [Workspace.retag, Block.bare, Block.retag, Block.retagSockets, Block.retagNext, exchange]
    have hcode := halike ⟨[.bare existing]⟩ (· == "part")
    rw [hexchange] at hcode
    exact comment_eq_of_alike he hs hcode
  · rintro ⟨htext, hc⟩ w chosen
    refine (compile_exchange he hs hc fun p _ hjoin e _ => ?_).1
    rcases exchange_cases chosen existing synonym e.2.id e.2.tag with hx | ⟨htag, hx⟩
    · rw [hx]
    · rw [hx, htag, htext ⟨p.tag, hjoin⟩]

theorem synonym_compiles_alike_math_number :
    Toolchain.standard.rule? "math_number" = some (.value .number)
    ∧ ∀ (w : Workspace) (chosen : String → Bool),
        ((w.retag (exchange chosen "math_number" "count")).compile
          (Toolchain.standard.addAlias "count" "math_number")).code
        = (w.compile (Toolchain.standard.addAlias "count" "math_number")).code :=
  have h : Toolchain.standard.rule? "math_number" = some (.value .number) := by decide
  ⟨h, (synonym_compiles_alike_iff .standard h "count").1.mpr ⟨fun _ => by decide, fun hc => nomatch hc⟩⟩

/-- a part of a joined text with another tag for `text` is converted to text once more -/
theorem synonym_of_text_differs :
    (Workspace.compile (Toolchain.standard.addAlias "my_text" "text")
      ⟨[⟨"j", "text_join", [], [("ADD0", ⟨"a", "text", [("TEXT", .string "x")], [], [], none⟩)], [],
        none⟩]⟩).code = "\"x\"\n"
    ∧ (Workspace.compile (Toolchain.standard.addAlias "my_text" "text")
      (Workspace.retag (exchange (fun _ => true) "text" "my_text")
        ⟨[⟨"j", "text_join", [], [("ADD0", ⟨"a", "text", [("TEXT", .string "x")], [], [], none⟩)], [],
          none⟩]⟩)).code = "str(\"x\")\n" := by
  decide +kernel

end VisualProgram
