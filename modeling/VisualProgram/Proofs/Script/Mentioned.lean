import VisualProgram.Proofs.Script.Synonyms

/-!
# Rules that a workspace does not mention

A toolchain may hold many rules, but a block is compiled by the rule of its own tag, and the rule is given
nothing but what is in the sockets of the block.  So a compilation looks up the tags of its blocks and
nothing else: two toolchains that agree on these tags (`AgreeOn`) compile the workspace alike, whatever
other rules they have (`compile_only_mentioned`).

A toolchain is changed by registrations.  One that is not for a tag of the workspace leaves the agreement as
it is (`Registration.agreeOn`), and so do any number of them (`agreeOn_register`).
-/

namespace VisualProgram

def Block.tags (b : Block) : List String := b.walk.map Block.tag

/-- the tags that occur anywhere in a workspace -/
def Workspace.tags (w : Workspace) : List String := w.blocks.flatMap Block.tags

/-! ## toolchains that agree -/

namespace Toolchain

/-- the same indentation, and the same rules for some tags -/
structure AgreeOn (tags : List String) (t t' : Toolchain) : Prop where
  indent : t.options.indent = t'.options.indent
  rules : ∀ tag ∈ tags, t.rule? tag = t'.rule? tag

section
variable {t t' : Toolchain} {tags : List String}

theorem AgreeOn.refl (tags : List String) (t : Toolchain) : AgreeOn tags t t := ⟨rfl, fun _ _ => rfl⟩

theorem AgreeOn.trans {t'' : Toolchain} (h : AgreeOn tags t t') (h' : AgreeOn tags t' t'') :
    AgreeOn tags t t'' :=
  ⟨h.indent.trans h'.indent, fun tag hm => (h.rules tag hm).trans (h'.rules tag hm)⟩

theorem AgreeOn.valueOf (h : AgreeOn tags t t') (site : Site) (hs : site.tag ∈ tags) :
    t.valueOf site = t'.valueOf site := by
  unfold Toolchain.valueOf
  rw [h.rules site.tag hs, h.indent]

theorem AgreeOn.statementOf (h : AgreeOn tags t t') (site : Site) (hs : site.tag ∈ tags) :
    t.statementOf site = t'.statementOf site := by
  unfold Toolchain.statementOf
  rw [h.rules site.tag hs, h.indent]

end

end Toolchain

/-! ## one compilation under both -/

section
open Toolchain
variable {t t' : Toolchain} {tags : List String}

mutual
theorem Block.compile_agree (h : AgreeOn tags t t') : (b : Block) → b.tags ⊆ tags →
    b.compile t = b.compile t'
  | ⟨id, tag, fields, inputs, statements, next⟩, hb => by
    simp only [Block.tags, walk, List.map_cons, List.map_append, List.cons_subset, List.append_subset] at hb
    obtain ⟨hself, ⟨hi, hs⟩, hn⟩ := hb
    rw [compile, compile, compileSockets_agree h inputs hi, compileSockets_agree h statements hs,
      compileNext_agree h next hn]
    simp only [h.valueOf ⟨id, tag, fields, _, _⟩ hself, h.statementOf ⟨id, tag, fields, _, _⟩ hself]

theorem Block.compileSockets_agree (h : AgreeOn tags t t') : (sockets : List (String × Block)) →
    (walkSockets sockets).map Block.tag ⊆ tags → compileSockets t sockets = compileSockets t' sockets
  | [], _ => rfl
  | (socket, child) :: rest, hb => by
    rw [walkSockets, List.map_append, List.append_subset] at hb
    rw [compileSockets, compileSockets, compile_agree h child hb.1, compileSockets_agree h rest hb.2]

theorem Block.compileNext_agree (h : AgreeOn tags t t') : (next : Option Block) →
    (walkNext next).map Block.tag ⊆ tags → compileNext t next = compileNext t' next
  | none, _ => rfl
  | some b, hb => by
    rw [walkNext] at hb
    rw [compileNext, compileNext, compile_agree h b hb]
end

theorem Workspace.compileChains_agree (h : AgreeOn tags t t') (blocks : List Block)
    (hb : blocks.flatMap Block.tags ⊆ tags) : compileChains t blocks = compileChains t' blocks := by
  induction blocks with
  | nil => rfl
  | cons b rest ih =>
    rw [List.flatMap_cons, List.append_subset] at hb
    have hchain : Block.compileChain t (some b) = Block.compileChain t' (some b) :=
      Block.compileNext_agree h (some b) hb.1
    rw [compileChains, compileChains, hchain, ih hb.2]

/-- in whatever session a workspace is compiled, the tags it mentions decide -/
theorem Workspace.compileIn_agree {w : Workspace} (h : AgreeOn w.tags t t') (s : Session) :
    w.compileIn t s = w.compileIn t' s := by
  unfold compileIn
  rw [compileChains_agree h w.blocks (List.Subset.refl _)]

end

/-! ## registrations -/

/-- what can be registered in a toolchain -/
inductive Registration where
  | rule (tag : String) (form : Rule)
  | synonym (tag existing : String)
  | component (type : String) (cls : ComponentClass)

namespace Registration

def apply (t : Toolchain) : Registration → Toolchain
  | .rule tag form => t.addRule tag form
  | .synonym tag existing => t.addAlias tag existing
  | .component type cls => t.addClass type cls

/-- the tag whose rule is set -/
def tag? : Registration → Option String
  | .rule tag _ => some tag
  | .synonym tag _ => some tag
  | .component _ _ => none

/-- a registration sets the rule of its own tag only, and no option -/
theorem agreeOn {tags : List String} {r : Registration} (h : ∀ tag ∈ r.tag?, tag ∉ tags) (t : Toolchain) :
    Toolchain.AgreeOn tags (r.apply t) t := by
  have hadd : ∀ (tag : String) (form : Rule), tag ∉ tags → Toolchain.AgreeOn tags (t.addRule tag form) t := by
    intro tag form htag
    refine ⟨rfl, fun other hother => ?_⟩
    rw [Toolchain.rule?_addRule, if_neg]
    rintro rfl
    exact htag hother
  cases r with
  | rule tag form => exact hadd tag form (h tag rfl)
  | synonym tag existing =>
    show Toolchain.AgreeOn tags (t.addAlias tag existing) t
    unfold Toolchain.addAlias
    split
    next form _ => exact hadd tag form (h tag rfl)
    next => exact .refl tags t
  | component type cls => exact ⟨rfl, fun _ _ => rfl⟩

end Registration

/-- the toolchain after some registrations, of which a later one replaces an earlier one of its name -/
def Toolchain.register (t : Toolchain) (registrations : List Registration) : Toolchain :=
  registrations.foldl Registration.apply t

theorem Toolchain.agreeOn_register {tags : List String} (registrations : List Registration)
    (h : ∀ r ∈ registrations, ∀ tag ∈ r.tag?, tag ∉ tags) (t : Toolchain) :
    AgreeOn tags (t.register registrations) t := by
  induction registrations generalizing t with
  | nil => exact .refl tags t
  | cons r rest ih =>
    obtain ⟨hr, hrest⟩ := List.forall_mem_cons.mp h
    exact (ih hrest (r.apply t)).trans (r.agreeOn hr t)

/-! ## whole scripts -/

/-- two toolchains with equal options and the same rules for the tags that occur in a workspace compile it to
the same code and report the same, also in a session that already holds something.  So whatever is registered
for other tags, be it a new rule, an alias or a rule in place of an old one, changes nothing -/
theorem compile_only_mentioned (w : Workspace) :
    (∀ t t' : Toolchain, t.options = t'.options → (∀ tag ∈ w.tags, t.rule? tag = t'.rule? tag) →
      w.compile t = w.compile t' ∧ ∀ s : Session, w.compileIn t s = w.compileIn t' s)
    ∧ ∀ (t : Toolchain) (registrations : List Registration),
      (∀ r ∈ registrations, ∀ tag ∈ r.tag?, tag ∉ w.tags) →
      w.compile (t.register registrations) = w.compile t
        ∧ ∀ s : Session, w.compileIn (t.register registrations) s = w.compileIn t s := by
  refine ⟨fun t t' ho hr => ?_, fun t registrations h => ?_⟩
  · have hagree : Toolchain.AgreeOn w.tags t t' := ⟨congrArg Options.indent ho, hr⟩
    exact ⟨Workspace.compileIn_agree hagree .initial, Workspace.compileIn_agree hagree⟩
  · have hagree := Toolchain.agreeOn_register registrations h t
    exact ⟨Workspace.compileIn_agree hagree .initial, Workspace.compileIn_agree hagree⟩

/-- a text in a loop, with a block whose tag has no rule -/
def sampleMention : Workspace :=
  ⟨[⟨"l", "controls_whileUntil", [], [],
    [("DO", ⟨"p", "text_print", [], [("TEXT", ⟨"x", "text", [("TEXT", .string "hi")], [], [], none⟩)], [],
      some (.leaf "g" "gadget")⟩)], none⟩]⟩

/-- a rule replaced, a rule for a new tag and two aliases, one of them of a tag that occurs -/
def sampleRegistrations : List Registration :=
  [.rule "math_number" (.statement .unknown), .rule "gizmo" (.value .truth), .synonym "math_number" "gizmo",
    .synonym "caption" "text"]

theorem compile_only_mentioned_sampleMention :
    (Toolchain.standard.register sampleRegistrations).rule? "math_number" = some (.value .truth)
    ∧ Toolchain.standard.rule? "math_number" = some (.value .number)
    ∧ sampleMention.tags = ["controls_whileUntil", "text_print", "text", "gadget"]
    ∧ (sampleMention.compile (.register .standard sampleRegistrations)).code
      = "while False:\n    print(\"hi\")\n    # Unknown block type 'gadget' (g)\n"
    ∧ sampleMention.compile (.register .standard sampleRegistrations) = sampleMention.compile .standard := by
  have hother : ∀ r ∈ sampleRegistrations, ∀ tag ∈ r.tag?, tag ∉ sampleMention.tags := by decide
  obtain ⟨hsame, -⟩ := (compile_only_mentioned sampleMention).2 .standard sampleRegistrations hother
  exact ⟨by decide, by decide, by decide, by rw [hsame]; decide +kernel, hsame⟩

end VisualProgram
