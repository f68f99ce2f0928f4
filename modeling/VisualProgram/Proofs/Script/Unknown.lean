import VisualProgram.Proofs.Script.Bodies
import VisualProgram.Proofs.Script.Outline
import VisualProgram.Proofs.Script.SideBySide
import VisualProgram.Proofs.Workspace.Commuting
import VisualProgram.Proofs.Workspace.Placement

/-!
# Unknown blocks in a chain

A block without a rule leaves a comment where it stands and one report; nothing else changes.  The script of a
workspace is compared with that of the workspace in which such a block comes after a block `x`.

* `Meets`             some steps come to `x` as a statement once, and the second of two compilations has the
                      comment after the code of `x` and one report more;
* `Degrades`          two compilations run alike and `x` is not met, or it is met once;
* `Context.degrades`  this is so for a tree around `x`, by induction on the context.

The comment does not run, so a suite that has to say `pass` still does, at every depth.
-/

namespace VisualProgram

/-! ## an unknown block after another -/

namespace Block

/-- the block with another one between it and the rest of its chain -/
def linkAfter (x u : Block) : Block := x.setNext (some (u.setNext x.next))

def unknownReport (u : Block) : Diagnostic := ⟨u.id, .unknownBlockType, "unknown block type '" ++ u.tag ++ "'"⟩

theorem isControl_unknownMark (tag id : String) :
    ∀ c ∈ (Site.unknownMark tag id).toList, Text.isControl c = false := by
  have hfixed : ∀ {text : String}, text.toList.any Text.isControl = false →
      ∀ c ∈ text.toList, Text.isControl c = false := fun h => by simpa using h
  unfold Site.unknownMark
  iterate 4 rw [String.toList_append, List.forall_mem_append]
  exact ⟨⟨⟨⟨hfixed (by decide), Text.isControl_commentText _⟩, hfixed (by decide)⟩, Text.isControl_commentText _⟩,
    hfixed (by decide)⟩

theorem head?_unknownMark (tag id : String) : (Site.unknownMark tag id).toList.head? = some '#' := by
  have hopening : "# Unknown block type '".toList = '#' :: " Unknown block type '".toList := rfl
  unfold Site.unknownMark
  iterate 4 rw [String.toList_append]
  rw [hopening]
  rfl

/-- the comment that stands for the block if it has no rule -/
def mark (u : Block) : String := Site.unknownMark u.tag u.id

/-- on every level the comment is one line, and none that runs -/
theorem indented_mark {unit : String} {n : Nat} (hunit : unit.toList = List.replicate n ' ') (u : Block)
    (level : Nat) :
    Text.indented unit level (u.mark ++ "\n") = Text.pad unit level ++ u.mark ++ "\n"
      ∧ Text.lines (Text.pad unit level ++ u.mark ++ "\n") = [(Text.pad unit level ++ u.mark).toList]
      ∧ Text.isExecutable (Text.pad unit level ++ u.mark).toList = false := by
  refine Text.indented_comment hunit (fun h => ?_) (fun h => ?_) (head?_unknownMark _ _) level
  · exact absurd (isControl_unknownMark _ _ _ h) (by decide)
  · exact absurd (isControl_unknownMark _ _ _ h) (by decide)

theorem statementOf_unknown {t : Toolchain} {u : Block} (hu : t.rule? u.tag = none) (next : Option Block) :
    t.statementOf ((u.setNext next).site t) =
      (modify (Session.report u.unknownReport) >>= fun _ => pure (u.mark ++ "\n")) := by
  have hcomment : ((u.setNext next).site t).unknownComment = u.mark ++ "\n" :=
    Site.unknownComment_eq _
  rw [← hcomment]
  unfold Toolchain.statementOf
  rw [show t.rule? ((u.setNext next).site t).tag = none from hu]
  rfl

end Block

section
variable (t : Toolchain) (x u : Block)

/-- the steps `lead` come to `x` as a statement, which neither they nor the steps `tail` after it do again.  The
second compilation has the comment for `u` right after the code of `x`, `level` levels deep, and the report -/
structure Meets (level : Nat) (lead tail : List Action) (m m' : Script String) : Prop where
  spares_lead : Spares x.id lead
  spares_tail : Spares x.id tail
  code : ∀ s, Text.Inserted
    (Text.indented t.options.indent level (Text.terminated ((t.statementOf (x.site t)).run (s.follow lead)).1))
    (Text.indented t.options.indent level (u.mark ++ "\n")) (m.run s).1 (m'.run s).1
  session : ∀ s, ∃ before, Session.Ahead before [u.unknownReport] (m.run s).2 (m'.run s).2

/-- either `x` is not met and the compilations run alike, or it is met once -/
def Degrades (level : Nat) (actions : List Action) (m m' : Script String) : Prop :=
  (Spares x.id actions ∧ SameRun m m')
    ∨ ∃ lead tail, actions = lead ++ .enter x .statement :: tail ∧ Meets t x u level lead tail m m'

end

namespace Meets
variable {α : Type} {t : Toolchain} {x u : Block} {level : Nat} {lead tail : List Action} {m m' : Script String}

/-- lines in front -/
theorem prepend (h : Meets t x u level lead tail m m') {first first' : Script α} {actions : List Action}
    {f : α → String} (hsame : SameRun first first') (hfollow : ∀ s, (first.run s).2 = s.follow actions)
    (hspares : Spares x.id actions) (hlined : ∀ s, Text.Lined (f (first.run s).1)) :
    Meets t x u level (actions ++ lead) tail (first >>= fun a => m >>= fun b => pure (f a ++ b))
      (first' >>= fun a => m' >>= fun b => pure (f a ++ b)) := by
  refine ⟨spares_append.mpr ⟨hspares, h.spares_lead⟩, h.spares_tail, fun s => ?_, fun s => ?_⟩
  · have hcode := (h.code (first.run s).2).prepend (hlined s)
    rw [Session.follow_append, ← hfollow]
    show Text.Inserted _ _ _ (f (first'.run s).1 ++ (m'.run (first'.run s).2).1)
    rw [← hsame.run_eq s]
    exact hcode
  · show ∃ before, Session.Ahead before _ _ (m'.run (first'.run s).2).2
    rw [← hsame.run_eq s]
    exact h.session _

/-- code behind -/
theorem append (h : Meets t x u level lead tail m m') {last last' : Script String} {actions : List Action}
    (hsame : SameRun last last') (hspares : Spares x.id actions) :
    Meets t x u level lead (tail ++ actions) (m >>= fun a => last >>= fun b => pure (a ++ b))
      (m' >>= fun a => last' >>= fun b => pure (a ++ b)) := by
  refine ⟨h.spares_lead, spares_append.mpr ⟨h.spares_tail, hspares⟩, fun s => ?_, fun s => ?_⟩
  · obtain ⟨before, hahead⟩ := h.session s
    have hlast := (hsame _ _ _ _ hahead).1
    show Text.Inserted _ _ ((m.run s).1 ++ (last.run (m.run s).2).1) ((m'.run s).1 ++ (last'.run (m'.run s).2).1)
    rw [← hlast]
    exact (h.code s).append _
  · obtain ⟨before, hahead⟩ := h.session s
    exact ⟨before, (hsame _ _ _ _ hahead).2⟩

theorem enter (h : Meets t x u level lead tail m m') {b : Block} (hb : b.id ≠ x.id) (role : Role) :
    Meets t x u level (.enter b role :: lead) tail m m' :=
  ⟨h.spares_lead.cons_enter hb role, h.spares_tail, h.code, h.session⟩

/-- in a body everything is a level deeper, and `pass` is said or not as before -/
theorem asBody {n : Nat} (hunit : t.options.indent.toList = List.replicate n ' ')
    (h : Meets t x u level lead tail m m') :
    Meets t x u (level + 1) lead tail (m >>= fun code => pure (Site.asBody t.options.indent code))
      (m' >>= fun code => pure (Site.asBody t.options.indent code)) := by
  obtain ⟨hmark, hlines, hquiet⟩ := u.indented_mark hunit level
  have hany : (Text.lines (Text.indented t.options.indent level (u.mark ++ "\n"))).any Text.isExecutable
      = false := by
    rw [hmark, hlines, List.any_cons, hquiet]
    rfl
  have hrun : ∀ (m : Script String) (f : String → String) (s : Session),
      (m >>= fun code => pure (f code)).run s = (f (m.run s).1, (m.run s).2) := fun _ _ _ => rfl
  refine ⟨h.spares_lead, h.spares_tail, fun s => ?_, fun s => ?_⟩
  · have hown := (Text.lined_terminated ((t.statementOf (x.site t)).run (s.follow lead)).1).indented
      t.options.indent level
    have hextra := (Text.lined_newline u.mark).indented t.options.indent level
    have hbody := (h.code s).asBody t.options.indent hown hextra hany
    rw [hrun, hrun]
    dsimp only
    rw [Text.indented, Text.indented]
    exact hbody
  · rw [hrun, hrun]
    exact h.session s

end Meets

/-- a newline is not missing where there are whole lines -/
theorem bind_terminated {m : Script String} (h : ∀ s, Text.Lined (m.run s).1) (last : Script String) :
    (m >>= fun text => last >>= fun rest => pure (Text.terminated text ++ rest))
      = (m >>= fun text => last >>= fun rest => pure (text ++ rest)) := by
  funext s
  show (Text.terminated (m.run s).1 ++ (last.run (m.run s).2).1, (last.run (m.run s).2).2) = _
  rw [(h s).terminated]
  rfl

/-! ## one block around -/

namespace Block
variable {t : Toolchain} {x u : Block}

theorem resembles_self (t : Toolchain) (b : Block) : (b.site t).Resembles (b.site t) :=
  ⟨rfl, rfl, rfl, compileSockets_same (steadySockets t b.inputs), rfl⟩

theorem body_sameRun_of_eq {b b' : Block} {socket : String} (h : b.statement? socket = b'.statement? socket) :
    SameRun ((b.site t).body t.options.indent socket) ((b'.site t).body t.options.indent socket) := by
  refine Site.body_sameRun _ ?_
  rw [b.get?_statements_site t, b'.get?_statements_site t, h]
  cases b'.statement? socket with
  | none => exact .inl ⟨rfl, rfl⟩
  | some child => exact .inr ⟨_, _, rfl, rfl, (steady t child).chain⟩

theorem body_eq {b : Block} {socket : String} {child : Block} (hget : b.statement? socket = some child) :
    (b.site t).body t.options.indent socket
      = ((child.compile t).chain >>= fun code => pure (Site.asBody t.options.indent code)) := by
  unfold Site.body
  rw [b.get?_statements_site t, hget]
  rfl

theorem chain_split {b : Block} {rule : StatementRule} {above below : List Template.Line} {socket : String}
    (hrule : t.statementRule? (b.site t).tag = some rule)
    (hlines : rule.lines (b.site t) = above ++ .body socket :: below) :
    (b.compile t).chain = (((b.site t).opening t.options.indent (rule.note (b.site t)) above >>= fun first =>
      ((b.site t).body t.options.indent socket >>= fun body =>
        (b.site t).renderLines t.options.indent below >>= fun rest => pure (body ++ rest))
      >>= fun more => pure (first ++ more))
        >>= fun text => compileNext t b.next >>= fun rest => pure (text ++ rest)) := by
  rw [compile_eq, bind_terminated (Toolchain.lined_statementOf hrule), Toolchain.statementOf_split hrule hlines]

/-- the comment comes right after the block itself -/
theorem meets_linkAfter (hu : t.rule? u.tag = none) (hstatements : x.id ∉ recordIds (recordsSockets x.statements))
    (hnext : x.id ∉ recordIds (recordsNext x.next)) :
    Meets t x u 0 [] (x.steps t (t.statementEffects (x.site t)) ++ nextTrace t x.next) (x.compile t).chain
      ((x.linkAfter u).compile t).chain := by
  have hchain : ((x.linkAfter u).compile t).chain = (t.statementOf (x.site t) >>= fun text =>
      modify (Session.report u.unknownReport) >>= fun _ =>
        compileNext t x.next >>= fun rest => pure (Text.terminated text ++ (u.mark ++ "\n" ++ rest))) := by
    rw [compile_eq]
    show (t.statementOf (x.site t) >>= fun text => ((u.setNext x.next).compile t).chain >>= fun rest => _) = _
    rw [compile_eq, statementOf_unknown hu]
    simp only [bind_assoc, pure_bind, (Text.lined_newline u.mark).terminated]
    rfl
  have hspares : Spares x.id (x.steps t (t.statementEffects (x.site t))) :=
    spares_steps fun socket child _ hget =>
      spares_chainTraces t x.id x.statements hstatements _ (Assoc.mem_of_get? hget)
  have hsame := fun s : Session => steadyNext t x.next _ _ _ _ (Session.Ahead.of_report s u.unknownReport)
  rw [hchain, compile_eq]
  refine ⟨spares_nil _, spares_append.mpr ⟨hspares, spares_nextTrace t x.id x.next hnext⟩, fun s => ?_, fun s => ?_⟩
  · refine ⟨"", ((compileNext t x.next).run ((t.statementOf (x.site t)).run s).2).1, Text.lined_empty, ?_, ?_⟩
    · rw [String.empty_append]
      rfl
    · rw [String.empty_append, (hsame _).1, String.append_assoc]
      rfl
  · exact ⟨_, (hsame _).2⟩

section
variable {b b' : Block} (hsite : (b.site t).Resembles (b'.site t)) (hid : b.id ≠ x.id)
  (hnext : SameRun (compileNext t b.next) (compileNext t b'.next)) (hspares : Spares x.id (nextTrace t b.next))
include hsite hid hnext hspares

/-- nothing changes if the bodies that are asked for run alike -/
theorem degrades_of_bodies (level : Nat) (hbodies : ∀ socket, .body socket ∈ t.lines (b.site t) →
      SameRun ((b.site t).body t.options.indent socket) ((b'.site t).body t.options.indent socket)
      ∧ ∀ child, b.statement? socket = some child → Spares x.id (child.chainTrace t)) :
    Degrades t x u level (b.chainTrace t) (b.compile t).chain (b'.compile t).chain := by
  refine .inl ⟨?_, sameRun_of_resembles hsite (fun socket hmem => (hbodies socket hmem).1) hnext⟩
  rw [chainTrace_eq]
  refine spares_append.mpr ⟨Spares.cons_enter (spares_steps fun socket child hmem hget => ?_) hid _, hspares⟩
  exact (hbodies socket (Toolchain.body_mem_lines hmem)).2 child hget

/-- if one of the bodies has the comment, then so has the block, a level deeper -/
theorem meets_body {n level : Nat} {lead tail : List Action} {socket : String} {child child' : Block}
    (hlinear : t.IsLinear) (hunit : t.options.indent.toList = List.replicate n ' ')
    (hmem : .body socket ∈ t.lines (b.site t)) (hget : b.statement? socket = some child)
    (hget' : b'.statement? socket = some child')
    (hothers : ∀ other, other ≠ socket →
      SameRun ((b.site t).body t.options.indent other) ((b'.site t).body t.options.indent other)
      ∧ ∀ child, b.statement? other = some child → Spares x.id (child.chainTrace t))
    (htrace : child.chainTrace t = lead ++ .enter x .statement :: tail)
    (h : Meets t x u level lead tail (child.compile t).chain (child'.compile t).chain) :
    ∃ lead' tail', b.chainTrace t = lead' ++ .enter x .statement :: tail'
      ∧ Meets t x u (level + 1) lead' tail' (b.compile t).chain (b'.compile t).chain := by
  obtain ⟨rule, above, below, hrule, hlines, habove, hbelow⟩ := Toolchain.lines_split hlinear hmem
  have hrule' : t.statementRule? (b'.site t).tag = some rule := by rw [← hsite.tag, hrule]
  have hlines' : rule.lines (b'.site t) = above ++ .body socket :: below := by rw [← hsite.lines_eq, hlines]
  have hothers_above := fun other (hother : .body other ∈ above) =>
    hothers other fun heq => habove (heq ▸ hother)
  have hothers_below := fun other (hother : .body other ∈ below) =>
    hothers other fun heq => hbelow (heq ▸ hother)
  -- the report and the lines above
  have hfirst : SameRun ((b.site t).opening t.options.indent (rule.note (b.site t)) above)
      ((b'.site t).opening t.options.indent (rule.note (b'.site t)) above) := by
    rw [← hsite.note_eq]
    exact (hsite.note _).bind fun _ => hsite.renderLines _ fun other hother => (hothers_above other hother).1
  have hspares_first : Spares x.id (b.steps t ((rule.note (b.site t)).effects
      ++ above.flatMap (b.site t).lineEffects)) := spares_steps fun other child hmem =>
    (hothers_above other (Site.body_mem_of_effects _ hmem)).2 child
  -- the lines below
  have hlast := hsite.renderLines t.options.indent fun other hother => (hothers_below other hother).1
  have hspares_last : Spares x.id (b.steps t (below.flatMap (b.site t).lineEffects)) :=
    spares_steps fun other child hmem =>
      (hothers_below other (@Site.body_mem_of_effects _ none _ _ hmem)).2 child
  have hmeets := (h.asBody hunit).append hlast hspares_last
  rw [← body_eq hget, ← body_eq hget'] at hmeets
  have hstatement := hmeets.prepend (f := fun first => first) hfirst
    (Site.opening_acts t.options.indent (b.site t) _ above).follow hspares_first (Site.lined_opening _ _ _ _)
  have hchain := (hstatement.append hnext hspares).enter hid .statement
  rw [← chain_split hrule hlines, ← chain_split hrule' hlines'] at hchain
  refine ⟨_, _, ?_, hchain⟩
  have hbody : ∀ more, b.steps t (.body socket :: more) = child.chainTrace t ++ b.steps t more := by
    intro more
    rw [← List.singleton_append, steps_append, steps_body hget]
  rw [chainTrace_eq, Toolchain.statementEffects_split hrule hlines, steps_append, hbody, htrace]
  simp only [List.append_assoc, List.cons_append]

/-- the block `x` is in one of the statement sockets -/
theorem degrades_body {n level : Nat} {left right : List (String × Block)} {socket : String} {child child' : Block}
    (hlinear : t.IsLinear) (hunit : t.options.indent.toList = List.replicate n ' ')
    (hb : b.statements = left ++ (socket, child) :: right) (hb' : b'.statements = left ++ (socket, child') :: right)
    (hleft : x.id ∉ recordIds (recordsSockets left)) (hright : x.id ∉ recordIds (recordsSockets right))
    (h : Degrades t x u level (child.chainTrace t) (child.compile t).chain (child'.compile t).chain) :
    Degrades t x u (level + 1) (b.chainTrace t) (b.compile t).chain (b'.compile t).chain := by
  -- what is found beside it is the same in both, and spares `x`
  have hothers : ∀ other, ¬(other = socket ∧ Assoc.get? other left = none) →
      SameRun ((b.site t).body t.options.indent other) ((b'.site t).body t.options.indent other)
      ∧ ∀ child, b.statement? other = some child → Spares x.id (child.chainTrace t) := by
    intro other hother
    have hget : b.statement? other = Assoc.get? other (left ++ right) := by
      rw [statement?, hb, Assoc.get?_middle hother]
    have hget' : b'.statement? other = Assoc.get? other (left ++ right) := by
      rw [statement?, hb', Assoc.get?_middle hother]
    refine ⟨body_sameRun_of_eq (hget.trans hget'.symm), fun child hchild => ?_⟩
    rcases List.mem_append.mp (Assoc.mem_of_get? (hget.symm.trans hchild)) with hmem | hmem
    · exact spares_chainTraces t x.id left hleft _ hmem
    · exact spares_chainTraces t x.id right hright _ hmem
  by_cases hfound : Assoc.get? socket left = none
  · have hget : b.statement? socket = some child := by rw [statement?, hb, Assoc.get?_middle_self hfound]
    have hget' : b'.statement? socket = some child' := by rw [statement?, hb', Assoc.get?_middle_self hfound]
    rcases h with ⟨hinner, hsame⟩ | ⟨lead, tail, htrace, hmeets⟩
    · refine degrades_of_bodies hsite hid hnext hspares _ fun other _ => ?_
      by_cases hother : other = socket
      · subst hother
        refine ⟨Site.body_sameRun _ (.inr ⟨_, _, ?_, ?_, hsame⟩), fun found hchild => ?_⟩
        · rw [b.get?_statements_site t, hget, Option.map_some]
        · rw [b'.get?_statements_site t, hget', Option.map_some]
        · obtain rfl : child = found := Option.some.inj (hget.symm.trans hchild)
          exact hinner
      · exact hothers other fun h => hother h.1
    · by_cases hmem : .body socket ∈ t.lines (b.site t)
      · exact .inr (meets_body hsite hid hnext hspares hlinear hunit hmem hget hget'
          (fun other hother => hothers other fun h => hother h.1) htrace hmeets)
      · exact degrades_of_bodies hsite hid hnext hspares _ fun other hother =>
          hothers other fun h => hmem (h.1 ▸ hother)
  · exact degrades_of_bodies hsite hid hnext hspares _ fun other _ =>
      hothers other fun h => hfound (h.1 ▸ h.2)

end

/-- the block `x` comes later in the chain -/
theorem degrades_next {level : Nat} {b child child' : Block} (hid : b.id ≠ x.id)
    (hstatements : x.id ∉ recordIds (recordsSockets b.statements))
    (h : Degrades t x u level (child.chainTrace t) (child.compile t).chain (child'.compile t).chain) :
    Degrades t x u level ((b.setNext (some child)).chainTrace t) ((b.setNext (some child)).compile t).chain
      ((b.setNext (some child')).compile t).chain := by
  have hsite : ((b.setNext (some child)).site t).Resembles ((b.setNext (some child')).site t) := b.resembles_self t
  have hbodies : ∀ socket, SameRun (((b.setNext (some child)).site t).body t.options.indent socket)
      (((b.setNext (some child')).site t).body t.options.indent socket) := fun socket => body_sameRun_of_eq rfl
  have hspares : ∀ socket found, (b.setNext (some child)).statement? socket = some found →
      Spares x.id (found.chainTrace t) := fun socket found hget =>
    spares_chainTraces t x.id b.statements hstatements _ (Assoc.mem_of_get? hget)
  rcases h with ⟨hinner, hsame⟩ | ⟨lead, tail, htrace, hmeets⟩
  · exact degrades_of_bodies hsite hid hsame hinner _ fun socket _ => ⟨hbodies socket, hspares socket⟩
  · have hchain := hmeets.prepend (f := Text.terminated) (hsite.statementOf t fun socket _ => hbodies socket)
      (Site.statementOf_acts t _).follow (spares_steps fun socket found _ => hspares socket found)
      fun s => Text.lined_terminated _
    have hcompile : ∀ q : Block, ((b.setNext (some q)).compile t).chain
        = (t.statementOf ((b.setNext (some q)).site t) >>= fun text => (q.compile t).chain >>= fun rest =>
          pure (Text.terminated text ++ rest)) := fun q => by
      rw [compile_eq]
      rfl
    rw [← hcompile, ← hcompile] at hchain
    refine .inr ⟨_, tail, ?_, hchain.enter (b := b.setNext (some child)) hid .statement⟩
    rw [chainTrace_eq]
    show _ ++ child.chainTrace t = _
    rw [htrace]
    simp only [List.cons_append, List.append_assoc]

end Block

/-! ## any number of blocks around -/

namespace Block

/-- the levels between the top and the chain of the hole -/
def Context.depth : Context → Nat
  | .hole => 0
  | .input _ _ _ _ _ inner _ _ _ => inner.depth
  | .statement _ _ _ _ _ _ inner _ _ => inner.depth + 1
  | .after _ _ _ _ _ inner => inner.depth

section
variable {t : Toolchain} {x u : Block} {n : Nat} (hlinear : t.IsLinear)
  (hunit : t.options.indent.toList = List.replicate n ' ') (hu : t.rule? u.tag = none)
  (hstatements : x.id ∉ recordIds (recordsSockets x.statements)) (hnext : x.id ∉ recordIds (recordsNext x.next))
include hlinear hunit hu hstatements hnext

theorem Context.degrades (c : Context) (havoids : c.Avoids x.id) (hrest : x.id ∉ recordIds c.rest) :
    ((c.fill x).compile t).SameValue ((c.fill (x.linkAfter u)).compile t)
      ∧ Degrades t x u c.depth ((c.fill x).chainTrace t) ((c.fill x).compile t).chain
        ((c.fill (x.linkAfter u)).compile t).chain := by
  induction c with
  | hole =>
    refine ⟨sameValue_of_resembles (x.resembles_self t), .inr ⟨[], _, chainTrace_eq t x, ?_⟩⟩
    exact meets_linkAfter hu hstatements hnext
  | input id tag fields left socket inner right statements next ih =>
    obtain ⟨hid, -, hin⟩ := Context.avoids_input_iff.mp havoids
    simp only [Context.rest, mem_recordIds_append, not_or] at hrest
    obtain ⟨⟨⟨hrest, -⟩, hbelow⟩, hafter⟩ := hrest
    have hsite : (Block.site t ⟨id, tag, fields, left ++ (socket, inner.fill x) :: right, statements, next⟩).Resembles
        (Block.site t
          ⟨id, tag, fields, left ++ (socket, inner.fill (x.linkAfter u)) :: right, statements, next⟩) := by
      refine ⟨rfl, rfl, rfl, ?_, rfl⟩
      have hsplit : ∀ q : Block, compileSockets t (left ++ (socket, q) :: right)
          = compileSockets t left ++ (socket, q.compile t) :: compileSockets t right := fun q => by
        simp only [compileSockets_eq_map, List.map_append, List.map_cons]
      show List.Forall₂ _ (compileSockets t (left ++ _ :: right)) (compileSockets t (left ++ _ :: right))
      rw [hsplit, hsplit]
      exact List.rel_append (compileSockets_same (steadySockets t left))
        (.cons ⟨rfl, (ih hin hrest).1⟩ (compileSockets_same (steadySockets t right)))
    refine ⟨sameValue_of_resembles hsite, degrades_of_bodies hsite hid (steadyNext t next)
      (spares_nextTrace t x.id next hafter) _ fun other _ => ⟨body_sameRun_of_eq rfl, fun child hget => ?_⟩⟩
    exact spares_chainTraces t x.id statements hbelow _ (Assoc.mem_of_get? hget)
  | statement id tag fields inputs left socket inner right next ih =>
    obtain ⟨hid, -, hleft, hin⟩ := Context.avoids_statement_iff.mp havoids
    simp only [Context.rest, mem_recordIds_append, not_or] at hrest
    obtain ⟨⟨hrest, hright⟩, hafter⟩ := hrest
    have hsite : (Block.site t ⟨id, tag, fields, inputs, left ++ (socket, inner.fill x) :: right, next⟩).Resembles
        (Block.site t ⟨id, tag, fields, inputs, left ++ (socket, inner.fill (x.linkAfter u)) :: right, next⟩) := by
      refine ⟨rfl, rfl, rfl, compileSockets_same (steadySockets t inputs), ?_⟩
      show Assoc.keys (compileSockets t (left ++ _ :: right)) = Assoc.keys (compileSockets t (left ++ _ :: right))
      simp only [compileSockets_eq_map, Assoc.keys, List.map_append, List.map_cons]
    exact ⟨sameValue_of_resembles hsite, degrades_body hsite hid (steadyNext t next)
      (spares_nextTrace t x.id next hafter) hlinear hunit rfl rfl hleft hright (ih hin hrest).2⟩
  | after id tag fields inputs statements inner ih =>
    obtain ⟨hid, -, hbelow, hin⟩ := Context.avoids_after_iff.mp havoids
    have hsite := resembles_self t ⟨id, tag, fields, inputs, statements, none⟩
    exact ⟨sameValue_of_resembles hsite,
      degrades_next (b := ⟨id, tag, fields, inputs, statements, none⟩) hid hbelow (ih hin hrest).2⟩

end

end Block

/-! ## whole scripts -/

section
open Python
variable {n : Nat}

theorem LaidOut.ne_empty {items : List Item} {code : String} (h : LaidOut n items code) (hne : items ≠ []) :
    code ≠ "" := by
  rintro rfl
  cases items with
  | nil => exact hne rfl
  | cons item rest =>
    have hnil := h.entries_nil
    rw [entriesOf, List.append_eq_nil_iff] at hnil
    cases item <;> simp [Item.entries] at hnil

theorem Site.Owns.ne_nil {suite : String → List Item → Prop} {site : Site} {items : List Item}
    (h : site.Owns suite items) : items ≠ [] := by
  rintro rfl
  unfold Site.Owns at h
  split at h
  next heads hheads =>
    cases h
    have hcount : 0 < site.branchCount :=
      lt_min (lt_min (Nat.succ_pos _) (by decide)) (Nat.succ_pos _)
    unfold Site.heads? at hheads
    split at hheads
    · simp only [Option.some.injEq, List.append_eq_nil_iff, List.map_eq_nil_iff, List.range_eq_nil] at hheads
      omega
    · split at hheads
      · cases hheads
      · split at hheads <;> cases hheads
  next =>
    obtain ⟨text, htext⟩ := h
    cases htext

/-- every chain has some code -/
theorem Block.chain_ne_empty {t : Toolchain} (ht : t.rules = Rule.Standard.table)
    (hunit : t.options.indent.toList = List.replicate n ' ') (b : Block) {s : Session} (hs : s.Tidy) :
    ((b.compile t).chain.run s).1 ≠ "" := by
  obtain ⟨-, items, hlaid, houtlined⟩ := (Block.compile_outlined ht hunit b).chain s hs
  refine hlaid.ne_empty ?_
  cases b
  rw [Block.Outlined] at houtlined
  obtain ⟨own, rest, rfl, -, howns, -⟩ := houtlined
  exact fun hnil => howns.ne_nil (List.append_eq_nil_iff.mp hnil).1

end

namespace Session

theorem Ahead.assemble {before extra : List Diagnostic} {a b : Session} (h : Ahead before extra a b)
    (chains : List String) : a.assemble chains = b.assemble chains := by
  simp only [Session.assemble, importSection, variableSection, h.imports, h.identifiers]

theorem inserted_assemble (s : Session) {own extra a b : String} (h : Text.Inserted own extra a b) (ha : a ≠ "")
    (hb : b ≠ "") (left right : List String) :
    Text.Inserted own extra (s.assemble (left ++ a :: right)) (s.assemble (left ++ b :: right)) := by
  have hsplit : ∀ code, code ≠ "" → s.assemble (left ++ code :: right) = String.intercalate "\n"
      (([s.importSection, s.variableSection] ++ left).filter (· ≠ "") ++ code :: right.filter (· ≠ "")) := by
    intro code hne
    rw [assemble, ← List.append_assoc, List.filter_append, List.filter_cons_of_pos (by simpa using hne)]
  rw [hsplit a ha, hsplit b hb]
  exact h.intercalate _ _

theorem not_mem_visits_of_spares {id : String} {actions : List Action} (h : Spares id actions) {s : Session}
    {v : Visit} (hid : v.block.id = id) (hrole : v.role = .statement) : v ∉ s.visits actions := by
  intro hv
  have henter := enter_mem_of_visit hv
  rw [hrole] at henter
  exact h _ henter hid

/-- a block that the other steps spare is visited once -/
theorem mem_visits_of_spares {x : Block} {lead tail : List Action} (hlead : Spares x.id lead)
    (htail : Spares x.id tail) {s : Session} {v : Visit} (hblock : v.block = x) (hrole : v.role = .statement) :
    v ∈ s.visits (lead ++ .enter x .statement :: tail) ↔ v = ⟨x, .statement, s.follow lead⟩ := by
  have hid : v.block.id = x.id := congrArg Block.id hblock
  rw [visits_append, List.mem_append, visits, List.mem_cons]
  refine ⟨fun h => ?_, fun h => .inr (.inl h)⟩
  rcases h with h | h | h
  · exact absurd h (not_mem_visits_of_spares hlead hid hrole)
  · exact h
  · exact absurd h (not_mem_visits_of_spares htail hid hrole)

end Session

namespace Workspace
open Block

theorem spares_trace {t : Toolchain} {id : String} {blocks : List Block}
    (h : ∀ b ∈ blocks, id ∉ recordIds b.records) : Spares id (blocks.flatMap (Block.chainTrace t)) := by
  intro y hy
  obtain ⟨b, hb, hmem⟩ := List.mem_flatMap.mp hy
  exact spares_chainTrace t id b (h b hb) y hmem

/-- without a repeated id, nothing that hangs on the block in the hole has its id -/
theorem Place.fresh_of_nodup {P : Place} {q : Block} (h : (P.fill q).ids.Nodup) :
    q.id ∉ recordIds (recordsSockets q.statements) ∧ q.id ∉ recordIds (recordsNext q.next) := by
  have hnodup := (Place.nodup_of_fill h).1
  cases q
  rw [records_mk, recordIds, List.map_cons, List.nodup_cons] at hnodup
  have hfresh := hnodup.1
  rw [← recordIds, mem_recordIds_append, mem_recordIds_append, not_or, not_or] at hfresh
  exact ⟨hfresh.1.2, hfresh.2⟩

/-- a script is made from the chains before the place, the chain of the place and those after it -/
theorem compile_fill (t : Toolchain) (P : Place) (q : Block) :
    (P.fill q).compile t = (
      let before := (compileChains t P.left).run .initial
      let chain := ((P.context.fill q).compile t).chain.run before.2
      let rest := (compileChains t P.right).run chain.2
      ⟨rest.2.assemble (before.1 ++ chain.1 :: rest.1), rest.2.diagnostics⟩) := by
  rw [compile, compileIn, Place.fill, compileChains_append]
  rfl

theorem trace_fill (t : Toolchain) (P : Place) (q : Block) :
    (P.fill q).trace t = P.left.flatMap (Block.chainTrace t)
      ++ ((P.context.fill q).chainTrace t ++ P.right.flatMap (Block.chainTrace t)) := by
  rw [trace, Place.fill, List.flatMap_append, List.flatMap_cons]

theorem compile_fill_of_sameRun {t : Toolchain} {P : Place} {q q' : Block}
    (h : SameRun ((P.context.fill q).compile t).chain ((P.context.fill q').compile t).chain) :
    (P.fill q').compile t = (P.fill q).compile t := by
  rw [compile_fill, compile_fill]
  dsimp only
  rw [h.run_eq]

/-- the comment in a chain is one in the script, and the report in it the only one more -/
theorem compile_fill_of_meets {P : Place} {x u q q' : Block} {level : Nat} {lead tail : List Action}
    (h : Meets .standard x u level lead tail ((P.context.fill q).compile .standard).chain
      ((P.context.fill q').compile .standard).chain) :
    Text.Inserted (Text.indented "    " level (Text.terminated
        ((Toolchain.standard.statementOf (x.site .standard)).run
          (Session.initial.follow (P.left.flatMap (Block.chainTrace .standard) ++ lead))).1))
      (Text.indented "    " level (u.mark ++ "\n")) ((P.fill q).compile .standard).code
      ((P.fill q').compile .standard).code
    ∧ ∃ before after, ((P.fill q).compile .standard).diagnostics = before ++ after
      ∧ ((P.fill q').compile .standard).diagnostics = before ++ u.unknownReport :: after := by
  have hunit : Toolchain.standard.options.indent.toList = List.replicate 4 ' ' := by decide
  have hfollow : ((compileChains .standard P.left).run .initial).2
      = Session.initial.follow (P.left.flatMap (Block.chainTrace .standard)) :=
    run_compileChains .standard ⟨P.left⟩ .initial
  obtain ⟨htidy, -⟩ := compileChains_outlined rfl hunit P.left .initial Session.tidy_initial
  obtain ⟨before, hahead⟩ := h.session ((compileChains .standard P.left).run .initial).2
  obtain ⟨hmore, hlast⟩ := compileChains_same .standard P.right _ _ _ _ hahead
  obtain ⟨after, hd, hd'⟩ := hlast.diagnostics
  rw [compile_fill, compile_fill, Session.follow_append, ← hfollow]
  refine ⟨?_, before, after, hd, hd'⟩
  dsimp only
  rw [← hmore, ← hlast.assemble]
  exact Session.inserted_assemble _ (h.code _) (chain_ne_empty rfl hunit _ htidy)
    (chain_ne_empty rfl hunit _ htidy) _ _

theorem Place.degrades {P : Place} {x u : Block} (hids : (P.fill x).ids.Nodup)
    (hu : Toolchain.standard.rule? u.tag = none) :
    (Spares x.id ((P.fill x).trace .standard)
      ∧ (P.fill (x.linkAfter u)).compile .standard = (P.fill x).compile .standard)
    ∨ ∃ lead tail, (P.fill x).trace .standard = lead ++ .enter x .statement :: tail ∧ Spares x.id lead
      ∧ Spares x.id tail
      ∧ Text.Inserted (Text.indented "    " P.context.depth (Text.terminated
          ((Toolchain.standard.statementOf (x.site .standard)).run (Session.initial.follow lead)).1))
        (Text.indented "    " P.context.depth (u.mark ++ "\n")) ((P.fill x).compile .standard).code
        ((P.fill (x.linkAfter u)).compile .standard).code
      ∧ ∃ before after, ((P.fill x).compile .standard).diagnostics = before ++ after
        ∧ ((P.fill (x.linkAfter u)).compile .standard).diagnostics = before ++ u.unknownReport :: after := by
  have hunit : Toolchain.standard.options.indent.toList = List.replicate 4 ' ' := by decide
  obtain ⟨hbefore, hrest⟩ := (Place.nodup_of_fill hids).2 x.id x.id_mem_records
  obtain ⟨hleft, havoids⟩ := Place.avoids_iff.mp hbefore
  obtain ⟨hstatements, hnext⟩ := Place.fresh_of_nodup hids
  rw [Place.rest, mem_recordIds_append, not_or] at hrest
  have hspares_left := spares_trace (t := .standard) hleft
  have hspares_right : Spares x.id (P.right.flatMap (Block.chainTrace .standard)) :=
    spares_trace fun b hb hmem => hrest.2 (by
      simp only [recordIds, List.map_flatMap]
      exact List.mem_flatMap.mpr ⟨b, hb, hmem⟩)
  rw [trace_fill]
  rcases (Context.degrades Toolchain.standard_isLinear hunit hu hstatements hnext P.context havoids hrest.1).2 with
    ⟨hspares, hsame⟩ | ⟨lead, tail, hsteps, hmeets⟩
  · exact .inl ⟨spares_append.mpr ⟨hspares_left, spares_append.mpr ⟨hspares, hspares_right⟩⟩,
      compile_fill_of_sameRun hsame⟩
  · refine .inr ⟨_, tail ++ P.right.flatMap (Block.chainTrace .standard), ?_,
      spares_append.mpr ⟨hspares_left, hmeets.spares_lead⟩,
      spares_append.mpr ⟨hmeets.spares_tail, hspares_right⟩, compile_fill_of_meets hmeets⟩
    rw [hsteps]
    simp only [List.append_assoc, List.cons_append]

/-- an unknown block degrades in place, and nowhere else: a block without a rule is put right after a block `x` of a
workspace.  If `x` is not compiled as a statement, the script stays as it is, and so do the diagnostics.  If it is,
the script has one line more: right after the code of `x` itself and as deep as that, the comment with the tag and
the id; and there is one diagnostic more -/
theorem unknown_degrades_in_place (w : Workspace) (hids : w.ids.Nodup) (x : Block) (hx : x ∈ w.walk) (u : Block)
    (hu : Toolchain.standard.rule? u.tag = none) :
    ∃ P : Place, P.fill x = w ∧ w.update? x.id (·.linkAfter u) = some (P.fill (x.linkAfter u))
      ∧ (let out := w.compile .standard
        let out' := (P.fill (x.linkAfter u)).compile .standard
        ((∀ v ∈ w.visits .standard, v.block = x → v.role ≠ .statement) → out' = out)
        ∧ ∀ v ∈ w.visits .standard, v.block = x → v.role = .statement →
          ∃ pre post before after,
            let own := Text.indented "    " P.context.depth (Text.terminated (v.text .standard))
            let line := Text.pad "    " P.context.depth ++ u.mark
            out.code = pre ++ own ++ post ∧ out'.code = pre ++ own ++ (line ++ "\n") ++ post
            ∧ Text.lines out.code = Text.lines pre ++ Text.lines own ++ Text.lines post
            ∧ Text.lines out'.code = Text.lines pre ++ Text.lines own ++ line.toList :: Text.lines post
            ∧ out.diagnostics = before ++ after ∧ out'.diagnostics = before ++ u.unknownReport :: after) := by
  obtain ⟨P, rfl⟩ := exists_place_of_mem hids hx
  refine ⟨P, rfl, P.update?_fill _ x (Place.avoids_of_nodup hids), ?_⟩
  rcases Place.degrades hids hu with ⟨hspares, hsame⟩ | ⟨lead, tail, htrace, hlead, htail, hcode, hdiagnostics⟩
  · refine ⟨fun _ => hsame, fun v hv hblock hrole => ?_⟩
    exact absurd hv (Session.not_mem_visits_of_spares hspares (congrArg Block.id hblock) hrole)
  · have hvisit : ∀ v : Visit, v.block = x → v.role = .statement →
        (v ∈ (P.fill x).visits .standard ↔ v = ⟨x, .statement, Session.initial.follow lead⟩) := by
      intro v hblock hrole
      rw [Workspace.visits, htrace]
      exact Session.mem_visits_of_spares hlead htail hblock hrole
    refine ⟨fun hnone => ?_, fun v hv hblock hrole => ?_⟩
    · exact absurd rfl (hnone _ ((hvisit ⟨x, .statement, _⟩ rfl rfl).mpr rfl) rfl)
    · obtain rfl := (hvisit v hblock hrole).mp hv
      obtain ⟨pre, post, hpre, hout, hout'⟩ := hcode
      obtain ⟨before, after, hd, hd'⟩ := hdiagnostics
      have hunit : "    ".toList = List.replicate 4 ' ' := by decide
      obtain ⟨hmark, hlines, -⟩ := u.indented_mark hunit P.context.depth
      have hown := (Text.lined_terminated ((Toolchain.standard.statementOf (x.site .standard)).run
        (Session.initial.follow lead)).1).indented "    " P.context.depth
      rw [hmark] at hout'
      refine ⟨pre, post, before, after, hout, hout', ?_, ?_, hd, hd'⟩
      · rw [hout, Text.lines_append (hpre.append hown), Text.lines_append hpre]
        rfl
      · rw [hout', Text.lines_append ((hpre.append hown).append (Text.lined_newline _)),
          Text.lines_append (hpre.append hown), Text.lines_append hpre, hlines]
        simp only [List.append_assoc, List.singleton_append]
        rfl

/-- a conditional with a branch that holds only an unknown block -/
def sampleSuite : Workspace :=
  ⟨[⟨"choice", "controls_if", [], [("IF0", .leaf "test" "logic_null")], [("DO0", .leaf "first" "odd")], none⟩]⟩

theorem unknown_degrades_in_place_sampleSuite :
    let x := Block.leaf "first" "odd"
    let y := Block.leaf "test" "logic_null"
    let u := Block.leaf "second" "odder"
    (sampleSuite.ids.Nodup ∧ x ∈ sampleSuite.walk ∧ y ∈ sampleSuite.walk ∧ Toolchain.standard.rule? u.tag = none)
    -- after a statement there is a line more
    ∧ (∃ P : Place, P.fill x = sampleSuite ∧ ∃ pre post before after,
      let own := Text.indented "    " P.context.depth
        (Text.terminated (Visit.text .standard ⟨x, .statement, .initial⟩))
      let line := Text.pad "    " P.context.depth ++ u.mark
      (sampleSuite.compile .standard).code = pre ++ own ++ post
      ∧ ((P.fill (x.linkAfter u)).compile .standard).code = pre ++ own ++ (line ++ "\n") ++ post
      ∧ (sampleSuite.compile .standard).diagnostics = before ++ after
      ∧ ((P.fill (x.linkAfter u)).compile .standard).diagnostics = before ++ u.unknownReport :: after)
    -- after a value there is not
    ∧ ∃ w', sampleSuite.update? y.id (·.linkAfter u) = some w'
      ∧ w'.compile .standard = sampleSuite.compile .standard := by
  intro x y u
  have hids : sampleSuite.ids.Nodup := by decide
  have hx : x ∈ sampleSuite.walk := .tail _ (.tail _ (.head _))
  have hy : y ∈ sampleSuite.walk := .tail _ (.head _)
  have hu : Toolchain.standard.rule? u.tag = none := by decide
  have hvisits : sampleSuite.visits .standard
      = [⟨⟨"choice", "controls_if", [], [("IF0", y)], [("DO0", x)], none⟩, .statement, .initial⟩,
        ⟨y, .value, .initial⟩, ⟨x, .statement, .initial⟩] := by rfl
  refine ⟨⟨hids, hx, hy, hu⟩, ?_, ?_⟩
  · obtain ⟨P, hP, -, -, hreached⟩ := unknown_degrades_in_place sampleSuite hids x hx u hu
    have hmem : (⟨x, .statement, .initial⟩ : Visit) ∈ sampleSuite.visits .standard := by
      rw [hvisits]
      exact .tail _ (.tail _ (.head _))
    obtain ⟨pre, post, before, after, hout, hout', -, -, hd, hd'⟩ := hreached _ hmem rfl rfl
    exact ⟨P, hP, pre, post, before, after, hout, hout', hd, hd'⟩
  · obtain ⟨P, -, hupdate, hunreached, -⟩ := unknown_degrades_in_place sampleSuite hids y hy u hu
    refine ⟨_, hupdate, hunreached fun v hv hblock hrole => ?_⟩
    have hid : v.block.id = "test" := congrArg Block.id hblock
    rw [hvisits] at hv
    simp only [List.mem_cons, List.not_mem_nil, or_false] at hv
    rcases hv with rfl | rfl | rfl
    · exact absurd hid (by decide)
    · cases hrole
    · exact absurd hid (by decide)

end Workspace

end VisualProgram
