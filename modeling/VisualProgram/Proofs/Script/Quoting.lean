import VisualProgram.Proofs.Script.Reads
import VisualProgram.Proofs.Workspace.Place

/-!
# Text in fields

Some fields are written into the script as quoted text.  Whatever text is put into such a field, the script
around it stays the same: the whole code is one fixed text before the quoted one and one fixed text after it,
or it does not depend on the field at all.

* `render_holed`        a template that shows a field once is the same around it;
* `HoledChild.fill`     so is every tree around such a block, by induction on the context: no standard rule
                        reads a socket twice, and indenting or ending lines leaves a quoted text alone;
* `compile_holed`       so is the whole script;
* `quotesEscaped_quoted` nothing in a quoted text ends it.
-/

namespace VisualProgram

/-- no rule of the toolchain reads a socket twice -/
def Toolchain.IsLinear (t : Toolchain) : Prop := ∀ tag rule, t.rule? tag = some rule → rule.isLinear = true

theorem Toolchain.standard_isLinear : Toolchain.standard.IsLinear := fun _ _ h =>
  List.all_eq_true.mp standard_linear _ (Assoc.mem_of_get? h)

/-! ## expressions and blocks around a text -/

section
variable {ι : Type} {text : ι → String} {live : Socket → Bool}

structure HoledExpr (text : ι → String) (e : ι → Expr) : Prop where
  level : Still fun i => (e i).level
  text : Holed text fun i => (e i).text

/-- a block in a socket is the same around a text, whatever it is compiled as -/
structure HoledChild (text : ι → String) (c : ι → Child) : Prop where
  tag : Still fun i => (c i).tag
  value : ∀ required, Varies id (fun i => (c i).value required) (HoledExpr text)
  chain : Varies id (fun i => (c i).chain) (Holed text)

theorem draws_of_holed {f : ι → String} {spot : Socket} (hl : live spot = true) (h : Holed text f) :
    Draws text live [spot] f where
  still hdead := by
    have hspot := hdead spot (List.mem_singleton_self spot)
    rw [hl] at hspot
    cases hspot
  holed _ := h

theorem HoledExpr.draws {e : ι → Expr} {spot : Socket} (hl : live spot = true) (h : HoledExpr text e) :
    DrawsExpr text live [spot] e :=
  ⟨h.level, draws_of_holed hl h.text⟩

theorem holedExpr_of_still {e : ι → Expr} (h : Still e) : HoledExpr text e :=
  ⟨h.map Expr.level, Or.inl (h.map Expr.text)⟩

theorem HoledExpr.place {e : ι → Expr} (h : HoledExpr text e) (required : Precedence) :
    HoledExpr text fun i => (e i).place required := by
  have hdraws : DrawsExpr text (fun _ => true) [.input ""] e := h.draws rfl
  obtain ⟨hlevel, htext⟩ := hdraws.place required
  exact ⟨hlevel, htext.holed (List.pairwise_singleton _ _)⟩

/-- without a repeated socket at most one is live -/
theorem pairwise_of_nodup {reads : List Socket} (spot : Socket) (h : reads.Nodup) :
    reads.Pairwise fun a b => ¬(decide (a = spot) = true ∧ decide (b = spot) = true) := by
  refine h.imp fun {a b} hne hab => hne ?_
  rw [of_decide_eq_true hab.1, of_decide_eq_true hab.2]

end

/-! ## what does not depend on the text -/

theorem Session.Alike.eq {a b : Session} (h : a.Alike id b) : a = b := by
  obtain ⟨imports, identifiers, scope, diagnostics⟩ := a
  obtain ⟨imports', identifiers', scope', diagnostics'⟩ := b
  obtain ⟨rfl, rfl, rfl, hd⟩ := h
  rw [List.map_id, List.map_id] at hd
  obtain rfl : diagnostics = diagnostics' := hd
  rfl

/-- from equal sessions one compilation gives one result -/
theorem Varies.const {ι α : Type} (m : Script α) : Varies id (fun _ : ι => m) Still := by
  intro σ hσ
  refine ⟨?_, fun i j => (hσ i j).eq ▸ .refl _⟩
  by_cases h : Nonempty ι
  · obtain ⟨j⟩ := h
    exact ⟨(m.run (σ j)).1, fun i => congrArg (fun s => (m.run s).1) (hσ i j).eq⟩
  · exact ⟨(m.run .initial).1, fun i => absurd ⟨i⟩ h⟩

section
variable {ι : Type} {text : ι → String}

/-- a statement that is the same around a text, and the rest of its chain -/
theorem chain_holed {code : ι → Script String} (h : Varies id code (Holed text)) (rest : Script String) :
    Varies id (fun i => code i >>= fun line => rest >>= fun more => pure (Text.terminated line ++ more))
      (Holed text) :=
  h.bind fun _ hline => (Varies.const rest).map fun _ hmore =>
    (hline.through keeps_terminated).append_still hmore

/-- what is in a socket does not depend on the index, or the socket is the one at `spot` -/
def MovesAt (text : ι → String) (spot r : Socket) (c : ι → Child) : Prop :=
  (∃ fixed, c = fun _ => fixed) ∨ r = spot ∧ HoledChild text c

section
variable {spot r : Socket} {c : ι → Child}

theorem MovesAt.tag (h : MovesAt text spot r c) : Still fun i => (c i).tag := by
  rcases h with ⟨fixed, rfl⟩ | ⟨-, hc⟩
  · exact still_const _
  · exact hc.tag

theorem MovesAt.value (h : MovesAt text spot r c) (required : Precedence) :
    Varies id (fun i => (c i).value required) (DrawsExpr text (fun r => decide (r = spot)) [r]) := by
  rcases h with ⟨fixed, rfl⟩ | ⟨hr, hc⟩
  · exact (Varies.const _).imp fun _ he => ⟨he.map Expr.level, draws_of_still (he.map Expr.text)⟩
  · exact (hc.value required).imp fun _ he => he.draws (decide_eq_true hr)

theorem MovesAt.chain (h : MovesAt text spot r c) :
    Varies id (fun i => (c i).chain) (Draws text (fun r => decide (r = spot)) [r]) := by
  rcases h with ⟨fixed, rfl⟩ | ⟨hr, hc⟩
  · exact (Varies.const _).imp fun _ hf => draws_of_still hf
  · exact hc.chain.imp fun _ hf => draws_of_holed (decide_eq_true hr) hf

end

/-! ## the tree around a block -/

variable {t : Toolchain}

/-- a block is the same around a text if one of its sockets is, and its rule reads no socket twice -/
theorem HoledChild.of_sites (hlinear : t.IsLinear) (spot : Socket) {S : Sites ι} (htag : Still S.tag)
    (hi : ∀ e ∈ S.inputs, MovesAt text spot (.input e.1) e.2)
    (hs : ∀ e ∈ S.statements, MovesAt text spot (.body e.1) e.2) (next : Option Block) :
    HoledChild text fun i =>
      { tag := S.tag i
        value := fun required => t.valueOf (S.site i) >>= fun e => pure (e.place required)
        chain := t.statementOf (S.site i) >>= fun code =>
          Block.compileNext t next >>= fun rest => pure (Text.terminated code ++ rest) } := by
  obtain ⟨tag, htag⟩ := htag
  have hr : ∀ i, t.rule? (S.tag i) = t.rule? tag := fun i => congrArg t.rule? (htag i)
  have hS : S.Coherent id text fun r => decide (r = spot) :=
    ⟨fun e he => (hi e he).value, fun e he => (hs e he).chain, fun _ _ i j => by rw [htag i, htag j]⟩
  have hapart : S.TextApart := by
    intro e he
    obtain ⟨part, hpart⟩ := (hi e he).tag
    by_cases h : part = "text"
    · exact Or.inl fun i => (hpart i).trans h
    · exact Or.inr fun i hi => h ((hpart i).symm.trans hi)
  refine ⟨⟨tag, htag⟩, fun required => ?_, ?_⟩
  · have hvalue : Varies id (fun i => t.valueOf (S.site i)) (Sites.GathersExpr text _ true) :=
      Sites.valueOf_varies hS hr (fun rule h _ => hlinear tag rule h) fun _ => hapart
    refine hvalue.map fun e ⟨reads, hnodup, he⟩ => ?_
    have hexpr : HoledExpr text e := ⟨he.level, he.text.holed (pairwise_of_nodup spot (hnodup rfl))⟩
    exact hexpr.place required
  · have hcode : Varies id (fun i => t.statementOf (S.site i)) (Sites.Gathers text _ true) :=
      Sites.statementOf_varies hS hr (fun rule h _ => hlinear tag rule h) (fun _ => hapart) fun _ =>
        Still.map ⟨tag, htag⟩ Text.commentText
    refine chain_holed (hcode.imp fun code ⟨reads, hnodup, hdraws⟩ => ?_) _
    exact hdraws.holed (pairwise_of_nodup spot (hnodup rfl))

/-- sockets whose children do not depend on the index -/
def fixedSockets (t : Toolchain) (sockets : List (String × Block)) : List (String × (ι → Child)) :=
  sockets.map fun e => (e.1, fun _ => e.2.compile t)

/-- a socket whose child is given by the index, among others -/
def movingSockets (t : Toolchain) (left : List (String × Block)) (socket : String) (child : ι → Block)
    (right : List (String × Block)) : List (String × (ι → Child)) :=
  fixedSockets t left ++ (socket, fun i => (child i).compile t) :: fixedSockets t right

theorem site_fixedSockets (sockets : List (String × Block)) (i : ι) :
    (fixedSockets t sockets).map (fun e => (e.1, e.2 i)) = Block.compileSockets t sockets := by
  rw [Block.compileSockets_eq_map, fixedSockets, List.map_map]
  rfl

theorem site_movingSockets (left right : List (String × Block)) (socket : String) (child : ι → Block) (i : ι) :
    (movingSockets t left socket child right).map (fun e => (e.1, e.2 i))
      = Block.compileSockets t (left ++ (socket, child i) :: right) := by
  simp only [movingSockets, List.map_append, List.map_cons, site_fixedSockets, Block.compileSockets_eq_map]

theorem movesAt_fixedSockets {sockets : List (String × Block)} (spot : Socket) (kind : String → Socket) :
    ∀ e ∈ fixedSockets t sockets, MovesAt text spot (kind e.1) e.2 := by
  intro e he
  obtain ⟨entry, -, rfl⟩ := List.mem_map.mp he
  exact Or.inl ⟨_, rfl⟩

theorem movesAt_movingSockets {left right : List (String × Block)} {socket : String} {child : ι → Block}
    (kind : String → Socket) (h : HoledChild text fun i => (child i).compile t) :
    ∀ e ∈ movingSockets t left socket child right, MovesAt text (kind socket) (kind e.1) e.2 := by
  intro e he
  rcases List.mem_append.mp he with hl | hr
  · exact movesAt_fixedSockets _ kind e hl
  · rcases List.mem_cons.mp hr with rfl | hr
    · exact Or.inr ⟨rfl, h⟩
    · exact movesAt_fixedSockets _ kind e hr

/-- the tree around a block that is the same around a text -/
theorem HoledChild.fill (hlinear : t.IsLinear) {child : ι → Block}
    (hchild : HoledChild text fun i => (child i).compile t) (c : Block.Context) :
    HoledChild text fun i => (c.fill (child i)).compile t := by
  induction c with
  | hole => exact hchild
  | input owner tag fields left socket inner right statements next ih =>
    let S : Sites ι := ⟨owner, fun _ => tag, fields,
      movingSockets t left socket (fun i => inner.fill (child i)) right, fixedSockets t statements⟩
    have hsite : ∀ i, (Block.mk owner tag fields (left ++ (socket, inner.fill (child i)) :: right) statements
        next).site t = S.site i := by
      intro i
      simp only [Block.site, S, Sites.site, site_movingSockets, site_fixedSockets]
    simp only [Block.Context.fill, Block.compile_eq, hsite]
    exact .of_sites (S := S) hlinear (.input socket) (still_const _) (movesAt_movingSockets .input ih)
      (movesAt_fixedSockets _ .body) next
  | statement owner tag fields inputs left socket inner right next ih =>
    let S : Sites ι := ⟨owner, fun _ => tag, fields, fixedSockets t inputs,
      movingSockets t left socket (fun i => inner.fill (child i)) right⟩
    have hsite : ∀ i, (Block.mk owner tag fields inputs (left ++ (socket, inner.fill (child i)) :: right)
        next).site t = S.site i := by
      intro i
      simp only [Block.site, S, Sites.site, site_movingSockets, site_fixedSockets]
    simp only [Block.Context.fill, Block.compile_eq, hsite]
    exact .of_sites (S := S) hlinear (.body socket) (still_const _) (movesAt_fixedSockets _ .input)
      (movesAt_movingSockets .body ih) next
  | after owner tag fields inputs statements inner ih =>
    -- the block itself does not depend on what follows it
    let site : Site := ⟨owner, tag, fields, Block.compileSockets t inputs, Block.compileSockets t statements⟩
    have hsite : ∀ i, (Block.mk owner tag fields inputs statements (some (inner.fill (child i)))).site t = site :=
      fun _ => rfl
    simp only [Block.Context.fill, Block.compile_eq, hsite]
    refine ⟨still_const _, fun required => ?_, ?_⟩
    · exact (Varies.const _).map fun e he => (holedExpr_of_still he).place required
    · exact (Varies.const _).bind fun code hcode => ih.chain.map fun rest hrest =>
        (hcode.map Text.terminated).append_holed hrest

end

/-! ## the block with the field -/

/-- the piece does not look at a field -/
def Piece.ignores (name : String) : Piece → Bool
  | .field other _ => other ≠ name
  | .identifier other _ => other ≠ name
  | .variableName other => other ≠ name
  | _ => true

/-- the template writes a field, in one place, and does not look at it otherwise -/
def Template.Shows (name : String) (form : Template) : Prop :=
  ∃ before default after, form.pieces = before ++ .field name default :: after
    ∧ (∀ piece ∈ before, piece.ignores name = true) ∧ ∀ piece ∈ after, piece.ignores name = true

/-- the block as its rule sees it, with another value in a field -/
def Site.setField (site : Site) (name : String) (value : Json) : Site :=
  { site with fields := Assoc.put name value site.fields }

theorem renderPiece_setField {name : String} {piece : Piece} (h : piece.ignores name = true) (site : Site)
    (value : Json) (unit : String) :
    (site.setField name value).renderPiece unit none piece = site.renderPiece unit none piece := by
  have hget : ∀ other, other ≠ name →
      Assoc.get? other (site.setField name value).fields = Assoc.get? other site.fields := by
    intro other hne
    rw [Site.setField, Assoc.get?_put, if_neg (Ne.symm hne)]
  cases piece with
  | text fixed => rfl
  | operand socket level fallback => rfl
  | field other default => rw [Site.renderPiece, Site.renderPiece, hget other (of_decide_eq_true h)]
  | identifier other default =>
    rw [Site.renderPiece, Site.renderPiece, Field.text?, Field.text?, hget other (of_decide_eq_true h)]
  | variableName other =>
    rw [Site.renderPiece, Site.renderPiece, Field.text?, Field.text?, hget other (of_decide_eq_true h)]
  | previous level => rfl

theorem renderPieces_setField {name : String} {pieces : List Piece}
    (h : ∀ piece ∈ pieces, piece.ignores name = true) (site : Site) (value : Json) (unit : String) :
    (site.setField name value).renderPieces unit none pieces = site.renderPieces unit none pieces := by
  induction pieces with
  | nil => rfl
  | cons piece rest ih =>
    obtain ⟨hpiece, hrest⟩ := List.forall_mem_cons.mp h
    rw [Site.renderPieces, Site.renderPieces, renderPiece_setField hpiece, ih hrest]

@[simp] theorem renderPieces_append (site : Site) (unit : String) (a b : List Piece) :
    site.renderPieces unit none (a ++ b) = (do
      let first ← site.renderPieces unit none a
      let more ← site.renderPieces unit none b
      pure (first ++ more)) := by
  induction a with
  | nil => simp only [List.nil_append, Site.renderPieces, pure_bind, String.empty_append, bind_pure]
  | cons piece rest ih =>
    simp only [List.cons_append, Site.renderPieces, ih, bind_assoc, pure_bind, String.append_assoc]

/-- a template that shows a field is the same around the text in it -/
theorem render_holed {form : Template} {name : String} (h : form.Shows name) (site : Site) (unit : String) :
    Varies id (fun s => (site.setField name (.string s)).render unit none form) (HoledExpr fun s => s) := by
  obtain ⟨before, default, after, hpieces, hbefore, hafter⟩ := h
  have hfield : ∀ s, (site.setField name (.string s)).renderPiece unit none (.field name default)
      = pure (Literal.quote s) := by
    intro s
    rw [Site.renderPiece, Site.setField, Assoc.get?_put, if_pos rfl]
    rfl
  simp only [Site.render, hpieces, renderPieces_append, Site.renderPieces, hfield, pure_bind,
    renderPieces_setField hbefore, renderPieces_setField hafter, bind_assoc]
  refine (Varies.const _).bind fun first ⟨pre, hpre⟩ => (Varies.const _).map fun more ⟨post, hpost⟩ => ?_
  refine ⟨still_const _, Or.inr ⟨pre, post, fun s => ?_⟩⟩
  show first s ++ (Literal.quote s ++ more s) = _
  rw [hpre, hpost, String.append_assoc]

section
variable {t : Toolchain} {b : Block} {name : String} {form : Template}

theorem site_setField (value : Json) : (b.setField name value).site t = (b.site t).setField name value := rfl

/-- a block that compiles to a value by such a template -/
theorem holed_value (hrule : t.rule? b.tag = some (.value (.template form))) (hform : form.Shows name) :
    HoledChild (fun s => s) fun s => (b.setField name (.string s)).compile t := by
  have hrender := render_holed hform (b.site t) t.options.indent
  have hvalue : ∀ s, t.valueOf ((b.site t).setField name (.string s))
      = ((b.site t).setField name (.string s)).render t.options.indent none form := by
    intro s
    have htag : ((b.site t).setField name (.string s)).tag = b.tag := rfl
    rw [Toolchain.valueOf, htag, hrule]
    rfl
  have hstatement : ∀ s, t.statementOf ((b.site t).setField name (.string s))
      = (do
        let e ← ((b.site t).setField name (.string s)).render t.options.indent none form
        pure e.text) := by
    intro s
    have htag : ((b.site t).setField name (.string s)).tag = b.tag := rfl
    rw [Toolchain.statementOf, htag, hrule]
    rfl
  simp only [Block.compile_eq, site_setField, hvalue, hstatement]
  refine ⟨still_const b.tag, fun required => ?_, ?_⟩
  · exact hrender.map fun e he => he.place required
  · exact chain_holed (hrender.map fun e he => he.text) (Block.compileNext t b.next)

/-- a block that compiles to a line by such a template -/
theorem holed_statement (hrule : t.rule? b.tag = some (.statement (.template [.code form])))
    (hform : form.Shows name) : HoledChild (fun s => s) fun s => (b.setField name (.string s)).compile t := by
  have hrender := render_holed hform (b.site t) t.options.indent
  -- as a value it is refused, whatever its fields are
  have hvalue : ∀ s, t.valueOf ((b.site t).setField name (.string s)) = t.valueOf (b.site t) := by
    intro s
    have htag : (b.site t).tag = b.tag := rfl
    have htag' : ((b.site t).setField name (.string s)).tag = b.tag := rfl
    rw [Toolchain.valueOf, Toolchain.valueOf, htag, htag', hrule]
    rfl
  have hstatement : ∀ s, t.statementOf ((b.site t).setField name (.string s))
      = (do
        let e ← ((b.site t).setField name (.string s)).render t.options.indent none form
        pure (e.text ++ "\n")) := by
    intro s
    have htag : ((b.site t).setField name (.string s)).tag = b.tag := rfl
    rw [Toolchain.statementOf, htag, hrule]
    show Site.renderLines _ _ [.code form] = _
    simp only [Site.renderLines, pure_bind, String.append_empty]
  simp only [Block.compile_eq, site_setField, hvalue, hstatement]
  refine ⟨still_const b.tag, fun required => ?_, ?_⟩
  · exact (Varies.const _).map fun e he => (holedExpr_of_still he).place required
  · have hline := hrender.map (g := fun _ e => e.text ++ "\n") fun e he => he.text.append_still (still_const _)
    exact chain_holed hline (Block.compileNext t b.next)

end

/-! ## whole scripts -/

namespace Workspace

@[simp] theorem compileChains_append (t : Toolchain) (a b : List Block) :
    compileChains t (a ++ b) = (do
      let first ← compileChains t a
      let more ← compileChains t b
      pure (first ++ more)) := by
  induction a with
  | nil => simp only [List.nil_append, compileChains, pure_bind, bind_pure]
  | cons head rest ih => simp only [List.cons_append, compileChains, ih, bind_assoc, pure_bind]

section
variable {ι : Type} {text : ι → String} {t : Toolchain} {child : ι → Block}

/-- one chain is the same around the text, the others do not depend on it -/
theorem compileChains_holed (hlinear : t.IsLinear) (hchild : HoledChild text fun i => (child i).compile t)
    (P : Place) :
    Varies id (fun i => compileChains t (P.fill (child i)).blocks) fun chains =>
      ∃ left code right, Holed text code ∧ ∀ i, chains i = left ++ code i :: right := by
  have hchain : Varies id (fun i => Block.compileChain t (some (P.context.fill (child i)))) (Holed text) :=
    (hchild.fill hlinear P.context).chain
  simp only [Place.fill, compileChains_append, compileChains, bind_assoc, pure_bind]
  refine (Varies.const _).bind fun before hbefore => hchain.bind fun code hcode => ?_
  refine (Varies.const _).map fun after hafter => ?_
  obtain ⟨left, hleft⟩ := hbefore
  obtain ⟨right, hright⟩ := hafter
  refine ⟨left, code, right, hcode, fun i => ?_⟩
  show before i ++ code i :: after i = _
  rw [hleft, hright]

theorem compile_holed [Inhabited ι] (hlinear : t.IsLinear)
    (hchild : HoledChild text fun i => (child i).compile t) (P : Place) :
    Holed text (fun i => ((P.fill (child i)).compile t).code)
    ∧ ∀ i j, ((P.fill (child i)).compile t).diagnostics = ((P.fill (child j)).compile t).diagnostics := by
  obtain ⟨⟨left, code, right, hcode, hchains⟩, halike⟩ :=
    compileChains_holed hlinear hchild P (fun _ => .initial) fun _ _ => .refl _
  refine ⟨?_, fun i j => congrArg Session.diagnostics (halike i j).eq⟩
  let s : Session := ((compileChains t (P.fill (child default)).blocks).run .initial).2
  have hassemble : ∀ i, ((P.fill (child i)).compile t).code = s.assemble (left ++ code i :: right) := fun i =>
    congrArg₂ Session.assemble (halike i default).eq (hchains i)
  rcases hcode with ⟨fixed, hfixed⟩ | ⟨pre, post, hquote⟩
  · exact Or.inl ⟨s.assemble (left ++ fixed :: right), fun i => (hassemble i).trans (by rw [hfixed])⟩
  · obtain ⟨opening, closing, -, haround⟩ := s.assemble_around left right
    refine Or.inr ⟨opening ++ pre, post ++ closing, fun i => ?_⟩
    have hne : pre ++ Literal.quote (text i) ++ post ≠ "" := by
      intro hempty
      have hlist := congrArg String.toList hempty
      simp [Python.toList_quote] at hlist
    show ((P.fill (child i)).compile t).code = _
    rw [hassemble, hquote, haround _ hne]
    simp only [String.append_assoc]

end

end Workspace

/-! ## quoted text -/

namespace Literal

/-- every double quote stands behind a backslash that escapes it, and no backslash is left over -/
def quotesEscaped : List Char → Bool
  | [] => true
  | ['\\'] => false
  | '\\' :: _ :: rest => quotesEscaped rest
  | c :: rest => c != '"' && quotesEscaped rest

theorem quotesEscaped_inner {c : Char} (h : Python.isInner c = true) (rest : List Char) :
    quotesEscaped (c :: rest) = quotesEscaped rest := by
  simp only [Python.isInner, Bool.and_eq_true, bne_iff_ne, ne_eq] at h
  obtain ⟨⟨hquote, hback⟩, -⟩ := h
  rw [quotesEscaped, bne_iff_ne.mpr hquote, Bool.true_and]
  · exact fun hc _ => hback hc
  · exact fun _ _ hc _ => hback hc

theorem quotesEscaped_inners {cs : List Char} (h : ∀ c ∈ cs, Python.isInner c = true) (rest : List Char) :
    quotesEscaped (cs ++ rest) = quotesEscaped rest := by
  induction cs with
  | nil => rfl
  | cons c cs ih =>
    obtain ⟨hc, hcs⟩ := List.forall_mem_cons.mp h
    rw [List.cons_append, quotesEscaped_inner hc, ih hcs]

theorem quotesEscaped_quoteChar (c : Char) (rest : List Char) :
    quotesEscaped (quoteChar c ++ rest) = quotesEscaped rest := by
  rcases Python.quoteChar_cases c with ⟨heq, hc⟩ | ⟨x, hex, heq, -, hhex⟩
  · rw [heq]
    exact quotesEscaped_inner hc rest
  · -- the backslash takes the next character with it, whatever that is
    rw [heq]
    exact quotesEscaped_inners hhex rest

theorem quotesEscaped_quoted (cs : List Char) : quotesEscaped (cs.flatMap quoteChar) = true := by
  induction cs with
  | nil => rfl
  | cons c cs ih => rw [List.flatMap_cons, quotesEscaped_quoteChar, ih]

example : quote "a\")\n#" = "\"a\\\")\\n#\"" := by decide

end Literal

/-! ## the standard fields of text -/

/-- the fields that standard blocks write as quoted text, by tag -/
def quotedFields : List (String × String) :=
  [("text", "TEXT"), ("daq_get_input", "PORT"), ("daq_set_output", "PORT")]

theorem holed_quotedFields {b : Block} {field : String} (h : (b.tag, field) ∈ quotedFields) :
    HoledChild (fun s => s) fun s => (b.setField field (.string s)).compile .standard := by
  simp only [quotedFields, List.mem_cons, Prod.mk.injEq, List.not_mem_nil, or_false] at h
  rcases h with ⟨htag, rfl⟩ | ⟨htag, rfl⟩ | ⟨htag, rfl⟩
  · have hrule : Toolchain.standard.rule? b.tag = some (.value (.template Rule.Standard.text)) := by
      rw [htag]
      rfl
    exact holed_value hrule ⟨[], _, [], rfl, by decide, by decide⟩
  · have hrule : Toolchain.standard.rule? b.tag = some (.value (.template Rule.Standard.getInput)) := by
      rw [htag]
      rfl
    exact holed_value hrule ⟨[_], _, [_], rfl, by decide, by decide⟩
  · have hrule : Toolchain.standard.rule? b.tag = some (.statement (.template Rule.Standard.setOutput)) := by
      rw [htag]
      rfl
    exact holed_statement hrule ⟨[_], _, [_, _, _], rfl, by decide, by decide⟩

/-- whatever text is put into such a field of a block of a workspace, the script is the same all around the
quoted text, if it shows there at all, and the same is reported.  The quoted text is one literal on one line:
between its quotes there is no line break and no quote that could end it -/
theorem Workspace.text_confined_to_quotes {w : Workspace} {id field : String} {b : Block}
    (hb : w.find? id = some b) (hfield : (b.tag, field) ∈ quotedFields) :
    (∃ edited : String → Workspace, (∀ s, w.setField id field (.string s) = .ok (edited s))
      ∧ ((∃ code, ∀ s, ((edited s).compile .standard).code = code)
        ∨ ∃ pre post, ∀ s, ((edited s).compile .standard).code = pre ++ Literal.quote s ++ post)
      ∧ ∃ diagnostics, ∀ s, ((edited s).compile .standard).diagnostics = diagnostics)
    ∧ ∀ s, ∃ body, (Literal.quote s).toList = '"' :: (body ++ ['"'])
      ∧ '\n' ∉ body ∧ '\r' ∉ body ∧ Literal.quotesEscaped body = true := by
  constructor
  · obtain ⟨rfl, P, rfl, havoids⟩ := exists_place hb
    obtain ⟨hcode, hdiagnostics⟩ := compile_holed Toolchain.standard_isLinear (holed_quotedFields hfield) P
    refine ⟨fun s => P.fill (b.setField field (.string s)), fun s => ?_, hcode, _, fun s => hdiagnostics s ""⟩
    rw [setField, Place.update?_fill P _ b havoids]
  · intro s
    have hbody : ∀ x ∈ s.toList.flatMap Literal.quoteChar, x ∈ (Literal.quote s).toList := by
      intro x hx
      rw [Python.toList_quote]
      exact List.mem_cons_of_mem _ (List.mem_append_left _ hx)
    exact ⟨_, Python.toList_quote s, fun h => Python.not_mem_quote (by decide) s (hbody _ h),
      fun h => Python.not_mem_quote (by decide) s (hbody _ h), Literal.quotesEscaped_quoted s.toList⟩

/-- a text that is joined to another one, inside of a loop -/
def Workspace.sampleTexts : Workspace :=
  let first : Block := ⟨"first", "text", [("TEXT", .string "port")], [], [], none⟩
  let second : Block := ⟨"second", "daq_get_input", [], [], [], none⟩
  let joined : Block := ⟨"joined", "text_join", [], [("ADD0", first), ("ADD1", second)], [], none⟩
  let output : Block := ⟨"output", "daq_set_output", [], [("VALUE", joined)], [], none⟩
  ⟨[⟨"loop", "controls_repeat_ext", [], [], [("DO", output)], none⟩]⟩

theorem Workspace.text_confined_to_quotes_sampleTexts :
    sampleTexts.find? "first" = some ⟨"first", "text", [("TEXT", .string "port")], [], [], none⟩
    ∧ ("text", "TEXT") ∈ quotedFields
    ∧ ((∃ edited : String → Workspace, (∀ s, sampleTexts.setField "first" "TEXT" (.string s) = .ok (edited s))
      ∧ ((∃ code, ∀ s, ((edited s).compile .standard).code = code)
        ∨ ∃ pre post, ∀ s, ((edited s).compile .standard).code = pre ++ Literal.quote s ++ post)
      ∧ ∃ diagnostics, ∀ s, ((edited s).compile .standard).diagnostics = diagnostics)
    ∧ ∀ s, ∃ body, (Literal.quote s).toList = '"' :: (body ++ ['"'])
      ∧ '\n' ∉ body ∧ '\r' ∉ body ∧ Literal.quotesEscaped body = true) :=
  have h : sampleTexts.find? "first" = some ⟨"first", "text", [("TEXT", .string "port")], [], [], none⟩ := rfl
  ⟨h, by decide, text_confined_to_quotes h (by decide)⟩

end VisualProgram
