import VisualProgram.Proofs.Script.Entries
import VisualProgram.Proofs.Script.Quoting
import VisualProgram.Proofs.Script.Rendering
import VisualProgram.Proofs.Text.Insertion

/-!
# Bodies among the lines of a block

If no rule reads a socket twice, a body stands once in the lines of a block (`lines_split`).  The statement of
the block is then what comes before the body, the body, and the lines below it (`statementOf_split`), and so
are its effects (`statementEffects_split`); each of these parts is of whole lines.
-/

namespace VisualProgram

/-! ## parts of a rule -/

namespace Site

theorem note_acts (site : Site) (note : Note) : Acts site (site.note note) note.effects Any := by
  cases note with
  | none => exact .pure trivial
  | some entry => exact site.report_acts entry.1 entry.2

theorem Acts.follow {α : Type} {t : Toolchain} {b : Block} {m : Script α} {effects : List Effect} {P : α → Prop}
    (h : Acts (b.site t) m effects P) (s : Session) : (m.run s).2 = s.follow (b.steps t effects) := by
  rw [← Block.perform_eq_follow (Block.followsSockets t b.inputs) (Block.followsSockets t b.statements)]
  exact (h s).1

theorem lined_asBody (unit code : String) : Text.Lined (asBody unit code) := Text.lined_indentLines _ _

theorem lined_body (unit : String) (site : Site) (socket : String) (s : Session) :
    Text.Lined ((site.body unit socket).run s).1 := by
  have hlined := lined_asBody unit
  unfold body
  generalize asBody unit = f at hlined ⊢
  cases Assoc.get? socket site.statements with
  | none => exact hlined ""
  | some child => exact hlined _

/-- lines are rendered with their newlines -/
theorem lined_renderLines (unit : String) (site : Site) (lines : List Template.Line) (s : Session) :
    Text.Lined ((site.renderLines unit lines).run s).1 := by
  induction lines generalizing s with
  | nil => exact Text.lined_empty
  | cons line rest ih =>
    cases line with
    | code template => exact (Text.lined_newline _).append (ih _)
    | body socket => exact (site.lined_body unit socket s).append (ih _)

/-- a report, and some lines -/
def opening (unit : String) (site : Site) (note : Note) (lines : List Template.Line) : Script String :=
  site.note note >>= fun _ => site.renderLines unit lines

theorem opening_acts (unit : String) (site : Site) (note : Note) (lines : List Template.Line) :
    Acts site (site.opening unit note lines) (note.effects ++ lines.flatMap site.lineEffects) Any :=
  (site.note_acts note).bind fun _ _ => site.renderLines_acts unit lines

theorem lined_opening (unit : String) (site : Site) (note : Note) (lines : List Template.Line) (s : Session) :
    Text.Lined ((site.opening unit note lines).run s).1 := site.lined_renderLines unit lines _

theorem body_mem_of_effects (site : Site) {note : Note} {lines : List Template.Line} {socket : String}
    (h : Effect.body socket ∈ note.effects ++ lines.flatMap site.lineEffects) : .body socket ∈ lines := by
  rcases List.mem_append.mp h with h | h
  · cases note <;> simp [Note.effects] at h
  · obtain ⟨line, hline, hmem⟩ := List.mem_flatMap.mp h
    cases line with
    | code template => exact absurd hmem (site.body_not_mem_pieces socket template)
    | body other =>
      obtain rfl : socket = other := by simpa [lineEffects] using hmem
      exact hline

end Site

namespace Toolchain

theorem isLinear_statementRule? {t : Toolchain} (ht : t.IsLinear) {tag : String} {rule : StatementRule}
    (h : t.statementRule? tag = some rule) : rule.isLinear = true := by
  unfold statementRule? at h
  split at h
  next found hfound =>
    cases h
    exact ht _ _ hfound
  next => cases h
  next =>
    cases h
    rfl

/-- a body stands once in the lines of a block -/
theorem lines_split {t : Toolchain} (ht : t.IsLinear) {site : Site} {socket : String}
    (h : .body socket ∈ t.lines site) :
    ∃ rule above below, t.statementRule? site.tag = some rule ∧ rule.lines site = above ++ .body socket :: below
      ∧ .body socket ∉ above ∧ .body socket ∉ below := by
  unfold lines at h
  cases hrule : t.statementRule? site.tag with
  | none =>
    rw [hrule] at h
    cases h
  | some rule =>
    rw [hrule] at h
    obtain ⟨above, below, hlines⟩ := List.append_of_mem h
    change rule.lines site = _ at hlines
    have hnodup := StatementRule.nodup_reads site (isLinear_statementRule? ht hrule)
    rw [hlines, List.flatMap_append, List.flatMap_cons, List.nodup_append] at hnodup
    obtain ⟨-, hnodup, hdisjoint⟩ := hnodup
    have hread : ∀ lines : List Template.Line, .body socket ∈ lines →
        Socket.body socket ∈ lines.flatMap Template.Line.reads :=
      fun _ hmem => List.mem_flatMap.mpr ⟨_, hmem, List.mem_singleton_self _⟩
    refine ⟨rule, above, below, rfl, hlines, fun hmem => ?_, fun hmem => ?_⟩
    · exact hdisjoint _ (hread above hmem) _ (List.mem_append_left _ (List.mem_singleton_self _)) rfl
    · exact (List.nodup_append.mp hnodup).2.2 _ (List.mem_singleton_self _) _ (hread below hmem) rfl

/-- the bodies that a block asks for stand in its lines -/
theorem body_mem_lines {t : Toolchain} {site : Site} {socket : String}
    (h : Effect.body socket ∈ t.statementEffects site) : .body socket ∈ t.lines site := by
  rw [t.statementEffects_eq] at h
  unfold lines
  cases hrule : t.statementRule? site.tag with
  | none =>
    rw [hrule] at h
    exact absurd h (site.body_not_mem_valueEffects socket t)
  | some rule =>
    rw [hrule] at h
    change Effect.body socket ∈ rule.effects site at h
    rw [rule.effects_eq] at h
    exact site.body_mem_of_effects h

section
variable {t : Toolchain} {site : Site} {rule : StatementRule} (hrule : t.statementRule? site.tag = some rule)
include hrule

theorem lined_statementOf (s : Session) : Text.Lined ((t.statementOf site).run s).1 := by
  rw [t.statementOf_eq, hrule]
  show Text.Lined ((rule.run _ site).run s).1
  rw [rule.run_eq]
  exact site.lined_opening _ _ _ _

/-- a statement rule up to a body, the body, and the rest -/
theorem statementOf_split {above below : List Template.Line} {socket : String}
    (hlines : rule.lines site = above ++ .body socket :: below) :
    t.statementOf site = (site.opening t.options.indent (rule.note site) above >>= fun first =>
      (site.body t.options.indent socket >>= fun body =>
        site.renderLines t.options.indent below >>= fun rest => pure (body ++ rest))
      >>= fun more => pure (first ++ more)) := by
  rw [t.statementOf_eq, hrule]
  show rule.run _ site = _
  rw [rule.run_eq, hlines, Site.renderLines_append, Site.renderLines, Site.opening]
  simp only [bind_assoc]

theorem statementEffects_split {above below : List Template.Line} {socket : String}
    (hlines : rule.lines site = above ++ .body socket :: below) :
    t.statementEffects site = (rule.note site).effects ++ above.flatMap site.lineEffects
      ++ (.body socket :: below.flatMap site.lineEffects) := by
  rw [t.statementEffects_eq, hrule]
  show rule.effects site = _
  rw [rule.effects_eq, hlines, List.flatMap_append, List.append_assoc]
  rfl

end

end Toolchain

end VisualProgram
