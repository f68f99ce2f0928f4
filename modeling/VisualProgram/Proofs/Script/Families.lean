import VisualProgram.Script
import VisualProgram.Proofs.Literal.Layout
import VisualProgram.Proofs.Text.Insets

/-!
# Families of compilations

A family runs one compilation for each index: for each text that may stand in a field, or for a tag and
for its alias.  `Varies m P` is the logic of families: from sessions that are alike, `m` leads to sessions
that are alike, and `P` holds of the family of results.  A result is

* `Still`  if it is the same for all indices;
* `Holed`  if it is still, or the same all around one quoted text that is given by the index.

A rule puts texts together that it reads from its sockets.  Some of these may be `live`, and `Draws reads`
says what follows for the whole: it is still if no socket in `reads` is live, and holed if no two of them
are.  Joining texts joins the lists (`Draws.append`), so each rule needs only its list, and the same lemma
serves a rule of any toolchain without live sockets and a standard rule with one.

In a whole script each chain stands between texts that do not depend on it (`assemble_around`).
-/

namespace VisualProgram

/-! ## sessions -/

/-- the sessions agree in all that code is made of, and in what `key` tells of their diagnostics -/
structure Session.Alike {κ : Type} (key : Diagnostic → κ) (a b : Session) : Prop where
  imports : a.imports = b.imports
  identifiers : a.identifiers = b.identifiers
  scope : a.scope = b.scope
  diagnostics : a.diagnostics.map key = b.diagnostics.map key

namespace Session.Alike
variable {κ : Type} {key : Diagnostic → κ} {a b : Session}

theorem refl (s : Session) : s.Alike key s := ⟨rfl, rfl, rfl, rfl⟩

theorem identify (h : a.Alike key b) (v : String) :
    (a.identify v).1 = (b.identify v).1 ∧ (a.identify v).2.Alike key (b.identify v).2 := by
  obtain ⟨imports, identifiers, scope, diagnostics⟩ := a
  obtain ⟨imports', identifiers', scope', diagnostics'⟩ := b
  obtain ⟨rfl, rfl, rfl, hd⟩ := h
  unfold Session.identify
  cases hv : Assoc.get? v identifiers with
  | none => exact ⟨rfl, rfl, rfl, rfl, hd⟩
  | some identifier => exact ⟨rfl, rfl, rfl, rfl, hd⟩

theorem require (h : a.Alike key b) (name : String) : (a.require name).Alike key (b.require name) := by
  unfold Session.require
  rw [h.imports]
  split
  · exact h
  · exact ⟨rfl, h.identifiers, h.scope, h.diagnostics⟩

theorem report (h : a.Alike key b) {d e : Diagnostic} (hd : key d = key e) :
    (a.report d).Alike key (b.report e) := by
  refine ⟨h.imports, h.identifiers, h.scope, ?_⟩
  simp only [Session.report, List.map_append, h.diagnostics, List.map_cons, hd, List.map_nil]

end Session.Alike

/-! ## families -/

/-- what holds of the results of a family of compilations, from sessions that are alike -/
def Varies {ι κ α : Type} (key : Diagnostic → κ) (m : ι → Script α) (P : (ι → α) → Prop) : Prop :=
  ∀ σ : ι → Session, (∀ i j, (σ i).Alike key (σ j)) →
    P (fun i => ((m i).run (σ i)).1)
      ∧ ∀ i j, Session.Alike key ((m i).run (σ i)).2 ((m j).run (σ j)).2

/-- the same for all indices -/
def Still {ι α : Type} (f : ι → α) : Prop := ∃ a, ∀ i, f i = a

theorem still_const {ι α : Type} (a : α) : Still fun _ : ι => a := ⟨a, fun _ => rfl⟩

theorem Still.map {ι α β : Type} {f : ι → α} (h : Still f) (g : α → β) : Still fun i => g (f i) := by
  obtain ⟨a, ha⟩ := h
  exact ⟨g a, fun i => congrArg g (ha i)⟩

namespace Varies
variable {ι κ α β : Type} {key : Diagnostic → κ} {P Q : (ι → α) → Prop} {R : (ι → β) → Prop}

theorem pure {f : ι → α} (h : P f) : Varies key (fun i => Pure.pure (f i)) P := fun _ hσ => ⟨h, hσ⟩

theorem imp {m : ι → Script α} (hm : Varies key m P) (h : ∀ f, P f → Q f) : Varies key m Q :=
  fun σ hσ => ⟨h _ (hm σ hσ).1, (hm σ hσ).2⟩

theorem bind {m : ι → Script α} {k : ι → α → Script β} (hm : Varies key m P)
    (hk : ∀ f, P f → Varies key (fun i => k i (f i)) R) : Varies key (fun i => m i >>= k i) R := by
  intro σ hσ
  obtain ⟨hp, hnext⟩ := hm σ hσ
  exact hk _ hp _ hnext

theorem map {m : ι → Script α} {g : ι → α → β} (hm : Varies key m P)
    (h : ∀ f, P f → R fun i => g i (f i)) :
    Varies key (fun i => m i >>= fun a => Pure.pure (g i a)) R :=
  hm.bind fun f hf => .pure (h f hf)

/-- after a result that is still the family goes on with one value -/
theorem bind_still {m : ι → Script α} {k : ι → α → Script β} (hm : Varies key m Still)
    (hk : ∀ a, Varies key (fun i => k i a) R) : Varies key (fun i => m i >>= k i) R := by
  refine hm.bind fun f hf => ?_
  obtain ⟨a, ha⟩ := hf
  have hfun : (fun i => k i (f i)) = fun i => k i a := funext fun i => congrArg (k i) (ha i)
  rw [hfun]
  exact hk a

theorem identify (v : String) :
    Varies key (fun _ : ι => (modifyGet (Session.identify v) : Script String)) Still := by
  intro σ hσ
  refine ⟨?_, fun i j => ((hσ i j).identify v).2⟩
  by_cases h : Nonempty ι
  · obtain ⟨j⟩ := h
    exact ⟨_, fun i => ((hσ i j).identify v).1⟩
  · exact ⟨"", fun i => absurd ⟨i⟩ h⟩

theorem require (needs : Option String) : Varies key (fun _ : ι => Site.require needs) Still := by
  cases needs with
  | none => exact .pure (still_const _)
  | some name => exact fun σ hσ => ⟨still_const _, fun i j => (hσ i j).require name⟩

end Varies

/-! ## texts -/

/-- a socket of a block, of values or of statements -/
inductive Socket where
  | input (name : String)
  | body (name : String)
deriving DecidableEq

theorem inset_quote (s : String) : Text.Inset (Literal.quote s).toList where
  flat := Python.not_mem_quote (by decide) s
  first := by rw [Python.toList_quote]; rfl
  last := by rw [Python.toList_quote, ← List.cons_append, List.getLast?_concat]

/-- around an inset the change does not depend on the inset -/
def Keeps (g : String → String) : Prop :=
  ∀ pre post, ∃ pre' post', ∀ q : String, Text.Inset q.toList → g (pre ++ q ++ post) = pre' ++ q ++ post'

theorem keeps_wrap (opening closing : String) : Keeps fun s => opening ++ s ++ closing :=
  fun pre post => ⟨opening ++ pre, post ++ closing, fun q _ => by simp only [String.append_assoc]⟩

theorem keeps_terminated : Keeps Text.terminated := fun pre post => by
  obtain ⟨post', h⟩ := Text.terminated_inset pre post
  exact ⟨pre, post', h⟩

theorem keeps_asBody (unit : String) : Keeps (Site.asBody unit) := fun pre post => by
  obtain ⟨runs, hruns⟩ := Text.executable_inset pre post
  cases runs with
  | true =>
    obtain ⟨pre', post', h⟩ := Text.indentLines_inset pre post unit
    refine ⟨pre', post', fun q hq => ?_⟩
    rw [Site.asBody, if_pos (hruns q hq), h q hq]
  | false =>
    obtain ⟨pre', post', h⟩ := Text.indentLines_inset pre (post ++ "pass\n") unit
    refine ⟨pre', post', fun q hq => ?_⟩
    rw [Site.asBody, if_neg (by rw [hruns q hq]; decide), String.append_assoc, h q hq]

section
variable {ι : Type} (text : ι → String) (live : Socket → Bool)

/-- still, or the same all around the quoted text of the index -/
def Holed (f : ι → String) : Prop :=
  Still f ∨ ∃ pre post, ∀ i, f i = pre ++ Literal.quote (text i) ++ post

/-- what follows for a text that is put together from what some sockets give -/
structure Draws (reads : List Socket) (f : ι → String) : Prop where
  still : (∀ r ∈ reads, live r = false) → Still f
  holed : (reads.Pairwise fun a b => ¬(live a = true ∧ live b = true)) → Holed text f

structure DrawsExpr (reads : List Socket) (e : ι → Expr) : Prop where
  level : Still fun i => (e i).level
  text : Draws text live reads fun i => (e i).text

end

section
variable {ι : Type} {text : ι → String} {live : Socket → Bool} {reads more : List Socket}
  {f g : ι → String}

theorem Holed.through {change : String → String} (hc : Keeps change) (h : Holed text f) :
    Holed text fun i => change (f i) := by
  rcases h with h | ⟨pre, post, h⟩
  · exact Or.inl (h.map change)
  · obtain ⟨pre', post', hq⟩ := hc pre post
    refine Or.inr ⟨pre', post', fun i => ?_⟩
    show change (f i) = _
    rw [h i, hq _ (inset_quote (text i))]

theorem Holed.append_still (hf : Holed text f) (hg : Still g) : Holed text fun i => f i ++ g i := by
  obtain ⟨a, ha⟩ := hg
  have hwrap := hf.through (keeps_wrap "" a)
  simpa only [ha, String.empty_append] using hwrap

theorem Still.append_holed (hf : Still f) (hg : Holed text g) : Holed text fun i => f i ++ g i := by
  obtain ⟨a, ha⟩ := hf
  have hwrap := hg.through (keeps_wrap a "")
  simpa only [ha, String.append_empty] using hwrap

theorem draws_of_still (h : Still f) : Draws text live reads f := ⟨fun _ => h, fun _ => Or.inl h⟩

theorem draws_const (s : String) : Draws text live reads fun _ : ι => s := draws_of_still (still_const s)

theorem Draws.through {change : String → String} (hc : Keeps change) (h : Draws text live reads f) :
    Draws text live reads fun i => change (f i) :=
  ⟨fun hr => (h.still hr).map change, fun hr => (h.holed hr).through hc⟩

theorem Draws.append (hf : Draws text live reads f) (hg : Draws text live more g) :
    Draws text live (reads ++ more) fun i => f i ++ g i := by
  refine ⟨fun hr => ?_, fun hr => ?_⟩
  · obtain ⟨a, ha⟩ := hf.still fun r h => hr r (List.mem_append_left _ h)
    obtain ⟨b, hb⟩ := hg.still fun r h => hr r (List.mem_append_right _ h)
    exact ⟨a ++ b, fun i => congrArg₂ (· ++ ·) (ha i) (hb i)⟩
  · obtain ⟨hreads, hmore, hcross⟩ := List.pairwise_append.mp hr
    -- a live socket on one side leaves none for the other
    by_cases hlive : ∀ r ∈ reads, live r = false
    · exact (hf.still hlive).append_holed (hg.holed hmore)
    · simp only [not_forall, Bool.not_eq_false] at hlive
      obtain ⟨r, hr, hlr⟩ := hlive
      have hstill : ∀ q ∈ more, live q = false := fun q hq =>
        Bool.eq_false_iff.mpr fun hlq => hcross r hr q hq ⟨hlr, hlq⟩
      exact (hf.holed hreads).append_still (hg.still hstill)

theorem Draws.surround (opening closing : String) (h : Draws text live reads f) :
    Draws text live reads fun i => opening ++ f i ++ closing :=
  h.through (keeps_wrap opening closing)

theorem drawsExpr_const (e : Expr) : DrawsExpr text live reads fun _ : ι => e :=
  ⟨still_const _, draws_const _⟩

theorem DrawsExpr.place {e : ι → Expr} (h : DrawsExpr text live reads e) (required : Precedence) :
    DrawsExpr text live reads fun i => (e i).place required := by
  obtain ⟨⟨level, hlevel⟩, htext⟩ := h
  unfold Expr.place
  simp only [hlevel]
  split
  · exact ⟨still_const _, htext.surround "(" ")"⟩
  · exact ⟨⟨level, hlevel⟩, htext⟩

end

/-! ## whole scripts -/

/-- a part stands as it is, between texts that do not depend on it -/
theorem intercalate_around (separator : String) (left right : List String) :
    ∃ pre post : String,
      (String.intercalate separator (left ++ right)).length ≤ (pre ++ post).length
      ∧ ∀ part, String.intercalate separator (left ++ part :: right) = pre ++ part ++ post := by
  induction left with
  | nil =>
    cases right with
    | nil => exact ⟨"", "", by simp, by simp⟩
    | cons next right =>
      refine ⟨"", separator ++ String.intercalate separator (next :: right), by simp, fun part => ?_⟩
      rw [List.nil_append, String.intercalate_cons_cons, String.empty_append, String.append_assoc]
  | cons first left ih =>
    obtain ⟨pre, post, hlength, hpart⟩ := ih
    refine ⟨first ++ separator ++ pre, post, ?_, fun part => ?_⟩
    · cases hrest : left ++ right with
      | nil => simp [hrest]; omega
      | cons next rest =>
        rw [hrest] at hlength
        simp only [List.cons_append, hrest, String.intercalate_cons_cons, String.length_append] at hlength ⊢
        omega
    · have hrest : ∃ next rest, left ++ part :: right = next :: rest := by
        cases left with
        | nil => exact ⟨_, _, rfl⟩
        | cons next left => exact ⟨_, _, rfl⟩
      obtain ⟨next, rest, hrest⟩ := hrest
      rw [List.cons_append, hrest, String.intercalate_cons_cons, ← hrest, hpart]
      simp only [String.append_assoc]

theorem Session.assemble_around (s : Session) (left right : List String) :
    ∃ pre post : String, (s.assemble (left ++ right)).length ≤ (pre ++ post).length
      ∧ ∀ code, code ≠ "" → s.assemble (left ++ code :: right) = pre ++ code ++ post := by
  obtain ⟨pre, post, hlength, hcode⟩ := intercalate_around "\n"
    (([s.importSection, s.variableSection] ++ left).filter (· ≠ "")) (right.filter (· ≠ ""))
  refine ⟨pre, post, ?_, fun code hne => ?_⟩
  · rw [Session.assemble, ← List.append_assoc, List.filter_append]
    exact hlength
  · rw [Session.assemble, ← List.append_assoc, List.filter_append,
      List.filter_cons_of_pos (by simpa using hne), hcode]

theorem Session.assemble_empty (s : Session) (left right : List String) :
    s.assemble (left ++ "" :: right) = s.assemble (left ++ right) := by
  have hnone : ("" :: right).filter (· ≠ "") = right.filter (· ≠ "") := List.filter_cons_of_neg (by decide)
  simp only [Session.assemble, List.filter_append, hnone]

/-- what a chain compiles to shows in the script -/
theorem Session.assemble_cancel {s : Session} (left right : List String) {a b : String}
    (h : s.assemble (left ++ a :: right) = s.assemble (left ++ b :: right)) : a = b := by
  obtain ⟨pre, post, hlength, hcode⟩ := s.assemble_around left right
  -- with a chain the script is longer than without it
  have hlonger : ∀ code, code ≠ "" →
      (s.assemble (left ++ right)).length < (s.assemble (left ++ code :: right)).length := by
    intro code hne
    have hpos : 0 < code.length := Nat.pos_of_ne_zero fun h0 => hne (String.length_eq_zero_iff.mp h0)
    rw [hcode code hne]
    simp only [String.length_append] at hlength ⊢
    omega
  by_cases ha : a = "" <;> by_cases hb : b = ""
  · rw [ha, hb]
  · rw [ha, s.assemble_empty] at h
    exact absurd (congrArg String.length h) (hlonger b hb).ne
  · rw [hb, s.assemble_empty] at h
    exact absurd (congrArg String.length h).symm (hlonger a ha).ne
  · rw [hcode a ha, hcode b hb] at h
    simpa using h

end VisualProgram
