import VisualProgram.Script.Site
import VisualProgram.Proofs.Identifier.Names

/-!
# What a compilation does to its session

A session only grows: a variable keeps its identifier (`Extends`), and every identifier is a name
(`Valid`).  `Yields m post` is the logic of compilations made of that: whatever valid session `m`
starts from, it leads to a valid session that extends it, and `post` holds of the result under every
reading of the variables that agrees with that later session.

A reading that agrees with a session agrees with all sessions before it, so what is known of the first
half of a compilation can be used in the second (`Yields.bind`).
-/

namespace VisualProgram
open Python

namespace Session

/-! ## sessions -/

def Valid (s : Session) : Prop :=
  ∀ v identifier, Assoc.get? v s.identifiers = some identifier → IsName identifier

def Extends (s s' : Session) : Prop :=
  ∀ v identifier, Assoc.get? v s.identifiers = some identifier →
    Assoc.get? v s'.identifiers = some identifier

/-- a reading of the variables that gives each the identifier it has in the session -/
def Agrees (names : String → String) (s : Session) : Prop :=
  ∀ v identifier, Assoc.get? v s.identifiers = some identifier → names v = identifier

theorem Extends.refl (s : Session) : s.Extends s := fun _ _ h => h

theorem Extends.trans {a b c : Session} (hab : a.Extends b) (hbc : b.Extends c) : a.Extends c :=
  fun v identifier h => hbc v identifier (hab v identifier h)

theorem Agrees.of_extends {names : String → String} {s s' : Session} (h : Agrees names s')
    (hs : s.Extends s') : Agrees names s := fun v identifier hv => h v identifier (hs v identifier hv)

/-- the reading of a session itself; what has no identifier is read as it is -/
def nameOf (s : Session) (v : String) : String := (Assoc.get? v s.identifiers).getD v

theorem agrees_nameOf (s : Session) : Agrees s.nameOf s := by
  intro v identifier h
  rw [nameOf, h, Option.getD_some]

/-- what naming a variable does -/
theorem identify_spec {s : Session} (hs : s.Valid) (v : String) :
    (s.identify v).2.Valid ∧ s.Extends (s.identify v).2 ∧ IsName (s.identify v).1
      ∧ Assoc.get? v (s.identify v).2.identifiers = some (s.identify v).1 := by
  unfold Session.identify
  split
  next identifier hv => exact ⟨hs, .refl s, hs v identifier hv, hv⟩
  next hv =>
    have hname : IsName (s.scope.fresh
        (Identifier.ofLabel "variable" v (toString (s.identifiers.length + 1)))) :=
      Identifier.isName_fresh _ (Identifier.isName_ofLabel ⟨by decide, by decide⟩ _ _)
    refine ⟨fun w identifier hw => ?_, fun w identifier hw => ?_, hname, ?_⟩
    · rw [Assoc.get?_append] at hw
      rcases Option.or_eq_some_iff.mp hw with hw | ⟨-, hw⟩
      · exact hs w identifier hw
      · rw [Assoc.get?_cons] at hw
        split at hw
        · cases hw
          exact hname
        · cases hw
    · simp [hw]
    · simp [hv, Assoc.get?_cons]

/-- the sessions of a compiler: it names variables, requires modules and reports -/
inductive Reachable : Session → Prop where
  | initial : Reachable .initial
  | identify {s : Session} (v : String) (h : Reachable s) : Reachable (s.identify v).2
  | require {s : Session} (name : String) (h : Reachable s) : Reachable (s.require name)
  | report {s : Session} (d : Diagnostic) (h : Reachable s) : Reachable (s.report d)

theorem identifiers_require (s : Session) (name : String) :
    (s.require name).identifiers = s.identifiers := by
  unfold Session.require
  split <;> rfl

theorem Reachable.valid {s : Session} (h : s.Reachable) : s.Valid := by
  induction h with
  | initial =>
    intro v identifier h
    cases h
  | identify v _ ih => exact (identify_spec ih v).1
  | require name _ ih =>
    intro v identifier hv
    rw [identifiers_require] at hv
    exact ih v identifier hv
  | report d _ ih => exact ih

end Session

/-! ## compilations -/

/-- what holds of the result of a compilation, from every valid session -/
def Yields {α : Type} (m : Script α) (post : (String → String) → α → Prop) : Prop :=
  ∀ s : Session, s.Valid → (m.run s).2.Valid ∧ s.Extends (m.run s).2
    ∧ ∀ names, Session.Agrees names (m.run s).2 → post names (m.run s).1

namespace Yields
variable {α β : Type} {P Q : (String → String) → α → Prop} {R : (String → String) → β → Prop}

theorem pure {a : α} (h : ∀ names, P names a) : Yields (Pure.pure a) P :=
  fun s hs => ⟨hs, .refl s, fun names _ => h names⟩

theorem imp {m : Script α} (hm : Yields m P) (h : ∀ names a, P names a → Q names a) : Yields m Q :=
  fun s hs => ⟨(hm s hs).1, (hm s hs).2.1, fun names ha => h names _ ((hm s hs).2.2 names ha)⟩

theorem bind {m : Script α} {k : α → Script β} (hm : Yields m P)
    (hk : ∀ a, Yields (k a) fun names b => P names a → R names b) : Yields (m >>= k) R := by
  intro s hs
  obtain ⟨hv, he, hp⟩ := hm s hs
  obtain ⟨hv', he', hr⟩ := hk (m.run s).1 (m.run s).2 hv
  exact ⟨hv', he.trans he', fun names ha => hr names ha (hp names (ha.of_extends he'))⟩

/-- a step that leaves the variables alone -/
theorem modify {f : Session → Session} (h : ∀ s, (f s).identifiers = s.identifiers) :
    Yields (MonadState.modifyGet fun s => (PUnit.unit, f s) : Script PUnit) fun _ _ => True := by
  intro s hs
  refine ⟨fun v identifier hv => ?_, fun v identifier hv => ?_, fun _ _ => trivial⟩
  · exact hs v identifier (h s ▸ hv)
  · exact (h s).symm ▸ hv

theorem identify (v : String) :
    Yields (modifyGet (Session.identify v)) fun names identifier =>
      IsName identifier ∧ names v = identifier := by
  intro s hs
  obtain ⟨hv, he, hname, hget⟩ := Session.identify_spec hs v
  exact ⟨hv, he, fun names ha => ⟨hname, ha v _ hget⟩⟩

end Yields

end VisualProgram
