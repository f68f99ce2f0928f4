import VisualProgram.Fault

/-!
# Runs of an editor

`Answers edit s cause` says what an edit does to the state `s`: it is refused for the cause and leaves
`s` as it was, or there is no cause and it goes through.  `Answers.bind` is the rule of every edit that
checks first and changes afterwards: its first part decides on the refusal, and what follows has to go
through.

`settle` forgets the state that a refused edit leaves, which makes an edit in place comparable to one
by value; `left` keeps nothing but the state.
-/

namespace VisualProgram.Editing
variable {σ α β : Type} {s t : σ}

/-- an edit of `s` is refused for the given cause and leaves `s` as it was; without a cause it is
carried out -/
def Answers (edit : Editing σ α) (s : σ) : Option EditError → Prop
  | some e => edit.run s = .error e s
  | none => ∃ a t, edit.run s = .ok a t

/-- the edit goes through from `s`, whatever it gives -/
def Succeeds (edit : Editing σ α) (s : σ) : Prop := ∃ a t, edit.run s = .ok a t

@[simp] theorem run_get (s : σ) : (get : Editing σ σ).run s = .ok s s := rfl

@[simp] theorem run_found_some (e : EditError) (a : α) (s : σ) : (found e (some a)).run s = .ok a s := rfl

theorem run_bind_ok {x : Editing σ α} {f : α → Editing σ β} {a : α} (h : x.run s = .ok a t) :
    (x >>= f).run s = (f a).run t := by
  show EStateM.bind x f s = _
  rw [EStateM.bind]
  rw [show x s = .ok a t from h]
  rfl

theorem run_bind_error {x : Editing σ α} {f : α → Editing σ β} {e : EditError}
    (h : x.run s = .error e t) : (x >>= f).run s = .error e t := by
  show EStateM.bind x f s = _
  rw [EStateM.bind]
  rw [show x s = .error e t from h]

theorem succeeds_pure (a : α) (s : σ) : Succeeds (pure a : Editing σ α) s := ⟨a, s, rfl⟩

/-- what follows a first part that decides on the refusal has to go through -/
theorem Answers.bind {x : Editing σ α} {f : α → Editing σ β} {cause : Option EditError}
    (hx : Answers x s cause) (hf : ∀ a t, x.run s = .ok a t → Succeeds (f a) t) :
    Answers (x >>= f) s cause := by
  cases cause with
  | some e => exact run_bind_error hx
  | none =>
    obtain ⟨a, t, h⟩ := hx
    obtain ⟨b, u, h'⟩ := hf a t h
    exact ⟨b, u, by rw [run_bind_ok h, h']⟩

theorem Succeeds.bind {x : Editing σ α} {f : α → Editing σ β} (hx : Succeeds x s)
    (hf : ∀ a t, Succeeds (f a) t) : Succeeds (x >>= f) s := by
  have hanswers : Answers x s none := hx
  exact hanswers.bind fun a t _ => hf a t

/-- a refused edit has changed nothing -/
theorem Answers.eq_of_refused {edit : Editing σ α} {cause : Option EditError} {e : EditError}
    (h : Answers edit s cause) (hrun : edit.run s = .error e t) : t = s := by
  cases cause with
  | some e' =>
    have herror := hrun.symm.trans h
    cases herror
    rfl
  | none =>
    obtain ⟨a, u, hok⟩ := h
    have herror := hrun.symm.trans hok
    cases herror

/-! ## both kinds of editing -/

/-- what an edit in place gives, its trace on a refused edit left aside -/
def settle : EStateM.Result EditError σ α → Except EditError (α × σ)
  | .ok a s => .ok (a, s)
  | .error e _ => .error e

/-- the state an edit leaves behind, whether it was refused or not -/
def left : EStateM.Result EditError σ α → σ
  | .ok _ s => s
  | .error _ s => s

theorem settle_bind (x : Editing σ α) (f : α → Editing σ β) (s : σ) :
    settle ((x >>= f).run s)
      = (settle (x.run s)).bind fun result => settle ((f result.1).run result.2) := by
  cases h : x.run s with
  | ok a t =>
    rw [run_bind_ok h]
    rfl
  | error e t =>
    rw [run_bind_error h]
    rfl

/-- an edit that changes nothing when it is refused leaves what the edit by value gives -/
theorem Answers.left_eq {edit : Editing σ Unit} {cause : Option EditError} {value : Except EditError σ}
    (h : Answers edit s cause) (hv : settle (edit.run s) = value.map fun t => ((), t)) :
    left (edit.run s) = value.toOption.getD s := by
  cases hrun : edit.run s with
  | ok a t =>
    rw [hrun] at hv
    cases value with
    | ok t' =>
      cases hv
      rfl
    | error e => cases hv
  | error e t =>
    rw [hrun] at hv
    cases value with
    | ok t' => cases hv
    | error e' => exact h.eq_of_refused hrun

end VisualProgram.Editing
