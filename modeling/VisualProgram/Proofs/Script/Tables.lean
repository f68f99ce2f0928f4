import VisualProgram.Rule.Standard
import VisualProgram.Proofs.Identifier.Names
import VisualProgram.Proofs.Script.Meaning

/-!
# The tables of operators and functions

An entry of a table states a level for its result and asks for levels of its operands.  The entry is
sound for an operation on trees (`Operator.Sound`, `FunctionForm.Sound`) if operands of these levels
give a text of that level that denotes the result of the operation.

Every entry of the standard tables is sound, so no operand is taken up by a neighbouring operator
whatever it is made of.
-/

namespace VisualProgram
open Python

/-! ## entries -/

def Operator.Sound (op : Operator) (f : Tree → Tree → Tree) : Prop :=
  ∀ ls rs l r, Denotes op.left ls l → Denotes op.right rs r →
    Denotes op.level (ls ++ (op.symbol.toList ++ rs)) (f l r)

def FunctionForm.Sound (form : FunctionForm) (f : Tree → Tree) : Prop :=
  ∀ cs t, Denotes form.operand cs t →
    Denotes form.level (form.opening.toList ++ (cs ++ form.closing.toList)) (f t)

/-- two tables with the same names in the same order, entry by entry -/
def Matches {α β : Type} (R : String → α → β → Prop) (a : List (String × α))
    (b : List (String × β)) : Prop :=
  List.Forall₂ (fun x y => x.1 = y.1 ∧ R x.1 x.2 y.2) a b

theorem Matches.get? {α β : Type} {R : String → α → β → Prop} {a : List (String × α)}
    {b : List (String × β)} (h : Matches R a b) (name : String) :
    (Assoc.get? name a = none ∧ Assoc.get? name b = none)
    ∨ ∃ x y, Assoc.get? name a = some x ∧ Assoc.get? name b = some y ∧ R name x y := by
  induction h with
  | nil => exact Or.inl ⟨rfl, rfl⟩
  | @cons x y a b hxy _ ih =>
    obtain ⟨k, v⟩ := x
    obtain ⟨l, w⟩ := y
    obtain ⟨rfl, hr⟩ := hxy
    by_cases hk : k = name
    · exact Or.inr ⟨v, w, if_pos hk, if_pos hk, hk ▸ hr⟩
    · rw [Assoc.get?_cons, Assoc.get?_cons, if_neg hk, if_neg hk]
      exact ih

namespace Rule.Standard

/-! ## operators -/

theorem arithmetic_sound : Matches (fun _ => Operator.Sound) arithmetic.operators
    [("ADD", Tree.binary .add), ("MINUS", Tree.binary .sub), ("MULTIPLY", Tree.binary .mul),
     ("DIVIDE", Tree.binary .div), ("POWER", Tree.power)] := by
  refine .cons ⟨rfl, fun ls rs l r hl hr => ?_⟩ (.cons ⟨rfl, fun ls rs l r hl hr => ?_⟩
    (.cons ⟨rfl, fun ls rs l r hl hr => ?_⟩ (.cons ⟨rfl, fun ls rs l r hl hr => ?_⟩
    (.cons ⟨rfl, fun ls rs l r hl hr => ?_⟩ .nil))))
  · exact Denotes.flat .add Infix.flat_add hl hr
  · exact Denotes.binary .sub hl hr
  · exact Denotes.binary .mul hl hr
  · exact Denotes.binary .div hl hr
  · exact Denotes.power hl (hr.mono (by decide))

theorem connective_sound : Matches (fun _ => Operator.Sound) connective.operators
    [("AND", Tree.binary .and), ("OR", Tree.binary .or)] := by
  refine .cons ⟨rfl, fun ls rs l r hl hr => ?_⟩ (.cons ⟨rfl, fun ls rs l r hl hr => ?_⟩ .nil)
  · exact Denotes.flat .and Infix.flat_and hl hr
  · exact Denotes.flat .or Infix.flat_or hl hr

theorem comparison_sound : Matches (fun _ => Operator.Sound) comparison.operators
    [("EQ", Python.comparison .eq), ("NEQ", Python.comparison .ne), ("LT", Python.comparison .lt),
     ("LTE", Python.comparison .le), ("GT", Python.comparison .gt), ("GTE", Python.comparison .ge)] :=
  .cons ⟨rfl, fun _ _ _ _ hl hr => hl.compare .eq hr⟩
    (.cons ⟨rfl, fun _ _ _ _ hl hr => hl.compare .ne hr⟩
    (.cons ⟨rfl, fun _ _ _ _ hl hr => hl.compare .lt hr⟩
    (.cons ⟨rfl, fun _ _ _ _ hl hr => hl.compare .le hr⟩
    (.cons ⟨rfl, fun _ _ _ _ hl hr => hl.compare .gt hr⟩
    (.cons ⟨rfl, fun _ _ _ _ hl hr => hl.compare .ge hr⟩ .nil)))))

/-! ## functions -/

theorem callForm_sound {opening : String} {f : Tree} (h : Opens opening.toList f)
    (needs : Option String) : (callForm opening needs).Sound fun t => .call f [t] := by
  intro cs t ht
  simpa [callForm] using ht.call h

theorem namedCall_sound (name opening : String) (needs : Option String)
    (ho : opening.toList = name.toList ++ ['(']) (h : IsName name) :
    (callForm opening needs).Sound (namedCall name) :=
  callForm_sound (ho ▸ h.opens) needs

theorem mathCall_sound (name opening : String) (needs : Option String)
    (ho : opening.toList = "math".toList ++ ('.' :: (name.toList ++ ['(']))) (h : IsName name)
    (hdot : Stops (· == '.') name.toList) :
    (callForm opening needs).Sound (mathCall name) :=
  callForm_sound (ho ▸ opens_member (by decide) h hdot) needs

theorem single_sound : Matches (fun _ => FunctionForm.Sound) single.forms
    [("ROOT", mathCall "sqrt"), ("ABS", namedCall "abs"), ("NEG", Tree.neg), ("LN", mathCall "log"),
     ("LOG10", mathCall "log10"), ("EXP", mathCall "exp"), ("POW10", Tree.power (.int 10))] := by
  refine .cons ⟨rfl, mathCall_sound "sqrt" _ _ rfl (by decide) (stops_cons rfl _)⟩
    (.cons ⟨rfl, namedCall_sound "abs" _ _ rfl (by decide)⟩
    (.cons ⟨rfl, fun cs t h => ?_⟩
    (.cons ⟨rfl, mathCall_sound "log" _ _ rfl (by decide) (stops_cons rfl _)⟩
    (.cons ⟨rfl, mathCall_sound "log10" _ _ rfl (by decide) (stops_cons rfl _)⟩
    (.cons ⟨rfl, mathCall_sound "exp" _ _ rfl (by decide) (stops_cons rfl _)⟩
    (.cons ⟨rfl, fun cs t h => ?_⟩ .nil))))))
  · simpa using h.neg
  · have hten : Denotes .call ['1', '0'] (.int 10) := (spells_nat 10).denotes.mono (by decide)
    simpa [spaced] using hten.power (h.mono (by decide))

theorem rounding_sound : Matches (fun _ => FunctionForm.Sound) rounding.forms
    [("ROUND", namedCall "round"), ("ROUNDUP", mathCall "ceil"), ("ROUNDDOWN", mathCall "floor")] :=
  .cons ⟨rfl, namedCall_sound "round" _ _ rfl (by decide)⟩
    (.cons ⟨rfl, mathCall_sound "ceil" _ _ rfl (by decide) (stops_cons rfl _)⟩
    (.cons ⟨rfl, mathCall_sound "floor" _ _ rfl (by decide) (stops_cons rfl _)⟩ .nil))

end Rule.Standard

end VisualProgram
