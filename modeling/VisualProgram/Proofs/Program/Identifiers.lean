import VisualProgram.Proofs.Identifier.Scopes
import VisualProgram.Proofs.Program.Faithful

/-!
# The names in a program

A program gives every node a variable and takes every class by its name.  The variables are claimed in one
scope, so they are all different and none is a name that the program uses for itself.

That no variable is named like a class is a matter of case: a variable is made of small letters, digits and
underscores, and a class has a capital, be it one of the table or made from a type tag
(`hasCapital_resolve`).
-/

namespace VisualProgram.Program
open Python

/-! ## variables -/

theorem identifiers_plan (t : Toolchain) (scope : Scope) (nodes : List Node) :
    (plan t scope nodes).map Instance.identifier = scope.claims (nodes.map nodeIdentifier) := by
  induction nodes generalizing scope with
  | nil => rfl
  | cons node rest ih =>
    rw [plan_cons, List.map_cons, ih]
    rfl

section
variable {t : Toolchain} {scope : Scope} {nodes : List Node}

theorem mem_claims_of_mem_plan {i : Instance} (hi : i ∈ plan t scope nodes) :
    i.identifier ∈ scope.claims (nodes.map nodeIdentifier) := by
  rw [← identifiers_plan t]
  exact List.mem_map_of_mem hi

/-- every variable is a name -/
theorem isName_identifier {i : Instance} (hi : i ∈ plan t scope nodes) : IsName i.identifier := by
  refine Scope.forall_claims (P := IsName) (fun s base => Identifier.isName_fresh s) ?_ _
    (mem_claims_of_mem_plan hi)
  exact List.forall_mem_map.mpr fun node _ => Identifier.isName_ofLabel (by decide) _ _

/-- no variable has a capital -/
theorem isClean_identifier {i : Instance} (hi : i ∈ plan t scope nodes) :
    ∀ c ∈ i.identifier.toList, Identifier.isCleanChar c = true := by
  refine Scope.forall_claims (P := fun name => ∀ c ∈ name.toList, Identifier.isCleanChar c = true)
    (fun s base => Identifier.isCleanChar_fresh s) ?_ _ (mem_claims_of_mem_plan hi)
  have hstem : ∀ c ∈ "component".toList, Identifier.isCleanChar c = true :=
    List.all_eq_true.mp (by decide)
  exact List.forall_mem_map.mpr fun node _ => Identifier.isCleanChar_ofLabel hstem _ _

end

/-! ## classes -/

theorem hasCapital_resolve (type : String) :
    (Toolchain.standard.resolve type).name.toList.any Char.isUpper = true := by
  have htable : ∀ entry ∈ Component.table, entry.2.name.toList.any Char.isUpper = true := by
    decide +kernel
  rcases resolve_cases type with ⟨entry, hentry, hname⟩ | hname
  · rw [hname]
    exact htable entry hentry
  · rw [hname, Identifier.className, String.toList_append, List.any_append]
    exact Bool.or_eq_true_iff.mpr (Or.inr (by decide))

theorem named_plan (scope : Scope) (nodes : List Node) :
    ∀ i ∈ plan .standard scope nodes, i.Named := by
  refine fun i hi => ⟨isName_identifier hi, ?_⟩
  rw [className_of_mem_plan i hi]
  exact isName_resolve i.node.type

/-- no variable is the name of a class -/
theorem ne_class_of_mem_plan {t : Toolchain} {scope : Scope} {nodes : List Node} {i : Instance}
    (hi : i ∈ plan t scope nodes) (type : String) :
    i.identifier ≠ (Toolchain.standard.resolve type).name :=
  Identifier.ne_of_clean (isClean_identifier hi) (hasCapital_resolve type)

/-! ## the names of a program -/

/-- the text of a program makes an instance of every node, under variables that are all different.  Each is a
name, none is used by the program for itself, and none is the name of a class that is imported or
instantiated.  The class of every type, known or not, has a name that is one -/
theorem identifiers_never_clash :
    (∀ g : Graph,
      let instances := plan .standard (.reserving scaffoldNames) g.nodes
      outline? 4 (compile .standard g).source = some (programItems g.info (compile .standard g).classes
        (engineItems Options.standard.indent instances g.wires))
      ∧ instances.map Instance.node = g.nodes
      ∧ (instances.map Instance.identifier).Nodup
      ∧ ∀ i ∈ instances, IsName i.identifier ∧ i.identifier ∉ scaffoldNames
        ∧ i.identifier ∉ Options.standard.engineClass :: (compile .standard g).classes
        ∧ ∀ j ∈ instances, i.identifier ≠ j.className)
    ∧ ∀ type : String, IsName (Toolchain.standard.resolve type).name := by
  refine ⟨fun g => ⟨?_, nodes_plan _ _ _, ?_, fun i hi => ⟨isName_identifier hi, ?_, ?_, fun j hj => ?_⟩⟩,
    isName_resolve⟩
  · rw [classes_compile]
    exact outline?_compile g (named_plan _ _)
  · rw [identifiers_plan]
    exact Scope.nodup_claims _ _
  · exact Scope.not_mem_of_mem_claims _ (mem_claims_of_mem_plan hi)
  · rw [classes_compile, classNames, List.mem_cons, List.mem_eraseDups, not_or]
    refine ⟨Identifier.ne_of_clean (isClean_identifier hi) (by decide), fun hclass => ?_⟩
    obtain ⟨node, -, hname⟩ := List.mem_map.mp hclass
    exact ne_class_of_mem_plan hi node.type hname.symm
  · rw [className_of_mem_plan j hj]
    exact ne_class_of_mem_plan hi j.node.type

example : (plan .standard (.reserving scaffoldNames)
    [⟨"a", "timer", "engine", .origin, []⟩, ⟨"b", "timer", "Sensor", .origin, []⟩,
     ⟨"c", "timer", "sensor", .origin, []⟩, ⟨"d", "timer", "", .origin, []⟩]).map Instance.identifier
    = ["engine_2", "sensor", "sensor_2", "d"] := by decide +kernel

end VisualProgram.Program
