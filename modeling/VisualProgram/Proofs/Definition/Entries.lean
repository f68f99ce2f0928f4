import VisualProgram.Proofs.Decimal.Finite
import VisualProgram.Proofs.Definition.Descriptors
import Mathlib.Data.List.Forall2

/-!
# The entries of a schema

A schema is an object, and its member `args0` lists an entry for every argument that the definition
declares.  What an entry must have depends on its kind (`Kind.Demands`), and an argument is written as an
entry that has it exactly if the argument is `Sound`: every check and list of options is not empty, and
every number is finite.

Checks and options are seen to by their defaults.  A number is not: a field of `number` kind may hold a
text that denotes an infinite float or none, and then its entry says `null` (`Descriptor.Unwritable`).
-/

namespace VisualProgram.Definition

/-! ## members of a schema -/

/-- the entries that a schema lists -/
def args0 (schema : Json) : List Json :=
  match schema.member? "args0" with
  | some (.array entries) => entries
  | _ => []

namespace Schema
variable (s : Schema)

theorem member?_message0 : s.toJson.member? "message0" = some (.string s.message) := rfl

/-- a list without entries is left out -/
theorem member?_args0 : s.toJson.member? "args0"
    = if s.arguments = [] then none else some (.array (s.arguments.map Argument.toJson)) := by
  show Assoc.get? "args0" (_ ++ _ ++ _ ++ _ ++ _ ++ _) = _
  simp only [Assoc.get?_append]
  by_cases h : s.arguments = []
  · cases s.connections.output <;> cases s.connections.previous <;> cases s.connections.next <;>
      simp [h, Assoc.get?]
  · simp [h, Assoc.get?]

theorem args0_toJson : args0 s.toJson = s.arguments.map Argument.toJson := by
  rw [args0, member?_args0]
  by_cases h : s.arguments = []
  · rw [if_pos h, h]
    rfl
  · rw [if_neg h]

/-- a schema has the member if it has an output -/
theorem member?_output : s.toJson.member? "output" = s.connections.output := by
  show Assoc.get? "output" (_ ++ _ ++ _ ++ _ ++ _ ++ _) = _
  simp only [Assoc.get?_append]
  cases s.connections.output <;> cases s.connections.previous <;> cases s.connections.next <;>
    by_cases h : s.arguments = [] <;> simp [h, Assoc.get?]

end Schema

/-! ## well-formed entries -/

/-- what an entry of a kind has beside its type and its name -/
def Kind.Demands (members : List (String × Json)) : Kind → Prop
  | .value => ∀ check, Assoc.get? "check" members = some check → ∃ text, text ≠ "" ∧ check = .string text
  | .text => ∃ text, Assoc.get? "text" members = some (.string text)
  | .number => ∃ n, Assoc.get? "value" members = some (.number n)
  | .choice => ∃ options, options ≠ [] ∧ Assoc.get? "options" members = some (.array options)
      ∧ ∀ option ∈ options, ∃ label value, option = .array [.string label, .string value]
  | .checkbox => ∃ b, Assoc.get? "checked" members = some (.bool b)
  | .statement | .dummy | .label => True

/-- an object whose type is the tag of a kind, with a name unless it is a dummy, and all that the kind
demands -/
def IsEntry (entry : Json) : Prop :=
  ∃ members, entry = .object members
    ∧ ∃ kind : Kind, kind ≠ .label
      ∧ Assoc.get? "type" members = some (.string kind.tag)
      ∧ (kind ≠ .dummy → ∃ name, Assoc.get? "name" members = some (.string name))
      ∧ kind.Demands members

/-- the type says which kind it is that has to be met -/
theorem isEntry_iff {members : List (String × Json)} {kind : Kind} (hlabel : kind ≠ .label)
    (htype : Assoc.get? "type" members = some (.string kind.tag)) :
    IsEntry (.object members)
      ↔ (kind ≠ .dummy → ∃ name, Assoc.get? "name" members = some (.string name)) ∧ kind.Demands members := by
  constructor
  · rintro ⟨members', hmembers, kind', -, htype', hname, hdemands⟩
    cases hmembers
    have hkind : kind' = kind := by
      rw [htype] at htype'
      injection htype' with htag
      injection htag with htag
      exact Kind.tag_inj htag.symm
    rw [hkind] at hname hdemands
    exact ⟨hname, hdemands⟩
  · rintro ⟨hname, hdemands⟩
    exact ⟨members, rfl, kind, hlabel, htype, hname, hdemands⟩

theorem ofFloat_eq_number_iff (x : Float) : (∃ n, Json.ofFloat x = .number n) ↔ x.isFinite = true := by
  unfold Json.ofFloat Number.ofFloat?
  by_cases h : x.isFinite = true
  · simp [h]
  · simp [h]

namespace Argument

def kind : Argument → Kind
  | .value _ _ => .value
  | .statement _ => .statement
  | .dummy => .dummy
  | .text _ _ => .text
  | .number _ _ => .number
  | .choice _ _ => .choice
  | .checkbox _ _ => .checkbox

/-- what is written of an argument is what its kind demands -/
def Sound : Argument → Prop
  | .value _ check => check ≠ some ""
  | .number _ amount => amount.isFinite = true
  | .choice _ options => options ≠ []
  | .statement _ | .dummy | .text _ _ | .checkbox _ _ => True

theorem get?_type (a : Argument) : ∃ members, a.toJson = .object members
    ∧ Assoc.get? "type" members = some (.string a.kind.tag) := by
  cases a with
  | _ => exact ⟨_, rfl, rfl⟩

theorem kind_ne_label (a : Argument) : a.kind ≠ .label := by cases a <;> simp [kind]

/-- every argument but a dummy is written with its name -/
theorem member?_name (a : Argument) : a.toJson.member? "name" = a.name?.map Json.string := by
  cases a <;> rfl

theorem name?_eq_none_iff (a : Argument) : a.name? = none ↔ a.kind = .dummy := by
  cases a <;> simp [name?, kind]

theorem named_toJson {a : Argument} {members : List (String × Json)} (h : a.toJson = .object members)
    (hkind : a.kind ≠ .dummy) : ∃ name, Assoc.get? "name" members = some (.string name) := by
  have hname := member?_name a
  rw [h] at hname
  cases hn : a.name? with
  | none => exact absurd ((name?_eq_none_iff a).mp hn) hkind
  | some name =>
    rw [hn] at hname
    exact ⟨name, hname⟩

/-- the members of an argument meet its kind exactly if the argument is sound -/
theorem demands_iff {a : Argument} {members : List (String × Json)} (h : a.toJson = .object members) :
    a.kind.Demands members ↔ a.Sound := by
  cases a with
  | value name check =>
    cases h
    cases check with
    | none => simp [kind, Kind.Demands, Sound, Assoc.get?]
    | some text => simp [kind, Kind.Demands, Sound, Assoc.get?]
  | statement name => exact Iff.rfl
  | dummy => exact Iff.rfl
  | text name contents =>
    cases h
    exact ⟨fun _ => trivial, fun _ => ⟨contents, rfl⟩⟩
  | number name amount =>
    cases h
    refine Iff.trans ?_ (ofFloat_eq_number_iff amount)
    exact exists_congr fun n => Option.some_inj
  | choice name options =>
    cases h
    constructor
    · rintro ⟨entries, hne, hentries, -⟩ hnil
      rw [hnil] at hentries
      cases hentries
      exact hne rfl
    · intro hne
      refine ⟨options.map optionToJson, fun hmap => hne (List.map_eq_nil_iff.mp hmap), rfl, ?_⟩
      intro option hoption
      obtain ⟨pair, -, rfl⟩ := List.mem_map.mp hoption
      exact ⟨pair.1, pair.2, rfl⟩
  | checkbox name checked =>
    cases h
    exact ⟨fun _ => trivial, fun _ => ⟨checked, rfl⟩⟩

theorem isEntry_toJson_iff (a : Argument) : IsEntry a.toJson ↔ a.Sound := by
  obtain ⟨members, hmembers, htype⟩ := get?_type a
  rw [hmembers, isEntry_iff (kind_ne_label a) htype, demands_iff hmembers]
  exact and_iff_right (named_toJson hmembers)

end Argument

/-! ## entries of a definition -/

namespace Descriptor

/-- a number whose field is a text that denotes a float without a spelling in the schema -/
def Unwritable (d : Descriptor) : Prop :=
  d.kind? = some .number
    ∧ ∃ text x, Assoc.get? "VALUE" d.fields = some (.string text)
      ∧ Decimal.float? (Text.trim text.toList) = some x ∧ x.isFinite = false

theorem options_ne_nil (d : Descriptor) : d.options ≠ [] := by
  unfold options
  cases optionsOf d.block <;> simp

theorem nonempty?_ne (text : Option String) : nonempty? text ≠ some "" := by
  intro h
  have hne := (Option.filter_eq_some_iff.mp h).2
  simp at hne

/-- the number of a field is finite unless the field is a text that says otherwise -/
theorem isFinite_float?_iff (fields : List (String × Json)) :
    ((Field.float? "VALUE" fields).getD 0).isFinite = true
      ↔ ¬ ∃ text x, Assoc.get? "VALUE" fields = some (.string text)
        ∧ Decimal.float? (Text.trim text.toList) = some x ∧ x.isFinite = false := by
  have hzero : (0 : Float).isFinite = true := by decide
  rw [Field.float?]
  cases Assoc.get? "VALUE" fields with
  | none => simpa using hzero
  | some v =>
    cases v with
    | number n => simpa [Field.toFloat?] using n.isFinite_toFloat
    | string text =>
      cases hx : Decimal.float? (Text.trim text.toList) with
      | none => simpa [Field.toFloat?, hx] using hzero
      | some x => simp [Field.toFloat?, hx]
    | null => simpa [Field.toFloat?] using hzero
    | bool b => simpa [Field.toFloat?] using hzero
    | array items => simpa [Field.toFloat?] using hzero
    | object members => simpa [Field.toFloat?] using hzero

/-- the argument of a descriptor is sound unless its number cannot be written -/
theorem sound_iff {d : Descriptor} {a : Argument} (h : d.argument? = some a) : a.Sound ↔ ¬ d.Unwritable := by
  obtain ⟨k, hkind, hpiece⟩ := argument?_eq_some_iff.mp h
  have hother : k ≠ .number → ¬ d.Unwritable := by
    rintro hne ⟨hnumber, -⟩
    rw [hkind] at hnumber
    exact hne (Option.some_inj.mp hnumber)
  cases k with
  | label =>
    have hlabel : d.pieceOf .label = if d.text = "" then none else some (.label d.text) := rfl
    rw [hlabel] at hpiece
    split at hpiece <;> cases hpiece
  | number =>
    cases hpiece
    refine (isFinite_float?_iff d.fields).trans (not_congr ?_)
    exact (and_iff_right hkind).symm
  | value =>
    cases hpiece
    exact iff_of_true (nonempty?_ne _) (hother (by decide))
  | choice =>
    cases hpiece
    exact iff_of_true d.options_ne_nil (hother (by decide))
  | statement => cases hpiece; exact iff_of_true trivial (hother (by decide))
  | dummy => cases hpiece; exact iff_of_true trivial (hother (by decide))
  | text => cases hpiece; exact iff_of_true trivial (hother (by decide))
  | checkbox => cases hpiece; exact iff_of_true trivial (hother (by decide))

/-- what is written where there is no number -/
theorem toJson_of_unwritable {d : Descriptor} (h : d.Unwritable) :
    d.argument?.map Argument.toJson
      = some (.object [("type", .string "field_number"), ("name", .string d.name), ("value", .null)]) := by
  obtain ⟨hkind, text, x, htext, hx, hinfinite⟩ := h
  have hvalue : Field.float? "VALUE" d.fields = some x := by
    rw [Field.float?, htext, Option.bind_some, Field.toFloat?, hx]
  have hnull : Json.ofFloat x = .null := by simp [Json.ofFloat, Number.ofFloat?, hinfinite]
  rw [argument?_eq_some_iff.mpr ⟨.number, hkind, rfl⟩, hvalue, Option.map_some, Option.getD_some, Argument.toJson,
    hnull]

end Descriptor

/-- the descriptors that declare an argument -/
def declaring (root : Block) : List Descriptor := (descriptors root).filter fun d => d.argument?.isSome

theorem forall₂_filterMap {α β γ : Type} {R : α → γ → Prop} {f : α → Option β} {g : β → γ} {l : List α}
    (h : ∀ x ∈ l, ∀ y, f x = some y → R x (g y)) :
    List.Forall₂ R (l.filter fun x => (f x).isSome) ((l.filterMap f).map g) := by
  induction l with
  | nil => exact .nil
  | cons x rest ih =>
    obtain ⟨hx, hrest⟩ := List.forall_mem_cons.mp h
    cases hf : f x with
    | none =>
      rw [List.filter_cons_of_neg (by simp [hf]), List.filterMap_cons_none hf]
      exact ih hrest
    | some y =>
      rw [List.filter_cons_of_pos (by simp [hf]), List.filterMap_cons_some hf]
      exact .cons (hx y hf) (ih hrest)

theorem args0_schemaOf (root : Block) :
    args0 (schemaOf root).toJson = ((descriptors root).filterMap Descriptor.argument?).map Argument.toJson := by
  rw [Schema.args0_toJson, ← arguments_collect]
  rfl

theorem not_isEntry_of_unwritable {root : Block} {d : Descriptor} (hd : d ∈ descriptors root) (h : d.Unwritable) :
    ∃ entry ∈ args0 (schemaOf root).toJson, ¬ IsEntry entry := by
  have hargument : d.argument? = some (.number d.name ((Field.float? "VALUE" d.fields).getD 0)) :=
    Descriptor.argument?_eq_some_iff.mpr ⟨.number, h.1, rfl⟩
  rw [args0_schemaOf]
  refine ⟨_, List.mem_map_of_mem (List.mem_filterMap.mpr ⟨d, hd, hargument⟩), fun hentry => ?_⟩
  exact (Descriptor.sound_iff hargument).mp ((Argument.isEntry_toJson_iff _).mp hentry) h

/-- every entry of a schema is what its kind demands, but for a number whose field is a text that denotes an
infinite float or none: in the place of its value stands `null`, and all else is as it should be -/
theorem entries_wellFormed_iff (root : Block) (h : root.tag = rootTag) :
    ∃ s, (compile (some root)).definition = some s ∧ (compile (some root)).schema = s.toJson.pretty
      ∧ List.Forall₂ (fun d entry => (IsEntry entry ↔ ¬ d.Unwritable)
          ∧ (d.Unwritable → entry
            = .object [("type", .string "field_number"), ("name", .string d.name), ("value", .null)]))
        (declaring root) (args0 s.toJson)
      ∧ ((∀ entry ∈ args0 s.toJson, IsEntry entry) ↔ ∀ d ∈ descriptors root, ¬ d.Unwritable) := by
  refine ⟨schemaOf root, by rw [compile_root h]; rfl, by rw [compile_root h]; rfl, ?_, ?_⟩
  · rw [args0_schemaOf]
    refine forall₂_filterMap fun d _ a ha => ⟨?_, fun hd => ?_⟩
    · rw [Argument.isEntry_toJson_iff, Descriptor.sound_iff ha]
    · have hjson := Descriptor.toJson_of_unwritable hd
      rw [ha] at hjson
      exact Option.some_inj.mp hjson
  · constructor
    · intro hall d hd hun
      obtain ⟨entry, hentry, hnot⟩ := not_isEntry_of_unwritable hd hun
      exact hnot (hall entry hentry)
    · intro hall entry hentry
      rw [args0_schemaOf] at hentry
      obtain ⟨a, ha, rfl⟩ := List.mem_map.mp hentry
      obtain ⟨d, hd, hda⟩ := List.mem_filterMap.mp ha
      exact (Argument.isEntry_toJson_iff a).mpr ((Descriptor.sound_iff hda).mpr (hall d hd))

/-- a definition with one number, whose field holds a value -/
def numberRoot (value : Json) : Block :=
  ⟨"r", rootTag, [], [],
    [("INPUTS", ⟨"i", "input_dummy", [], [],
      [("FIELDS", ⟨"f", "field_number", [("FIELDNAME", .string "N"), ("VALUE", value)], [], [], none⟩)], none⟩)],
    none⟩

theorem descriptors_numberRoot (value : Json) :
    descriptors (numberRoot value)
      = [⟨.field, "f", "field_number", [("FIELDNAME", .string "N"), ("VALUE", value)]⟩,
         ⟨.input, "i", "input_dummy", []⟩] := rfl

/-- the greatest power of ten that is a float, kept as text -/
theorem entries_wellFormed_iff_numberRoot :
    (numberRoot (.string " 1e308 ")).tag = rootTag
      ∧ ∃ s, (compile (some (numberRoot (.string " 1e308 ")))).definition = some s
        ∧ ∀ entry ∈ args0 s.toJson, IsEntry entry := by
  refine ⟨rfl, ?_⟩
  obtain ⟨s, hs, -, -, hall⟩ := entries_wellFormed_iff (numberRoot (.string " 1e308 ")) rfl
  refine ⟨s, hs, hall.mpr fun d hd => ?_⟩
  rw [descriptors_numberRoot] at hd
  rcases List.mem_pair.mp hd with rfl | rfl
  · rintro ⟨-, text, x, htext, hx, hinfinite⟩
    cases htext
    have hfinite : (Decimal.float? (Text.trim " 1e308 ".toList)).all Float.isFinite = true := by decide +kernel
    rw [hx, Option.all_some, hinfinite] at hfinite
    cases hfinite
  · rintro ⟨hkind, -⟩
    exact absurd hkind (by decide)

theorem unwritable_nan : (⟨.field, "f", "field_number",
    [("FIELDNAME", .string "N"), ("VALUE", .string " NaN ")]⟩ : Descriptor).Unwritable := by
  refine ⟨by decide, " NaN ", 0.0 / 0.0, rfl, ?_, ?_⟩
  · decide +kernel
  · decide +kernel

/-- the text for no number is read as a float, which is then written as `null` -/
theorem entry_without_number :
    (numberRoot (.string " NaN ")).tag = rootTag
      ∧ ∃ s, (compile (some (numberRoot (.string " NaN ")))).definition = some s
        ∧ ¬ ∀ entry ∈ args0 s.toJson, IsEntry entry := by
  refine ⟨rfl, schemaOf (numberRoot (.string " NaN ")), rfl, fun hall => ?_⟩
  obtain ⟨entry, hentry, hnot⟩ := not_isEntry_of_unwritable
    (by rw [descriptors_numberRoot]; exact List.mem_cons_self) unwritable_nan
  exact hnot (hall entry hentry)

end VisualProgram.Definition
