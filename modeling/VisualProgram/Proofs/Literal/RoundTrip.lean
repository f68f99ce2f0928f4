import VisualProgram.Proofs.Literal.Spelling

/-!
# Literals read back

`read?` reads a literal: it cuts the text into tokens, parses them as an expression and takes the
value of the tree, with nothing left over.  A literal reads back as the value it was written from,
whatever the indentation (`read_render`), given that the digits of its floats do.
-/

namespace VisualProgram.Python

/-! ## values of trees -/

def intValue? (n : Int) : Option Json := (Number.ofInt? n).map Json.number

def floatValue? (cs : List Char) : Option Json :=
  (Decimal.float? cs).bind fun x => (Number.ofFloat? x).map Json.number

mutual
/-- the value of a tree that is a literal; a number may have one minus sign -/
def Tree.value? : Tree → Option Json
  | .none => some .null
  | .truth b => some (.bool b)
  | .int n => intValue? n
  | .float spelling => floatValue? spelling.toList
  | .neg (.int n) => intValue? (-n)
  | .neg (.float spelling) => floatValue? ('-' :: spelling.toList)
  | .text s => some (.string s)
  | .list items => (Tree.values? items).map Json.array
  | .dict entries => (Tree.members? entries).map Json.object
  | _ => Option.none

def Tree.values? : List Tree → Option (List Json)
  | [] => some []
  | t :: rest => do
    let v ← t.value?
    let more ← Tree.values? rest
    some (v :: more)

/-- keys are texts -/
def Tree.members? : List (Tree × Tree) → Option (List (String × Json))
  | [] => some []
  | (.text k, t) :: rest => do
    let v ← t.value?
    let more ← Tree.members? rest
    some ((k, v) :: more)
  | _ => Option.none
end

/-- the value of a literal that takes up the whole text -/
def read? (text : String) : Option Json := do
  let ts ← lex text
  let (t, rest) ← parse .loosest ts
  if rest.isEmpty then t.value? else none

/-! ## floats of a value -/

mutual
def floats : Json → List Float
  | .number (.float x _) => [x]
  | .array items => floatsOfItems items
  | .object members => floatsOfMembers members
  | _ => []

def floatsOfItems : List Json → List Float
  | [] => []
  | v :: rest => floats v ++ floatsOfItems rest

def floatsOfMembers : List (String × Json) → List Float
  | [] => []
  | (_, v) :: rest => floats v ++ floatsOfMembers rest
end

/-- the literal of a float reads back as the float -/
def ReadsBack (x : Float) : Prop := Decimal.float? (Literal.float x).toList = some x

instance : DecidablePred ReadsBack :=
  fun x => inferInstanceAs (Decidable (Decimal.float? (Literal.float x).toList = some x))

/-! ## reading back -/

theorem value?_ofInt (n : Int) (fits : -0x8000000000000000 ≤ n ∧ n < 0x10000000000000000) :
    (Tree.ofInt n).value? = some (.number (.whole n fits)) := by
  have hint : intValue? n = some (.number (.whole n fits)) := by
    simp only [intValue?, Number.ofInt?, dif_pos fits, Option.map_some]
  unfold Tree.ofInt
  split
  next hneg =>
    have habs : -(n.natAbs : Int) = n := by omega
    rw [Tree.value?, habs, hint]
  next hpos =>
    have habs : (n.natAbs : Int) = n := by omega
    rw [Tree.value?, habs, hint]

theorem value?_ofFloat {x : Float} (finite : x.isFinite = true) (h : ReadsBack x) :
    (Tree.ofFloat x).value? = some (.number (.float x finite)) := by
  have hfloat : floatValue? (Literal.float x).toList = some (.number (.float x finite)) := by
    rw [floatValue?, h]
    simp only [Option.bind_some, Number.ofFloat?, dif_pos finite, Option.map_some]
  unfold Tree.ofFloat
  split
  next spelling htext =>
    rw [Tree.value?, String.toList_ofList, ← htext, hfloat]
  next =>
    rw [Tree.value?, String.toList_ofList, hfloat]

mutual
theorem value?_ofJson : (v : Json) → (∀ x ∈ floats v, ReadsBack x) →
    (Tree.ofJson v).value? = some v
  | .null, _ => rfl
  | .bool _, _ => rfl
  | .number (.whole n fits), _ => value?_ofInt n fits
  | .number (.float x finite), h => value?_ofFloat finite (h x (by simp [floats]))
  | .string _, _ => rfl
  | .array items, h => by
    rw [Tree.ofJson, Tree.value?, values?_ofItems items (by simpa [floats] using h)]
    rfl
  | .object members, h => by
    rw [Tree.ofJson, Tree.value?, members?_ofMembers members (by simpa [floats] using h)]
    rfl

theorem values?_ofItems : (items : List Json) → (∀ x ∈ floatsOfItems items, ReadsBack x) →
    Tree.values? (Tree.ofItems items) = some items
  | [], _ => rfl
  | v :: rest, h => by
    have hv := value?_ofJson v fun x hx => h x (List.mem_append_left _ hx)
    have hrest := values?_ofItems rest fun x hx => h x (List.mem_append_right _ hx)
    simp [Tree.ofItems, Tree.values?, hv, hrest]

theorem members?_ofMembers : (members : List (String × Json)) →
    (∀ x ∈ floatsOfMembers members, ReadsBack x) →
    Tree.members? (Tree.ofMembers members) = some members
  | [], _ => rfl
  | (k, v) :: rest, h => by
    have hv := value?_ofJson v fun x hx => h x (List.mem_append_left _ hx)
    have hrest := members?_ofMembers rest fun x hx => h x (List.mem_append_right _ hx)
    simp [Tree.ofMembers, Tree.members?, hv, hrest]
end

theorem read?_of_spells {text : String} {t : Tree} (h : Spells .loosest text.toList t) :
    read? text = t.value? := by
  obtain ⟨ts, hr, hd⟩ := h
  have hparse := (parsed_of_derives hd).whole [] (free_nil _)
  rw [List.append_nil] at hparse
  simp [read?, lex_of_scans text (hr.scans 0), hparse]

/-- a literal is read to its end and gives the value it was written from: the same numbers of the
same kinds, the same texts, the same elements, the same keys in the same order -/
theorem read_render (unit : String) (hu : IsIndent unit) (level : Nat) :
    (∀ v : Json, (∀ x ∈ floats v, ReadsBack x) → read? (Literal.render unit level v) = some v)
    ∧ ∀ members : List (String × Json), (∀ x ∈ floatsOfMembers members, ReadsBack x) →
      read? (Literal.renderMembers unit level members) = some (.object members) := by
  have hread : ∀ v : Json, (∀ x ∈ floats v, ReadsBack x) →
      read? (Literal.render unit level v) = some v := by
    intro v hv
    rw [read?_of_spells ((spells_render hu level v).mono (by decide)), value?_ofJson v hv]
  refine ⟨hread, fun members hm => ?_⟩
  rw [Literal.renderMembers]
  exact hread (.object members) (by simpa [floats] using hm)

/-- containers in containers, floats of every form, characters of every kind of escape -/
def sampleValue : Json :=
  .object
    [("rates", .array
      [.number (.float 1.5 (by decide)), .number (.float (-0.0) (by decide)),
       .number (.float 6.02e23 (by decide)), .number (.float 1.25e-7 (by decide)),
       .number (.whole (-7) (by decide)), .number (.whole 0xffffffffffffffff (by decide)), .array []]),
     ("a \"b\" \\", .object [("", .null), ("\t\x01\x7f", .bool false)]),
     ("π", .string "\r\n")]

theorem read_render_sampleValue :
    IsIndent "\t " ∧ (∀ x ∈ floats sampleValue, ReadsBack x)
    ∧ read? (Literal.render "\t " 2 sampleValue) = some sampleValue := by
  have hu : IsIndent "\t " := by decide
  have hfloats : ∀ x ∈ floats sampleValue, ReadsBack x := by decide
  exact ⟨hu, hfloats, (read_render "\t " hu 2).1 sampleValue hfloats⟩

end VisualProgram.Python
