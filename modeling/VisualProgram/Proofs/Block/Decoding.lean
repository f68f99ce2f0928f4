import VisualProgram.Block.State
import VisualProgram.Proofs.Json.RoundTrip

/-!
# The two ways to read a block

A text is read bottom up: every subtree is viewed, then the entries of a record are picked from its members by
name.  A value is read top down: its members are taken as they come, and each fills an entry of a draft.  The
two accept the same blocks (`ofJson?_eq`).

The step that carries this is `add?_bind_completed`.  `completed d rest` is the draft `d` with all it can get from
`rest`, entries looked up by name as a text is read; taking one more member first and completing then is the same
as completing from a list that has this member in front.
-/

namespace VisualProgram

namespace Json

/-! ## entries that come one after the other -/

/-- an entry, given what was read of it and the entries that are still to come -/
def pick? {α β : Type} (entry : Option β) (name : String) (read : α → Option β) (rest : List (String × α)) :
    Option (Option β) :=
  match Assoc.get? name rest with
  | none => some entry
  | some x => fill? entry (read x)

section
variable {α β : Type} {entry : Option β} {name : String} {read : α → Option β} {rest : List (String × α)}

theorem pick?_cons_self (x : α) :
    pick? entry name read ((name, x) :: rest) = fill? entry (read x) := by
  rw [pick?, Assoc.get?_cons, if_pos rfl]

theorem pick?_cons_of_ne {other : String} (x : α) (h : other ≠ name) :
    pick? entry name read ((other, x) :: rest) = pick? entry name read rest := by
  rw [pick?, Assoc.get?_cons, if_neg h, pick?]

theorem pick?_of_not_mem (hname : name ∉ Assoc.keys rest) : pick? entry name read rest = some entry := by
  rw [pick?, (Assoc.get?_eq_none_iff _ _).mpr hname]

/-- an entry that is filled is refused if it comes again -/
theorem pick?_of_fill? {value filled : Option β} (hfill : fill? entry value = some filled)
    (hname : name ∈ Assoc.keys rest) : pick? filled name read rest = none := by
  obtain ⟨x, hx⟩ := Option.ne_none_iff_exists'.mp (mt (Assoc.get?_eq_none_iff _ _).mp (not_not.mpr hname))
  obtain ⟨y, rfl⟩ : ∃ y, filled = some y := by
    cases entry with
    | some _ => cases hfill
    | none =>
      obtain ⟨y, -, hy⟩ := Option.map_eq_some_iff.mp hfill
      exact ⟨y, hy.symm⟩
  rw [pick?, hx]
  rfl

theorem fill?_bind_pick? {value : Option β} {x : α} (hread : read x = value) :
    ((fill? entry value).bind fun filled => pick? filled name read rest)
      = if name ∈ Assoc.keys rest then none else pick? entry name read ((name, x) :: rest) := by
  rw [pick?_cons_self, hread]
  cases hfill : fill? entry value with
  | none => simp
  | some filled =>
    rw [Option.bind_some]
    split
    next hmem => exact pick?_of_fill? hfill hmem
    next hmem => exact pick?_of_not_mem hmem

/-- what is picked for an entry that must come is what is found by name -/
theorem join_pick? : (pick? none name read rest).join = required name read rest := by
  unfold pick? required
  cases Assoc.get? name rest with
  | none => rfl
  | some x => cases h : read x <;> simp [fill?, h]

theorem map_pick? (default : β) :
    (pick? none name read rest).map (·.getD default) = Json.optional name default read rest := by
  unfold pick? Json.optional
  cases Assoc.get? name rest with
  | none => rfl
  | some x => cases h : read x <;> simp [fill?, h]

end

end Json

namespace Block
open Json

/-! ## views of values -/

@[simp]
theorem view_raw (raw : Raw) : (view raw).raw = raw := by cases raw <;> rfl

@[simp]
theorem text?_ofJson (v : Json) : (Raw.ofJson v).text? = v.text? := by cases v <;> rfl

/-- a value is the same as a block and as a set of sockets, read in one way or the other -/
structure Agrees (v : Json) : Prop where
  block : ofJson? v = (view (Raw.ofJson v)).block
  sockets : socketsOfJson? v = (view (Raw.ofJson v)).sockets

theorem Agrees.next {v : Json} (h : Agrees v) :
    Draft.next? v (fun _ => ofJson? v) = (view (Raw.ofJson v)).next? := by
  cases v with
  | null => rfl
  | _ => exact congrArg (Option.map some) h.block

/-! ## completing a draft -/

namespace Draft

/-- the draft with all it can get from the entries that are still to come -/
def completed (d : Draft) (rest : List (String × View)) : Option Draft := do
  let id ← pick? d.id "id" (·.raw.text?) rest
  let tag ← pick? d.tag "type" (·.raw.text?) rest
  let fields ← pick? d.fields "fields" (·.raw.members?) rest
  let inputs ← pick? d.inputs "inputs" (·.sockets) rest
  let statements ← pick? d.statements "statements" (·.sockets) rest
  let next ← pick? d.next "next" (·.next?) rest
  some ⟨id, tag, fields, inputs, statements, next⟩

@[simp] theorem completed_nil (d : Draft) : d.completed [] = some d := rfl

/-- a block is read from its entries by completing the empty draft -/
theorem completed_bind_finish? (entries : List (String × View)) :
    (empty.completed entries).bind finish? = ofEntries? entries := by
  unfold ofEntries? completed empty finish?
  simp only [← join_pick?, ← map_pick?, bind, Option.bind_assoc, Option.bind_some, Option.bind_map,
    Function.comp_def]
  rcases pick? none "id" (fun v : View => v.raw.text?) entries with _ | _ | id
  · rfl
  · simp
  rcases pick? none "type" (fun v : View => v.raw.text?) entries with _ | _ | tag
  · rfl
  · simp
  rfl

/-- one more member, then the rest: a member that comes again is refused, and else it is as good as one that is
still to come -/
theorem add?_bind_completed {v : Json} (hv : Agrees v) (d : Draft) {name : String} (hname : name ∈ entryNames)
    (rest : List (String × View)) :
    ((d.add? name v (fun _ => ofJson? v) (fun _ => socketsOfJson? v)).bind fun d => d.completed rest)
      = if name ∈ Assoc.keys rest then none else d.completed ((name, view (Raw.ofJson v)) :: rest) := by
  have hsockets := hv.sockets.symm
  have hnext := hv.next.symm
  simp only [entryNames, List.mem_cons, List.not_mem_nil, or_false] at hname
  cases hadd : d.add? name v (fun _ => ofJson? v) (fun _ => socketsOfJson? v) with
  | none =>
    rcases hname with rfl | rfl | rfl | rfl | rfl | rfl <;>
    · have hfill := Option.map_eq_none_iff.mp hadd
      simp [completed, pick?_cons_self, pick?_cons_of_ne, members?_ofJson, hsockets, hnext, hfill]
  | some added =>
    rcases hname with rfl | rfl | rfl | rfl | rfl | rfl <;>
    · obtain ⟨filled, hfill, rfl⟩ := Option.map_eq_some_iff.mp hadd
      split
      next hmem => simp [completed, pick?_of_fill? hfill hmem]
      next hmem =>
        simp [completed, pick?_of_not_mem hmem, pick?_cons_self, pick?_cons_of_ne, members?_ofJson, hsockets, hnext,
          hfill]

/-- a member of another name changes nothing -/
theorem add?_of_unknown (d : Draft) {name : String} (hname : name ∉ entryNames) (v : Json)
    (block : Unit → Option Block) (sockets : Unit → Option (List (String × Block))) :
    d.add? name v block sockets = some d := by
  simp only [entryNames, List.mem_cons, List.not_mem_nil, or_false, not_or] at hname
  unfold add?
  split <;> simp_all

end Draft

/-! ## members, elements and sockets -/

/-- members that fill a draft one after the other are found by name as well -/
theorem readMembers?_eq {members : List (String × Json)} (h : ∀ m ∈ members, Agrees m.2) (d : Draft) :
    readMembers? members d
      = (knownMembers? entryNames (viewMembers (Raw.ofMembers members))).bind d.completed := by
  induction members generalizing d with
  | nil => exact (d.completed_nil).symm
  | cons member rest ih =>
    obtain ⟨name, v⟩ := member
    obtain ⟨hv, hrest⟩ := List.forall_mem_cons.mp h
    have hknown : (knownMembers? entryNames (viewMembers (Raw.ofMembers ((name, v) :: rest)))).bind d.completed
        = (knownMembers? entryNames (viewMembers (Raw.ofMembers rest))).bind fun known =>
          if name ∈ entryNames then
            if name ∈ Assoc.keys known then none else d.completed ((name, view (Raw.ofJson v)) :: known)
          else d.completed known := by
      rw [Raw.ofMembers, viewMembers, knownMembers?]
      simp only [bind, Option.bind_some, Option.bind_assoc]
      congr 1
      funext known
      split_ifs <;> rfl
    rw [hknown, readMembers?]
    simp only [bind, ih hrest]
    by_cases hname : name ∈ entryNames
    · simp only [if_pos hname, ← d.add?_bind_completed hv hname]
      rw [Option.bind_comm]
    · simp only [if_neg hname, d.add?_of_unknown hname, Option.bind_some]

theorem readItems?_eq {names : List String} (hnames : names ⊆ entryNames) (hnodup : names.Nodup)
    {items : List Json} (h : ∀ v ∈ items, Agrees v) (d : Draft) :
    readItems? names items d = (knownItems? names (viewItems (Raw.ofItems items))).bind d.completed := by
  induction items generalizing names d with
  | nil => simp [readItems?, knownItems?, Raw.ofItems, viewItems, Draft.completed_nil]
  | cons v rest ih =>
    obtain ⟨hv, hrest⟩ := List.forall_mem_cons.mp h
    cases names with
    | nil => rfl
    | cons name names =>
      obtain ⟨hname, hnames⟩ := List.cons_subset.mp hnames
      obtain ⟨hnew, hnodup⟩ := List.nodup_cons.mp hnodup
      have hkeys : ∀ views : List View, name ∉ Assoc.keys (names.zip views) := by
        intro views hmem
        obtain ⟨entry, hentry, rfl⟩ := List.mem_map.mp hmem
        exact hnew (List.of_mem_zip hentry).1
      rw [readItems?]
      simp only [bind, ih hnames hnodup hrest, knownItems?, Raw.ofItems, viewItems, List.length_cons,
        Nat.add_le_add_iff_right, List.zip_cons_cons]
      split
      · simp only [Option.bind_some, d.add?_bind_completed hv hname, if_neg (hkeys _)]
      · simp

theorem readSockets?_eq {members : List (String × Json)} (h : ∀ m ∈ members, Agrees m.2)
    (done : List (String × Block)) :
    readSockets? members done = socketsOf? (viewMembers (Raw.ofMembers members)) done := by
  induction members generalizing done with
  | nil => rfl
  | cons member rest ih =>
    obtain ⟨hv, hrest⟩ := List.forall_mem_cons.mp h
    rw [readSockets?, hv.block, Raw.ofMembers, viewMembers, socketsOf?]
    simp only [ih hrest, bind, Option.bind_some]

/-! ## whole values -/

mutual
theorem agrees : (v : Json) → Agrees v
  | .null => ⟨rfl, rfl⟩
  | .bool _ => ⟨rfl, rfl⟩
  | .number _ => ⟨rfl, rfl⟩
  | .string _ => ⟨rfl, rfl⟩
  | .array items => by
    refine ⟨?_, rfl⟩
    rw [ofJson?, readItems?_eq (List.Subset.refl _) (by decide) (agrees_items items), Option.bind_assoc]
    simp only [Draft.completed_bind_finish?]
    rfl
  | .object members => by
    have hall := agrees_members members
    refine ⟨?_, readSockets?_eq hall []⟩
    rw [ofJson?, readMembers?_eq hall, Option.bind_assoc]
    simp only [Draft.completed_bind_finish?]
    rfl

theorem agrees_items : (items : List Json) → ∀ v ∈ items, Agrees v
  | [] => List.forall_mem_nil _
  | v :: rest => List.forall_mem_cons.mpr ⟨agrees v, agrees_items rest⟩

theorem agrees_members : (members : List (String × Json)) → ∀ m ∈ members, Agrees m.2
  | [] => List.forall_mem_nil _
  | (_, v) :: rest => List.forall_mem_cons.mpr ⟨agrees v, agrees_members rest⟩
end

/-- a value is read as the block that its text is read as -/
theorem ofJson?_eq (v : Json) : ofJson? v = ofRaw? (Raw.ofJson v) := (agrees v).block

end Block
end VisualProgram
